import SelectionCheck.Yaml.Fault

/-!
# Tokens of YAML

Indentation and line structure become tokens too: block collections have a token at their start and
one at their end, and a key has one before it, even where nothing marks it in the source.
-/

namespace SelectionCheck.Yaml

inductive TokenKind
  | streamStart
  | streamEnd
  | version (major minor : Nat)
  | tagHandle (handle expansion : Text)
  | documentStart
  | documentEnd
  | blockSequenceStart
  | blockMappingStart
  | blockEnd
  | flowSequenceStart
  | flowSequenceEnd
  | flowMappingStart
  | flowMappingEnd
  | blockEntry
  | flowEntry
  | key
  | value
  | reference (anchor : Text)
  | anchor (name : Text)
  | tag (handle suffix : Text)
  | scalar (plain : Bool) (value : Text)
deriving DecidableEq, Repr

structure Token where
  kind : TokenKind
  start : Mark
  finish : Mark
deriving DecidableEq, Repr

end SelectionCheck.Yaml
