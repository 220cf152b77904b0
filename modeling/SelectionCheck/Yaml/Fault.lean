import SelectionCheck.Text.Quoted
import SelectionCheck.Yaml.Source

/-!
# Faults of YAML texts

A text can fail to be YAML in its characters, in its tokens, or in the way its tokens are put
together. The last two kinds have two places: where the construct in question begins, and where it
fails. The line that is named is that of the first of these places that is not on the first line.
-/

namespace SelectionCheck.Yaml

/-- A place in a source: the number of characters before it, its line and its column, all counted
from zero. -/
structure Mark where
  index : Nat
  line : Nat
  column : Nat
deriving DecidableEq, Repr

def Mark.start : Mark := ⟨0, 0, 0⟩

inductive TokenFault
  | depth (limit : Nat)
  | missingColon
  | noToken
  | blockEntry
  | mappingKey
  | mappingValue
  | directiveName
  | directiveLetter
  | unknownDirective
  | restOfLine
  | versionPoint
  | versionLength
  | versionNumber
  | tagMark
  | tagBlank
  | tagEnd
  | tagBracket
  | tagUri
  | uriOctet
  | leadingOctet
  | trailingOctet
  | anchorName
  | zeroIndentation
  | blockTab
  | documentMark
  | endOfStream
  | unknownEscape
  | hexDigits
  | escapedCharacter
  | plainTab
deriving DecidableEq, Repr

def TokenFault.message : TokenFault → Text
  | .depth limit => "exceeded max depth of " ++ Text.ofNat limit
  | .missingColon => "could not find expected ':'"
  | .noToken => "found character that cannot start any token"
  | .blockEntry => "block sequence entries are not allowed in this context"
  | .mappingKey => "mapping keys are not allowed in this context"
  | .mappingValue => "mapping values are not allowed in this context"
  | .directiveName => "could not find expected directive name"
  | .directiveLetter => "found unexpected non-alphabetical character"
  | .unknownDirective => "found unknown directive name"
  | .restOfLine => "did not find expected comment or line break"
  | .versionPoint => "did not find expected digit or '.' character"
  | .versionLength => "found extremely long version number"
  | .versionNumber => "did not find expected version number"
  | .tagMark => "did not find expected '!'"
  | .tagBlank => "did not find expected whitespace"
  | .tagEnd => "did not find expected whitespace or line break"
  | .tagBracket => "did not find the expected '>'"
  | .tagUri => "did not find expected tag URI"
  | .uriOctet => "did not find URI escaped octet"
  | .leadingOctet => "found an incorrect leading UTF-8 octet"
  | .trailingOctet => "found an incorrect trailing UTF-8 octet"
  | .anchorName => "did not find expected alphabetic or numeric character"
  | .zeroIndentation => "found an indentation indicator equal to 0"
  | .blockTab => "found a tab character where an indentation space is expected"
  | .documentMark => "found unexpected document indicator"
  | .endOfStream => "found unexpected end of stream"
  | .unknownEscape => "found unknown escape character"
  | .hexDigits => "did not find expected hexdecimal number"
  | .escapedCharacter => "found invalid Unicode character escape code"
  | .plainTab => "found a tab character that violates indentation"

inductive DocumentFault
  | repeatedVersion
  | otherVersion
  | repeatedTagHandle
  | documentStart
  | undefinedTagHandle
  | nodeContent
  | listEntry
  | key
  | flowListEntry
  | flowKey
deriving DecidableEq, Repr

def DocumentFault.message : DocumentFault → Text
  | .repeatedVersion => "found duplicate %YAML directive"
  | .otherVersion => "found incompatible YAML document"
  | .repeatedTagHandle => "found duplicate %TAG directive"
  | .documentStart => "did not find expected <document start>"
  | .undefinedTagHandle => "found undefined tag handle"
  | .nodeContent => "did not find expected node content"
  | .listEntry => "did not find expected '-' indicator"
  | .key => "did not find expected key"
  | .flowListEntry => "did not find expected ',' or ']'"
  | .flowKey => "did not find expected ',' or '\x7d'"

inductive Mismatch
  | kind (line : Nat) (tag : Text) (value? : Option Text) (wanted : Text)
  | repeatedKey (line : Nat) (key : Text) (before : Nat)
deriving DecidableEq, Repr

/-- A value as messages show it: at most ten bytes. -/
def Mismatch.excerpt (value : Text) : Text :=
  if 10 < value.length then " \x60" ++ value.take 7 ++ "...\x60" else " \x60" ++ value ++ "\x60"

def Mismatch.message : Mismatch → Text
  | .kind line tag value? wanted =>
    "line " ++ Text.ofNat line ++ ": cannot unmarshal " ++ tag ++
      (value?.map Mismatch.excerpt).getD [] ++ " into " ++ wanted
  | .repeatedKey line key before =>
    "line " ++ Text.ofNat line ++ ": mapping key " ++ Text.quote key ++
      " already defined at line " ++ Text.ofNat before

inductive Fault
  | source (fault : SourceFault)
  | token (context place : Mark) (fault : TokenFault)
  | document (context place : Mark) (fault : DocumentFault)
  | unknownAnchor (name : Text)
  | recursiveAnchor (name : Text)
  | excessiveAliases
  | wrongTag (found : Text) (value : Text) (wanted : Text)
  | invalidBase64
  | mergeWithoutMap
  | invalidKey (key : Text)
  | mismatches (list : List Mismatch)
deriving DecidableEq, Repr

namespace Fault

/-- The line that is named for two places, if any: of the first one that is not on the first line,
counted `extra` higher than from zero. -/
def place (extra : Nat) (context place : Mark) : Text :=
  let line := if context.line = 0 then place.line else context.line
  if line = 0 then [] else "line " ++ Text.ofNat (line + extra) ++ ": "

def message : Fault → Text
  | .source fault => "yaml: " ++ fault.message
  | .token context here fault => "yaml: " ++ place 1 context here ++ fault.message
  | .document context here fault => "yaml: " ++ place 0 context here ++ fault.message
  | .unknownAnchor name => "yaml: unknown anchor '" ++ name ++ "' referenced"
  | .recursiveAnchor name => "yaml: anchor '" ++ name ++ "' value contains itself"
  | .excessiveAliases => "yaml: document contains excessive aliasing"
  | .wrongTag found value wanted =>
    "yaml: cannot decode " ++ found ++ " \x60" ++ value ++ "\x60 as a " ++ wanted
  | .invalidBase64 => "yaml: !!binary value contains invalid base64 data"
  | .mergeWithoutMap => "yaml: map merge requires map or sequence of maps as the value"
  | .invalidKey key => "yaml: invalid map key: " ++ key
  | .mismatches list =>
    "yaml: unmarshal errors:\n  " ++ Text.join "\n  " (list.map Mismatch.message)

end Fault

end SelectionCheck.Yaml
