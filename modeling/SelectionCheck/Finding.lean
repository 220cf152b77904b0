import SelectionCheck.Document.Parse

/-!
# Findings

A finding is what a check reports about a document: a message, the places it is about, the path of
response keys that leads there, and the kind of rule that was broken. Findings about unreadable
documents have no path and no kind.
-/

namespace SelectionCheck

structure Location where
  line : Int
  column : Int
deriving DecidableEq, Repr

namespace Location

def ofPosition (p : Position) : Location := ⟨p.line, p.column⟩

def render (l : Location) : Text :=
  Text.ofInt l.line ++ ":" ++ Text.ofInt l.column

end Location

inductive FindingKind
  | none
  | missingSelections
  | selectionsOnLeaf
  | inlineFragmentsOnLeaf
deriving DecidableEq, Repr

namespace FindingKind

def all : List FindingKind :=
  [.none, .missingSelections, .selectionsOnLeaf, .inlineFragmentsOnLeaf]

def label : FindingKind → String
  | .none => "None"
  | .missingSelections => "MissingSelectionsOnComposite"
  | .selectionsOnLeaf => "IllegalSelectionsOnLeaf"
  | .inlineFragmentsOnLeaf => "IllegalInlineFragmentsOnLeaf"

end FindingKind

structure Finding where
  message : Text
  locations : List Location
  fields : List Text
  kind : FindingKind
deriving DecidableEq, Repr

namespace Finding

def atPosition (message : Text) (p : Position) : Finding :=
  ⟨message, [.ofPosition p], [], .none⟩

def ofSourceError (source : Text) (e : SourceError) : Finding :=
  ⟨e.message, (e.position? source).toList.map .ofPosition, [], .none⟩

def line (f : Finding) : Text :=
  match f.locations with
  | l :: _ => l.render ++ ": " ++ f.message
  | [] => f.message

def lines (findings : List Finding) : Text :=
  Text.join "\n" (findings.map line)

end Finding

end SelectionCheck
