import SelectionCheck.Finding
import SelectionCheck.Json.Basic

/-!
# Reports on checked files

A report says which findings a file has. As JSON it is one object on a line of its own; as text it
is one line for each finding, so a file without findings takes no line at all.
-/

namespace SelectionCheck

def Location.toJson (l : Location) : Json :=
  .object [("line", .integer l.line), ("column", .integer l.column)]

def Json.unlessEmpty {α : Type} (name : Text) (items : List α) (toJson : α → Json) :
    List (Text × Json) :=
  if items.isEmpty then [] else [(name, .array (items.map toJson))]

/-- A finding as JSON: its kind is not written, nor are empty lists. -/
def Finding.toJson (f : Finding) : Json :=
  .object (("message", .string f.message) ::
    (Json.unlessEmpty "locations" f.locations Location.toJson ++
      Json.unlessEmpty "fields" f.fields .string))

structure Report where
  file : Text
  findings : List Finding
deriving Repr

namespace Report

def jsonLine (r : Report) : Text :=
  let findings := r.findings.map Finding.toJson
  (Json.object [("file", .string r.file), ("errors", .array findings)]).render ++ "\n"

/-- The report as lines of text, each with the file, the first location if there is one, and the
message. -/
def textLines (r : Report) : List Text :=
  r.findings.map fun f =>
    match f.locations with
    | l :: _ => r.file ++ ":" ++ l.render ++ ": " ++ f.message ++ "\n"
    | [] => r.file ++ ": " ++ f.message ++ "\n"

def text (r : Report) : Text :=
  r.textLines.flatten

end Report

end SelectionCheck
