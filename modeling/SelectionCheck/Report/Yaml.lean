import SelectionCheck.Report.Basic
import SelectionCheck.Yaml.Scalar

/-!
# Reports as YAML

The reports on all files are one YAML list. Locations and paths stand in brackets on one line; a
path that runs behind the last column goes on in the next line.
-/

namespace SelectionCheck

namespace Yaml

/-- The column reached by writing `text` from `column` on: characters count, not bytes. -/
def columnAfter (column : Nat) (text : Text) : Nat :=
  text.foldl (fun n b => if b = 0x0A then 0 else if Text.isContinuation b then n else n + 1) column

/-- The items of a list in brackets behind its first item, from the given column on. -/
def bracketedFrom (indent : Nat) : (column : Nat) → List Text → Text
  | _, [] => "]"
  | column, item :: items =>
    let gap := if lineWidth < column + 1 then newLine indent else [0x20]
    let start := columnAfter (column + 1) gap
    let written := scalar true (indent + 2) start item
    "," ++ gap ++ written ++ bracketedFrom indent (columnAfter start written) items

def bracketed (indent column : Nat) : List Text → Text
  | [] => "[]"
  | item :: items =>
    let written := scalar true (indent + 2) (column + 1) item
    "[" ++ written ++ bracketedFrom indent (columnAfter (column + 1) written) items

/-- A scalar with a line break behind it; a literal block may bring its own. -/
def scalarLine (indent column : Nat) (text : Text) : Text :=
  let written := scalar false indent column text
  if (codes written).getLast?.any isBreakCode then written else written ++ "\n"

end Yaml

def Location.yaml (l : Location) : Text :=
  "\x7bline: " ++ Text.ofInt l.line ++ ", column: " ++ Text.ofInt l.column ++ "\x7d"

def Finding.yamlLocations (f : Finding) : Text :=
  match f.locations with
  | [] => []
  | locations => "    locations: [" ++ Text.join ", " (locations.map Location.yaml) ++ "]\n"

def Finding.yamlFields (f : Finding) : Text :=
  match f.fields with
  | [] => []
  | fields => "    fields: " ++ Yaml.bracketed 6 12 fields ++ "\n"

def Finding.yaml (f : Finding) : Text :=
  "  - message: " ++ Yaml.scalarLine 6 13 f.message ++ f.yamlLocations ++ f.yamlFields

namespace Report

def yaml (r : Report) : Text :=
  let file := "- file: " ++ Yaml.scalarLine 4 8 r.file
  match r.findings with
  | [] => file ++ "  errors: []\n"
  | findings => file ++ "  errors:\n" ++ findings.flatMap Finding.yaml

def yamlDocument (reports : List Report) : Text :=
  reports.flatMap yaml

end Report

end SelectionCheck
