import SelectionCheck.Check.Query
import SelectionCheck.Command.Settings
import SelectionCheck.Report.Yaml

/-!
# Checking files

Each file is read and checked in the order given. JSON and text are written file by file, so what
was written stays when a later file cannot be read; YAML is one document and is written at the
end. The run fails if a file cannot be read, if the output is closed, or if any file has findings.
-/

namespace SelectionCheck

inductive ReportFormat
  | json
  | yaml
  | text
deriving DecidableEq, Repr

namespace ReportFormat

def ofText? (name : Text) : Option ReportFormat :=
  if name = "json" then some .json
  else if name = "yaml" then some .yaml
  else if name = "text" then some .text
  else none

def perFile : ReportFormat → Report → Text
  | .json, report => report.jsonLine
  | .yaml, _ => []
  | .text, report => report.text

def atEnd : ReportFormat → List Report → Text
  | .yaml, reports => Report.yamlDocument reports
  | .json, _ | .text, _ => []

end ReportFormat

namespace Check

def brokenPipe : Text := "check: broken pipe"

def loadSchema (path : Text) : Script (Except Text Schema) :=
  if path.isEmpty then .done (.error "no schema given (use --schema or GQLCHECK_SCHEMA)")
  else
    .read path fun
      | .error fault => .done (.error ("load schema: " ++ fault.message path))
      | .ok source =>
        match Schema.ofSource source with
        | .error fault => .done (.error ("load schema " ++ path ++ ": " ++ fault.message source))
        | .ok schema => .done (.ok schema)

/-- Checks files one after another; `done` holds the reports before, latest first. -/
def files (schema : Schema) (format : ReportFormat) :
    (done : List Report) → List Text → Script (Except Text (List Report))
  | done, [] => .done (.ok done.reverse)
  | done, file :: rest =>
    .read file fun
      | .error fault => .done (.error ("check: " ++ fault.message file))
      | .ok source => do
        let report : Report := ⟨file, schema.check source⟩
        if ← Script.put (format.perFile report) then files schema format (report :: done) rest
        else return .error brokenPipe

def conclusion (reports : List Report) : Except Text Unit :=
  match reports.countP (!·.findings.isEmpty) with
  | 0 => .ok ()
  | failed =>
    .error (Text.ofNat failed ++ " of " ++ Text.ofNat reports.length ++ " files have errors")

def withSchema (schema : Schema) (format : ReportFormat) (paths : List Text) :
    Script (Except Text Unit) := do
  match ← files schema format [] paths with
  | .error message => return .error message
  | .ok reports =>
    if ← Script.put (format.atEnd reports) then return conclusion reports
    else return .error brokenPipe

def run (settings : Settings) : Script (Except Text Unit) := do
  let name := settings.text "format" "json"
  match ReportFormat.ofText? name with
  | none => return .error ("unknown format " ++ Text.quote name)
  | some format =>
    match ← loadSchema (settings.text "schema" []) with
    | .error message => return .error message
    | .ok schema => withSchema schema format settings.line.operands

end Check

end SelectionCheck
