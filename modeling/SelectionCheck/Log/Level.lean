import SelectionCheck.Text.Case
import SelectionCheck.Text.Quoted

/-!
# Levels of log entries

A log keeps the entries at its level and above.
-/

namespace SelectionCheck.Log

inductive Level
  | debug
  | info
  | warn
  | error
  | dpanic
  | panic
  | fatal
deriving DecidableEq, Repr

namespace Level

def all : List Level := [.debug, .info, .warn, .error, .dpanic, .panic, .fatal]

def label : Level → String
  | .debug => "debug"
  | .info => "info"
  | .warn => "warn"
  | .error => "error"
  | .dpanic => "dpanic"
  | .panic => "panic"
  | .fatal => "fatal"

/-- The level of a name in any letter case; the empty name is that of `info`. -/
def ofText? (text : Text) : Option Level :=
  if text.isEmpty then some .info
  else all.find? fun level => Text.ofString level.label = Text.lower text

def kept (level : Level) : List Level :=
  all.dropWhile (· ≠ level)

def unknownMessage (text : Text) : Text :=
  "log level " ++ Text.quote text ++ ": unrecognized level: " ++ Text.quote text

end Level

end SelectionCheck.Log
