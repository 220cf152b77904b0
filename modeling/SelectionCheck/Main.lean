import SelectionCheck.Command.Basic

/-!
# The program

Carries out the script of a command line on the file system and the standard streams. All
decisions are those of the script; this module only asks the system and passes the answers on.
There is no network here, so a service ends where it would listen.
-/

namespace SelectionCheck

def systemString (text : Text) : String :=
  (String.fromUTF8? ⟨text.toArray⟩).getD ""

/-- The number by which the system reports that a part of a path is no directory. -/
def notDirectoryCode : UInt32 := 20

def readSystemFile (path : Text) : IO (Except ReadFault Text) := do
  try
    let bytes ← IO.FS.readBinFile (systemString path)
    return .ok bytes.toList
  catch
    | .noFileOrDirectory .. => return .error .notFound
    | .inappropriateType _ code _ =>
      return .error (if code = notDirectoryCode then .notDirectory else .isDirectory)
    | _ => return .error .notFound

def writeSystem (stream : IO.FS.Stream) (text : Text) : IO Bool := do
  try
    stream.write ⟨text.toArray⟩
    stream.flush
    return true
  catch _ => return false

def Script.perform {α : Type} : Script α → IO α
  | .done result => return result
  | .read path next => do (next (← readSystemFile path)).perform
  | .write text next => do (next (← writeSystem (← IO.getStdout) text)).perform

/-- The variables of an environment in the form in which the system shows it: each ends with a null
byte, and the value stands behind the first equals sign. -/
def environmentOf (block : Text) : List (Text × Text) :=
  (block.splitOn 0).map fun entry =>
    (entry.takeWhile (· != Text.byte '='), (entry.dropWhile (· != Text.byte '=')).tail)

/-- The environment of the program. Where the system does not show it, only the variables of
settings are asked for. -/
def systemEnvironment : IO (List (Text × Text)) := do
  match ← readSystemFile "/proc/self/environ" with
  | .ok block => return environmentOf block
  | .error _ =>
    Settings.names.filterMapM fun setting => do
      let name := Settings.variableName setting
      return (← IO.getEnv (systemString name)).map fun value => (name, Text.ofString value)

/-- The outcome where no network is at hand: a service cannot listen. -/
def Outcome.offline : Outcome → Outcome
  | .serving address _ => .failure ("serve: listen tcp " ++ address ++ ": network is unreachable")
  | outcome => outcome

end SelectionCheck

open SelectionCheck in
def main (arguments : List String) : IO UInt32 := do
  let environment ← systemEnvironment
  let home := Text.ofString ((← IO.getEnv "HOME").getD "")
  let script := Command.run (fun name => environment.lookup name) home (arguments.map Text.ofString)
  let outcome := (← script.perform).listening.offline
  let _ ← writeSystem (← IO.getStderr) outcome.errorText
  return if outcome.message?.isSome then 1 else 0
