import SelectionCheck.Command.Address
import SelectionCheck.Command.Check
import SelectionCheck.Command.Suggestion
import SelectionCheck.Log.Level
import SelectionCheck.Service.Basic

/-!
# The command line

The first word that is no flag names the command. `check` checks files, `serve` answers requests
over HTTP; without a command the program prints how it is used. Faults are found in a fixed order:
the flags, the number of operands, the configuration, and then what the command itself needs.
-/

namespace SelectionCheck

/-- The commands. Guidance stands for the commands that only explain the others. -/
inductive CommandName
  | overview
  | check
  | serve
  | guidance
deriving DecidableEq, Repr

/-- How a run ends. A run that could not print how the program is used counts as a success. A run
that serves goes on with listening on its address. -/
inductive Outcome
  | success
  | unprinted
  | failure (message : Text)
  | unknownCommand (message : Text)
  | serving (address : Text) (service : Service)

namespace Outcome

def message? : Outcome → Option Text
  | .failure text | .unknownCommand text => some text
  | .success | .unprinted | .serving _ _ => none

def errorText : Outcome → Text
  | .failure text => "Error: " ++ text ++ "\n"
  | .unknownCommand text => "Error: " ++ text ++ "\nRun 'gqlcheck --help' for usage.\n"
  | .unprinted => "broken pipe\n"
  | .success | .serving _ _ => []

/-- What becomes of a run that serves when it listens: it fails if its address cannot be listened
on. -/
def listening : Outcome → Outcome
  | .serving address service =>
    match Address.fault? address with
    | some fault => .failure ("serve: " ++ fault)
    | none => .serving address service
  | outcome => outcome

def ofResult : Except Text Unit → Outcome
  | .ok () => .success
  | .error text => .failure text

end Outcome

namespace Command

open Text (byte)

def overviewLines : List String :=
  [ "Check GraphQL documents for misplaced selection sets",
    "",
    "Usage:",
    "  gqlcheck <command> [flags]",
    "  gqlcheck [command]",
    "",
    "Available Commands:",
    "  check       Validate query files against the schema",
    "  completion  Generate the autocompletion script for the specified shell",
    "  help        Help about any command",
    "  serve       Validate queries sent over HTTP",
    "",
    "Flags:",
    "      --config string   Config file (default is $HOME/.gqlcheck.yaml)",
    "  -h, --help            help for gqlcheck",
    "      --schema string   GraphQL schema file",
    "",
    "Use \"gqlcheck [command] --help\" for more information about a command." ]

def overviewText : Text :=
  overviewLines.flatMap fun line => Text.ofString line ++ [0x0A]

def sharedFlags : List Flag :=
  [⟨"config", none, .text⟩, ⟨"schema", none, .text⟩, ⟨"help", some (byte 'h'), .switch⟩]

def flags : CommandName → List Flag
  | .overview | .guidance => sharedFlags
  | .check => ⟨"format", none, .text⟩ :: sharedFlags
  | .serve =>
    ⟨"addr", none, .text⟩ :: ⟨"cache-size", none, .integer⟩ :: ⟨"report-period", none, .duration⟩ ::
      ⟨"trace-fraction", none, .fraction⟩ :: ⟨"log-level", none, .text⟩ :: sharedFlags

def ofWord? (word : Text) : Option CommandName :=
  if word = "check" then some .check
  else if word = "serve" then some .serve
  else if word = "help" || word = "completion" then some .guidance
  else none

def suggestible : List Text := ["check", "serve", "completion"]

/-! ## Finding the command -/

/-- Whether the argument is a flag whose value is the next argument, as far as can be told before
the command is known. -/
def takesNext (argument : Text) : Bool :=
  !argument.contains (byte '=') &&
    (Text.startsWith "--" argument || (Text.startsWith "-" argument && argument.length = 2))

/-- The first word among the arguments that is no flag and no value of one. -/
def firstWord? : List Text → Option Text
  | [] => none
  | argument :: rest =>
    if argument = "--" then none
    else if takesNext argument then
      match rest with
      | _ :: next :: rest => firstWord? (next :: rest)
      | _ => none
    else if argument.isEmpty || Text.startsWith "-" argument then firstWord? rest
    else some argument

def withoutWord (word : Text) : List Text → List Text
  | [] => []
  | argument :: rest =>
    if argument = "--" then argument :: rest
    else if takesNext argument then
      match rest with
      | value :: rest => argument :: value :: withoutWord word rest
      | [] => [argument]
    else if argument = word then rest
    else argument :: withoutWord word rest

def unknownMessage (word : Text) : Text :=
  let message : Text := "unknown command " ++ Text.quote word ++ " for \"gqlcheck\""
  match suggestions suggestible word with
  | [] => message
  | names =>
    let lines : Text := names.flatMap fun name => byte '\t' :: name ++ [0x0A]
    message ++ "\n\nDid you mean this?\n" ++ lines

def find (arguments : List Text) : Except Text (CommandName × List Text) :=
  match firstWord? arguments with
  | none => .ok (.overview, arguments)
  | some word =>
    match ofWord? word with
    | some command => .ok (command, withoutWord word arguments)
    | none => .error (unknownMessage word)

/-! ## Running -/

def operandFault? : CommandName → List Text → Option Text
  | .check, [] => some "requires at least 1 arg(s), only received 0"
  | .serve, word :: _ => some ("unknown command " ++ Text.quote word ++ " for \"gqlcheck serve\"")
  | _, _ => none

def serve (settings : Settings) : Script Outcome := do
  let level := settings.text "log_level" "info"
  if (Log.Level.ofText? level).isNone then
    return .failure ("serve: " ++ Log.Level.unknownMessage level)
  match ← Check.loadSchema (settings.text "schema" []) with
  | .error message => return .failure message
  | .ok schema =>
    let cacheSize := settings.integer "cache_size" Service.defaultCacheSize
    match Service.create schema cacheSize with
    | .error message => return .failure ("serve: " ++ message)
    | .ok service => return .serving (settings.text "addr" ":8080") service

def overview : Script Outcome := do
  return if ← Script.put overviewText then .success else .unprinted

def runNamed (settings : Settings) : CommandName → Script Outcome
  | .overview | .guidance => overview
  | .check => do return .ofResult (← Check.run settings)
  | .serve => serve settings

def run (environment : Text → Option Text) (home : Text) (arguments : List Text) : Script Outcome :=
  match find arguments with
  | .error message => .done (.unknownCommand message)
  | .ok (command, arguments) =>
    match CommandLine.ofArguments (flags command) arguments with
    | .error fault => .done (.failure fault.message)
    | .ok line =>
      if line.isOn "help" then overview
      else
        match operandFault? command line.operands with
        | some message => .done (.failure message)
        | none => do
          match ← Config.load environment home ((line.value? "config").getD []) with
          | .error message => return .failure message
          | .ok config => runNamed ⟨line, environment, config⟩ command

end Command

end SelectionCheck
