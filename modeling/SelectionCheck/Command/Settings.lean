import SelectionCheck.Command.Config
import SelectionCheck.Command.Flag
import SelectionCheck.Command.Script

/-!
# Settings

The value of a setting comes from the first place that gives one: the command line, the
environment, the configuration file, and at last its default. In the environment a setting has a
prefix and capital letters, and an empty value counts as none; on the command line hyphens stand
for its underscores.
-/

namespace SelectionCheck

/-- The places that give values to settings. -/
structure Settings where
  line : CommandLine
  environment : Text → Option Text
  config : Config

namespace Settings

open Text (byte)

def names : List Text :=
  ["schema", "format", "addr", "cache_size", "report_period", "trace_fraction", "log_level"]

def flagName (setting : Text) : Text :=
  setting.map fun b => if b = byte '_' then byte '-' else b

def variableName (setting : Text) : Text :=
  "GQLCHECK_" ++ setting.map fun b => if Text.isLower b then b - 0x20 else b

def environmentValue? (settings : Settings) (setting : Text) : Option Text :=
  match settings.environment (variableName setting) with
  | some [] => none
  | value => value

/-- The value of a setting. What is given on the command line or in the environment is a text. -/
def value (settings : Settings) (setting : Text) (default : SettingValue) : SettingValue :=
  match settings.line.value? (flagName setting), settings.environmentValue? setting with
  | some text, _ | none, some text => .text text
  | none, none => (settings.config.value? setting).getD default

def text (settings : Settings) (setting default : Text) : Text :=
  (settings.value setting (.text default)).toText

def integer (settings : Settings) (setting : Text) (default : Int) : Int :=
  (settings.value setting (.whole default)).toInteger

end Settings

namespace Config

def homeFiles (home : Text) : List Text :=
  knownTypes.map (fun (type, _) => home ++ "/.gqlcheck." ++ type) ++ [home ++ "/.gqlcheck"]

/-- The configuration of the first file that there is; all of these are in YAML. -/
def readFirst (environment : Text → Option Text) : List Text → Script (Except Text Config)
  | [] => .done (.ok [])
  | path :: paths => .read path fun
    | .ok text => .done (ofText environment .yaml text)
    | .error _ => readFirst environment paths

/-- The configuration of a named file, which has to be of a known kind. -/
def readNamed (environment : Text → Option Text) (path : Text) : Script (Except Text Config) :=
  let type := fileType path
  match knownTypes.lookup type with
  | none => .done (.error ("init config: Unsupported Config Type " ++ Text.quote type))
  | some format => .read path fun
    | .ok text => .done (ofText environment format text)
    | .error fault => .done (.error ("init config: " ++ fault.message path))

/-- The configuration: that of the named file, or the one in the home directory if there is one. -/
def load (environment : Text → Option Text) (home named : Text) : Script (Except Text Config) :=
  if named.isEmpty then readFirst environment (homeFiles home) else readNamed environment named

end Config

end SelectionCheck
