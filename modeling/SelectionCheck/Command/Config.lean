import SelectionCheck.Config.Dotenv
import SelectionCheck.Config.Ini
import SelectionCheck.Config.Json
import SelectionCheck.Config.Properties
import SelectionCheck.Hcl.Settings
import SelectionCheck.Toml.Settings
import SelectionCheck.Yaml.Decode

/-!
# Configuration files

A configuration file gives values to settings. The end of its name says how it is written. Names of
settings are read without regard to case.
-/

namespace SelectionCheck

abbrev Config := List (Text × SettingValue)

namespace Config

open Text (byte)

inductive Format
  | json
  | toml
  | yaml
  | hcl
  | properties
  | assignments
  | sections
deriving DecidableEq, Repr

/-- The kinds of file that are known, by the ends of their names, in the order in which they are
looked for. -/
def knownTypes : List (Text × Format) :=
  [("json", .json), ("toml", .toml), ("yaml", .yaml), ("yml", .yaml), ("properties", .properties),
    ("props", .properties), ("prop", .properties), ("hcl", .hcl), ("tfvars", .hcl),
    ("dotenv", .assignments), ("env", .assignments), ("ini", .sections)]

def fileType (path : Text) : Text :=
  let base := (path.reverse.takeWhile (· != byte '/'))
  if base.contains (byte '.') then (base.takeWhile (· != byte '.')).reverse else []

/-- The setting that a property gives. What stands behind a point in its name is the name of an
entry in a table; the case of the last part of its name does not count. -/
def ofProperty (name value : Text) : Text × SettingValue :=
  if name.contains (byte '.') then (name.takeWhile (· != byte '.'), .table [])
  else (Text.lower name, .text value)

def ofSection (name : Text) : Text × SettingValue :=
  (name.takeWhile (· != byte '.'), .table [])

def settings (environment : Text → Option Text) (format : Format) (text : Text) :
    Except Text (List (Text × SettingValue)) :=
  match format with
  | .json => (Json.settings text).mapError Json.ConfigFault.message
  | .toml => (Toml.settings text).mapError Toml.Fault.message
  | .yaml => (Yaml.settings text).mapError Yaml.Fault.message
  | .hcl => (Hcl.settings text).mapError Hcl.ConfigFault.message
  | .properties =>
    match Properties.settings environment text with
    | .error fault => .error fault.message
    | .ok pairs => .ok (pairs.map fun (name, value) => ofProperty name value)
  | .assignments =>
    match Dotenv.assignments environment text with
    | .error fault => .error fault.message
    | .ok given => .ok (given.map fun (name, value) => (name, .text value))
  | .sections =>
    match Ini.sections text with
    | .error fault => .error fault.message
    | .ok names => .ok (names.map ofSection)

/-- The configuration of a text in the given format, the value that counts first. Of several names
that differ in case alone, one with a capital letter counts before one without, and otherwise the
last. -/
def ofText (environment : Text → Option Text) (format : Format) (text : Text) :
    Except Text Config :=
  match settings environment format text with
  | .error message => .error ("init config: While parsing config: " ++ message)
  | .ok entries =>
    let (capital, small) := entries.reverse.partition fun (name, _) => name ≠ Text.lower name
    .ok ((capital ++ small).map fun (name, value) => (Text.lower name, value))

def value? (config : Config) (setting : Text) : Option SettingValue :=
  (config.lookup setting).filter fun value => !value.isAbsent

end Config

end SelectionCheck
