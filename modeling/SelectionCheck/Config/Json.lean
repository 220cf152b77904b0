import SelectionCheck.Config.Value
import SelectionCheck.Json.Fault

/-!
# Configurations in JSON

The settings of a configuration in JSON are the members of an object. Of several members with the
same name the last one counts. Numbers are fractions.
-/

namespace SelectionCheck.Json

inductive ConfigFault
  | text (fault : JsonFault)
  | kind (found : Text)
  | number (spelling : Text)
deriving DecidableEq, Repr

def ConfigFault.message : ConfigFault → Text
  | .text fault => fault.message
  | .kind found =>
    "json: cannot unmarshal " ++ found ++ " into Go value of type map[string]interface \x7b\x7d"
  | .number spelling =>
    "json: cannot unmarshal number " ++ spelling ++ " into Go value of type float64"

def scalarValue (lexeme : Lexeme) : SettingValue :=
  match lexeme.kind with
  | .string => .text (unquote lexeme.text)
  | .number =>
    match Text.fraction lexeme.text with
    | .ok x => .fraction x
    | .error _ => .absent
  | _ => if lexeme.text = "null" then .absent else .truth (lexeme.text = "true")

/-- The value of the lexemes of a value. What lists and objects hold is of no interest here. -/
def settingValue : List Lexeme → SettingValue
  | [lexeme] => scalarValue lexeme
  | lexeme :: _ => if lexeme.kind = .mark .openBracket then .list [] else .table []
  | [] => .absent

def isHuge (lexeme : Lexeme) : Bool :=
  match lexeme.kind, Text.fraction lexeme.text with
  | .number, .error .outOfRange => true
  | _, _ => false

def hugeNumber? (value : List Lexeme) : Option Text :=
  (value.find? isHuge).map Lexeme.text

def settings (source : Text) : Except ConfigFault (List (Text × SettingValue)) :=
  match fault? source with
  | some fault => .error (.text fault)
  | none =>
    let value := (onlyValue source).getD []
    match members? value with
    | none => if isNull value then .ok [] else .error (.kind (kindName value))
    | some members =>
      match hugeNumber? value with
      | some spelling => .error (.number spelling)
      | none => .ok (members.map fun (name, value) => (name, settingValue value))

end SelectionCheck.Json
