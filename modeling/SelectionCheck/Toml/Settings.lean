import SelectionCheck.Toml.Table

/-!
# Configurations in TOML

The settings of a configuration in TOML are the keys outside of tables. Statements are read, checked
against the ones before and evaluated one after another, so the first fault among all is reported.
-/

namespace SelectionCheck.Toml

inductive Fault
  | statement (fault : SyntaxFault)
  | key (fault : KeyFault)
  | number (fault : NumberFault)
  | date (fault : DateFault)
deriving DecidableEq, Repr

def Fault.message (fault : Fault) : Text :=
  "toml: " ++
    match fault with
    | .statement fault => fault.message
    | .key fault => fault.message
    | .number fault => fault.message
    | .date fault => fault.message

mutual

/-- The value of a setting. What tables hold is evaluated, but of no interest here. -/
def Value.evaluate : Value → Except Fault SettingValue
  | .text t => .ok (.text t)
  | .truth b => .ok (.truth b)
  | .integer numeral =>
    match Toml.integer numeral with
    | .ok n => .ok (.whole n)
    | .error fault => .error (.number fault)
  | .fraction numeral =>
    match Toml.fraction numeral with
    | .ok x => .ok (.fraction x)
    | .error fault => .error (.number fault)
  | .date kind spelling => (dateValue kind spelling).mapError .date
  | .list items => (evaluateItems items).map .list
  | .table entries => (evaluateEntries entries).map fun () => .table []

def evaluateItems : List Value → Except Fault (List SettingValue)
  | [] => .ok []
  | item :: items =>
    match item.evaluate with
    | .error fault => .error fault
    | .ok value => (evaluateItems items).map (value :: ·)

def evaluateEntries : List (Key × Value) → Except Fault Unit
  | [] => .ok ()
  | (_, value) :: entries =>
    match value.evaluate with
    | .error fault => .error fault
    | .ok _ => evaluateEntries entries

end

/-- The setting that a statement gives, where entries belong to the table with the key `current`. -/
def setting (current : Key) : Statement → Except Fault (Text × SettingValue)
  | .table key => .ok (key.headD [], .table [])
  | .item key => .ok (key.headD [], if key.length = 1 then .list [] else .table [])
  | .entry key value => do
    let evaluated ← value.evaluate
    match current, key with
    | [], [name] => return (name, evaluated)
    | _, _ => return ((current ++ key).headD [], .table [])

/-- The settings of the statements at the head of a text; `first` says whether none stands before.
Each line takes at least one byte, so `fuel` need not exceed the length. -/
def settingsFrom : (fuel : Nat) → (first : Bool) → Definitions → Text →
    Except Fault (List (Text × SettingValue))
  | 0, _, _, _ => .ok []
  | fuel + 1, first, definitions, text => do
    let line ← if first then .ok text else (behindLineBreak text).mapError .statement
    if line.isEmpty then return []
    else
      let (statement?, rest) ← (statement? line).mapError .statement
      match statement? with
      | none => settingsFrom fuel false definitions rest
      | some statement =>
        let definitions ← (definitions.after statement).mapError .key
        let given ← setting definitions.current statement
        return given :: (← settingsFrom fuel false definitions rest)

def settings (text : Text) : Except Fault (List (Text × SettingValue)) :=
  settingsFrom (text.length + 2) true .none text

end SelectionCheck.Toml
