import SelectionCheck.Toml.Statement

/-!
# Which keys are defined

No key of a document is given twice. The head of a table may follow what has been given inside of
it, but stands only once; a table that came about by keys with several parts is closed as soon as
the next head comes, and so is a table in braces with its closing brace. An item of a list of
tables starts with nothing defined in it.
-/

namespace SelectionCheck.Toml

inductive DefinedKind
  | value
  | table
  | listOfTables
deriving DecidableEq, Repr

def DefinedKind.name : DefinedKind → Text
  | .value => "value"
  | .table => "table"
  | .listOfTables => "array table"

/-- A definition: what the key stands for, whether its table is `closed` against further keys, and
whether it came about by an entry. -/
structure Definition where
  kind : DefinedKind
  closed : Bool
  byEntry : Bool
deriving DecidableEq, Repr

inductive KeyFault
  | notTable (part : Text) (kind : DefinedKind)
  | noTableHead (part : Text) (kind : DefinedKind)
  | tableTwice (part : Text)
  | noListHead (part : Text) (kind : DefinedKind)
  | keyTwice (part : Text)
  | closedTable (part : Text)
deriving DecidableEq, Repr

def KeyFault.message : KeyFault → Text
  | .notTable part kind => "expected " ++ part ++ " to be a table, not a " ++ kind.name
  | .noTableHead part kind => "key " ++ part ++ " should be a table, not a " ++ kind.name
  | .tableTwice part => "table " ++ part ++ " already exists"
  | .noListHead part kind =>
    "key " ++ kind.name ++ " already exists as a " ++ part ++ ",  but should be an array table"
  | .keyTwice part => "key " ++ part ++ " is already defined"
  | .closedTable part =>
    "cannot redefine table " ++ part ++ " that has already been explicitly defined"

structure Definitions where
  defined : List (Key × Definition)
  current : Key

namespace Definitions

def none : Definitions := ⟨[], []⟩

def find? (definitions : Definitions) (key : Key) : Option Definition :=
  definitions.defined.lookup key

def set (definitions : Definitions) (key : Key) (definition : Definition) : Definitions :=
  { definitions with
    defined := (key, definition) :: definitions.defined.filter fun (other, _) => other != key }

def isInside (outer inner : Key) : Bool :=
  outer.length < inner.length && outer.isPrefixOf inner

/-- The definitions where the tables inside of the current one are closed that came about by
entries. -/
def closeCurrent (definitions : Definitions) : Definitions :=
  { definitions with
    defined := definitions.defined.map fun (key, definition) =>
      if isInside definitions.current key && definition.byEntry then
        (key, { definition with closed := true, byEntry := false })
      else (key, definition) }

def clear (definitions : Definitions) (key : Key) : Definitions :=
  { definitions with
    defined := definitions.defined.filter fun (other, _) => !isInside key other }

/-- Defines the tables on the way to the head of a table: all parts of its key but the last, of
which `before` are behind. -/
def defineWay (definitions : Definitions) (before : Key) : Key → Except KeyFault Definitions
  | [] | [_] => .ok definitions
  | part :: next :: rest =>
    let key := before ++ [part]
    match definitions.find? key with
    | some ⟨.value, _, _⟩ => .error (.notTable part .value)
    | some _ => defineWay definitions key (next :: rest)
    | Option.none => defineWay (definitions.set key ⟨.table, false, false⟩) key (next :: rest)

def defineTable (definitions : Definitions) (key : Key) : Except KeyFault Definitions := do
  let definitions ← definitions.closeCurrent.defineWay [] key
  let part := key.getLast?.getD []
  match definitions.find? key with
  | some ⟨.table, closed, byEntry⟩ =>
    if closed then .error (.tableTwice part)
    else return { definitions.set key ⟨.table, true, byEntry⟩ with current := key }
  | some ⟨kind, _, _⟩ => .error (.noTableHead part kind)
  | Option.none => return { definitions.set key ⟨.table, true, false⟩ with current := key }

def defineItem (definitions : Definitions) (key : Key) : Except KeyFault Definitions := do
  let definitions ← definitions.closeCurrent.defineWay [] key
  match definitions.find? key with
  | some ⟨.listOfTables, _, _⟩ => return { definitions.clear key with current := key }
  | some ⟨kind, _, _⟩ => .error (.noListHead (key.getLast?.getD []) kind)
  | Option.none => return { definitions.set key ⟨.listOfTables, true, false⟩ with current := key }

def defineEntry (definitions : Definitions) (before : Key) : Key → Except KeyFault Definitions
  | [] => .ok definitions
  | part :: rest =>
    let key := before ++ [part]
    match definitions.find? key with
    | Option.none =>
      let kind : DefinedKind := if rest.isEmpty then .value else .table
      defineEntry (definitions.set key ⟨kind, false, true⟩) key rest
    | some ⟨kind, closed, _⟩ =>
      if rest.isEmpty then .error (.keyTwice part)
      else if kind ≠ .table then .error (.notTable part kind)
      else if closed then .error (.closedTable part)
      else defineEntry definitions key rest

end Definitions

mutual

def Value.keyFault? : Value → Option KeyFault
  | .list items => itemsKeyFault? items
  | .table entries => entriesKeyFault? .none entries
  | .text _ | .truth _ | .integer _ | .fraction _ | .date _ _ => none

def itemsKeyFault? : List Value → Option KeyFault
  | [] => none
  | item :: items => item.keyFault?.or (itemsKeyFault? items)

def entriesKeyFault? (definitions : Definitions) : List (Key × Value) → Option KeyFault
  | [] => none
  | (key, value) :: entries =>
    match definitions.defineEntry [] key with
    | .error fault => some fault
    | .ok definitions => value.keyFault?.or (entriesKeyFault? definitions entries)

end

def Definitions.after (definitions : Definitions) : Statement → Except KeyFault Definitions
  | .table key => definitions.defineTable key
  | .item key => definitions.defineItem key
  | .entry key value => do
    let definitions ← definitions.defineEntry definitions.current key
    match value.keyFault? with
    | some fault => .error fault
    | Option.none => return definitions

end SelectionCheck.Toml
