import SelectionCheck.Document.Operand

/-!
# Reading type and schema definitions

A type definition is an optional description, a keyword, a name and a body whose form the keyword
decides. The description and the keyword are read by the caller, which needs both to choose the
form; a definition whose name cannot be read keeps an empty body of its form.
-/

namespace SelectionCheck.Grammar

def description (c : Cursor) : Option Description × Cursor :=
  match c.ahead with
  | [] => (none, c)
  | t :: rest => if t.kind = .string then (some ⟨t.start, t.text⟩, c.past rest) else (none, c)

/-! ## Fields and arguments -/

/-- Reads the definition of an argument or input field. A default value is read only behind a type
without faults. -/
def inputValueDefinition : (level : Nat) → Cursor → Reading (Option InputValueDefinition)
  | 0, c => .refuse none .tooDeep c
  | level + 1, c =>
    let described := description c
    match name described.2 with
    | .error fault => .refuse none fault described.2
    | .ok (name, c) =>
      match punctuator .colon c with
      | .error fault => .refuse (some ⟨described.1, name, none, .missing, none⟩) fault c
      | .ok (colon, c) =>
        let t := typeRef level c
        match t.faults with
        | [] =>
          (defaultValue level t.next).map fun d =>
            some ⟨described.1, name, some colon, t.value, d⟩
        | faults => ⟨some ⟨described.1, name, some colon, t.value, none⟩, faults, t.next⟩

def argumentsDefinition (level : Nat) :
    Cursor → Reading (Option (Bracketed InputValueDefinition)) :=
  nonEmpty .lparen .rparen .argumentsDefinition .inputValueDefinition inputValueDefinition level

def inputFieldsDefinition (level : Nat) :
    Cursor → Reading (Option (Bracketed InputValueDefinition)) :=
  nonEmpty .lbrace .rbrace .inputFieldsDefinition .inputValueDefinition inputValueDefinition level

def fieldDefinitionRest (level : Nat) (described : Option Description) (name : Name) (c : Cursor) :
    Reading (Option FieldDefinition) :=
  match c.ahead with
  | [] =>
    .refuse (some ⟨described, name, none, .unread, .missing, []⟩)
      (.expected .argumentsOrColon none) c
  | _ :: _ =>
    let a := whenNext .lparen (argumentsDefinition level) c
    match punctuator .colon a.next with
    | .error fault =>
      ⟨some ⟨described, name, a.value, .missing, .missing, []⟩, a.faults ++ [fault], a.next⟩
    | .ok (colon, c) =>
      let t := typeRef level c
      let d := directives true level t.next
      ⟨some ⟨described, name, a.value, .found colon, t.value, d.value⟩,
        a.faults ++ t.faults ++ d.faults,
        d.next⟩

def fieldDefinition : (level : Nat) → Cursor → Reading (Option FieldDefinition)
  | 0, c => .refuse none .tooDeep c
  | level + 1, c =>
    let described := description c
    match name described.2 with
    | .error fault => .refuse none fault described.2
    | .ok (name, c) => fieldDefinitionRest level described.1 name c

def fieldsDefinition (level : Nat) : Cursor → Reading (Option (Bracketed FieldDefinition)) :=
  nonEmpty .lbrace .rbrace .fieldsDefinition .fieldDefinition fieldDefinition level

/-! ## Enumerations -/

def reservedFaults (symbol : Name) : List Fault :=
  if [("null" : Text), "true", "false"].contains symbol.value then
    [.bare (.reservedEnumValue symbol)]
  else []

def enumValueDefinition (level : Nat) (c : Cursor) : Reading (Option EnumValueDefinition) :=
  let described := description c
  match name described.2 with
  | .error fault => .refuse none fault described.2
  | .ok (symbol, c) =>
    let d := directives true level c
    ⟨some ⟨described.1, symbol, d.value⟩, reservedFaults symbol ++ d.faults, d.next⟩

def enumValuesDefinition (level : Nat) :
    Cursor → Reading (Option (Bracketed EnumValueDefinition)) :=
  nonEmpty .lbrace .rbrace .enumValuesDefinition .enumValueDefinition enumValueDefinition level

/-! ## Lists of names -/

/-- Reads names with a separator between each two, up to the first name without one behind it.
`names` holds the names before, latest first. -/
def namesFrom (separator : Token.Kind) :
    (ahead : List Token) → (behind : Nat) → (names : List Name) → Reading (List Name)
  | [], behind, names => .refuse names.reverse (.expected .name none) ⟨[], behind⟩
  | t :: rest, behind, names =>
    if t.kind = .name then
      match rest with
      | [] => ⟨(⟨t.text, t.start⟩ :: names).reverse, [], ⟨[], behind + 1⟩⟩
      | s :: rest =>
        if s.kind = separator then
          namesFrom separator rest (behind + 2) (⟨t.text, t.start⟩ :: names)
        else ⟨(⟨t.text, t.start⟩ :: names).reverse, [], ⟨s :: rest, behind + 1⟩⟩
    else .refuse names.reverse (.expected .name (some t)) ⟨t :: rest, behind⟩

/-- Reads one or more names with separators between them and, if the writer likes, before them. -/
def names (separator : Token.Kind) (c : Cursor) : Reading (List Name) :=
  match punctuator separator c with
  | .error _ => namesFrom separator c.ahead c.behind []
  | .ok (_, c) => namesFrom separator c.ahead c.behind []

/-! ## Type definitions -/

inductive TypeForm
  | scalar
  | object
  | interface
  | union
  | enum
  | input
deriving DecidableEq, Repr

namespace TypeForm

def all : List TypeForm := [.scalar, .object, .interface, .union, .enum, .input]

def keyword : TypeForm → String
  | .scalar => "scalar"
  | .object => "type"
  | .interface => "interface"
  | .union => "union"
  | .enum => "enum"
  | .input => "input"

def ofWord? (word : Text) : Option TypeForm :=
  all.find? fun form => (form.keyword : Text) = word

def rule : TypeForm → Rule
  | .scalar => .scalarTypeDefinition
  | .object => .objectTypeDefinition
  | .interface => .interfaceTypeDefinition
  | .union => .unionTypeDefinition
  | .enum => .enumTypeDefinition
  | .input => .inputObjectTypeDefinition

def unreadBody : TypeForm → TypeBody
  | .scalar => .scalar
  | .object => .object [] none
  | .interface => .interface none
  | .union => .union .unread []
  | .enum => .enum none
  | .input => .input none

end TypeForm

def objectBody (level : Nat) (c : Cursor) : Reading TypeBody :=
  match c.ahead with
  | [] => (fieldsDefinition level c).map (.object [])
  | t :: rest =>
    if t.isWord "implements" then
      let i := names .ampersand (c.past rest)
      match i.faults with
      | [] => (fieldsDefinition level i.next).map (.object i.value)
      | faults => ⟨.object i.value none, withinAll (.rule .implements) faults, i.next⟩
    else (fieldsDefinition level c).map (.object [])

def unionBody (c : Cursor) : Reading TypeBody :=
  match punctuator .equals c with
  | .error fault => .refuse (.union .missing []) fault c
  | .ok (equals, c) => (names .bar c).map (.union (.found equals))

def typeBody (level : Nat) (form : TypeForm) (c : Cursor) : Reading TypeBody :=
  match form with
  | .scalar => ⟨.scalar, [], c⟩
  | .object => objectBody level c
  | .interface => (fieldsDefinition level c).map .interface
  | .union => unionBody c
  | .enum => (enumValuesDefinition level c).map .enum
  | .input => (inputFieldsDefinition level c).map .input

def typeDefinition (level : Nat) (form : TypeForm) (described : Option Description) (keyword : Nat)
    (c : Cursor) : Reading TypeDefinition :=
  match name c with
  | .error fault =>
    .refuse ⟨described, keyword, none, form.unreadBody⟩ (fault.within (.rule form.rule)) c
  | .ok (name, c) =>
    ((typeBody level form c).within (.named form.rule name.value)).map
      (⟨described, keyword, some name, ·⟩)

/-! ## Schema definitions -/

def operationType? (t : Token) : Option OperationType :=
  if t.kind = .name then OperationType.ofWord? t.text else none

def rootDefinition (c : Cursor) : Reading (Option RootDefinition) :=
  match c.ahead with
  | [] => .refuse none (.expected .operationType none) c
  | t :: rest =>
    match operationType? t with
    | none => .refuse none (.expected .operationType (some t)) c
    | some type =>
      match punctuator .colon (c.past rest) with
      | .error fault => .refuse none fault (c.past rest)
      | .ok (colon, c) =>
        match name c with
        | .error fault => .refuse none fault c
        | .ok (name, c) => ⟨some ⟨type, t.start, colon, name⟩, [], c⟩

def schemaDefinition (keyword : Nat) (c : Cursor) : Reading (Option SchemaDefinition) :=
  ((bracketed .lbrace .rbrace .rootDefinition rootDefinition c).within
    (.rule .schemaDefinition)).map
    fun roots => roots.map (⟨keyword, ·⟩)

end SelectionCheck.Grammar
