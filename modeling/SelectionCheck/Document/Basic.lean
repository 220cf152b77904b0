import SelectionCheck.Text.Basic

/-!
# Documents

The syntax tree of a document of the query language. Every node keeps the byte offsets of its own
punctuators, so a tree can be laid over its source again.

A tree may come from a document with faults. What is optional in the language and what could not
be read are kept apart. An optional part is an `Option`. Where a value or a type was required and
nothing readable stood there, the tree has `missing`; a list or object beyond the nesting limit is
`tooDeep`. A closing bracket that was not found has the offset `none`.
-/

namespace SelectionCheck

structure Name where
  value : Text
  start : Nat
deriving DecidableEq, Repr, Inhabited

def Name.stop (n : Name) : Nat :=
  n.start + n.value.length

/-- Items between brackets: the offset of the opening bracket, the items, and the offset of the
closing bracket if it was found. -/
structure Bracketed (α : Type) where
  opening : Nat
  items : List α
  closing : Option Nat
deriving Repr

/-- The offset after the closing bracket; zero if there is none. -/
def Bracketed.stop {α : Type} (b : Bracketed α) : Nat :=
  match b.closing with
  | some offset => offset + 1
  | none => 0

/-- The offset of a required punctuator: not reached, reached but absent, or present. -/
inductive Slot
  | unread
  | missing
  | found (offset : Nat)
deriving DecidableEq, Repr

/-! ## Values -/

inductive ScalarKind
  | string
  | boolean
  | enum
  | int
  | float
deriving DecidableEq, Repr

/-- A reference to a variable: the offset of the dollar sign and the name after it. -/
structure Variable where
  dollar : Nat
  name : Name
deriving DecidableEq, Repr

def Variable.render (v : Variable) : Text :=
  "$" ++ v.name.value

mutual

inductive Value
  | null (name : Name)
  | scalar (start : Nat) (kind : ScalarKind) (raw : Text)
  | var (reference : Variable)
  | list (values : Bracketed Value)
  | object (fields : Bracketed ObjectField)
  | tooDeep
  | missing

inductive ObjectField
  | mk (name : Name) (colon : Nat) (value : Value)

end

def Value.start? : Value → Option Nat
  | .null name => some name.start
  | .scalar start _ _ => some start
  | .var reference => some reference.dollar
  | .list values => some values.opening
  | .object fields => some fields.opening
  | .tooDeep | .missing => none

structure DefaultValue where
  equals : Nat
  value : Value

structure Argument where
  name : Name
  colon : Nat
  value : Value

structure Directive where
  sign : Nat
  name : Name
  arguments : Option (Bracketed Argument)

/-! ## Types -/

/-- A reference to a type. A bang makes it non-null. -/
inductive TypeRef
  | named (name : Name) (bang : Option Nat)
  | list (opening : Nat) (element : TypeRef) (closing : Option Nat) (bang : Option Nat)
  | missing
deriving DecidableEq, Repr

namespace TypeRef

def start? : TypeRef → Option Nat
  | .named name _ => some name.start
  | .list opening _ _ _ => some opening
  | .missing => none

def bangMark : Option Nat → Text
  | some _ => "!"
  | none => ""

def render : TypeRef → Text
  | .named name bang => name.value ++ bangMark bang
  | .list _ element _ bang => "[" ++ element.render ++ "]" ++ bangMark bang
  | .missing => "<nil>"

end TypeRef

/-! ## Operations and fragments -/

inductive OperationType
  | query
  | mutation
  | subscription
deriving DecidableEq, Repr, Inhabited

namespace OperationType

def all : List OperationType := [.query, .mutation, .subscription]

def keyword : OperationType → String
  | .query => "query"
  | .mutation => "mutation"
  | .subscription => "subscription"

def ofWord? (word : Text) : Option OperationType :=
  all.find? fun type => (type.keyword : Text) = word

end OperationType

/-- The clause that says to which type a fragment applies. -/
structure TypeCondition where
  keyword : Nat
  name : Name
deriving DecidableEq, Repr

inductive Selection
  | field (aliasName : Option Name) (name : Name) (arguments : Option (Bracketed Argument))
      (directives : List Directive) (selections : Option (Bracketed Selection))
  | spread (ellipsis : Nat) (name : Name) (directives : List Directive)
  | inline (ellipsis : Nat) (condition : Option TypeCondition) (directives : List Directive)
      (selections : Bracketed Selection)

abbrev SelectionSet := Bracketed Selection

/-- The name under which a field's answer is returned: its alias if it has one. -/
def Selection.fieldKey (aliasName : Option Name) (name : Name) : Name :=
  aliasName.getD name

def Selection.start : Selection → Nat
  | .field aliasName name _ _ _ => (fieldKey aliasName name).start
  | .spread ellipsis _ _ => ellipsis
  | .inline ellipsis _ _ _ => ellipsis

/-- The offset after a field: behind its selections, else behind its arguments, else behind its
name. -/
def Selection.fieldStop (name : Name) (arguments : Option (Bracketed Argument))
    (selections : Option SelectionSet) : Nat :=
  match selections, arguments with
  | some set, _ => set.stop
  | none, some arguments => arguments.stop
  | none, none => name.stop

structure VariableDefinition where
  var : Variable
  colon : Option Nat
  type : TypeRef
  defaultValue : Option DefaultValue

structure Operation where
  start : Nat
  type : OperationType
  name : Option Name
  parameters : Option (Bracketed VariableDefinition)
  directives : List Directive
  selections : SelectionSet

structure Fragment where
  keyword : Nat
  name : Name
  condition : TypeCondition
  directives : List Directive
  selections : SelectionSet

/-! ## Type definitions -/

structure Description where
  start : Nat
  raw : Text
deriving DecidableEq, Repr

structure InputValueDefinition where
  description : Option Description
  name : Name
  colon : Option Nat
  type : TypeRef
  defaultValue : Option DefaultValue

structure FieldDefinition where
  description : Option Description
  name : Name
  arguments : Option (Bracketed InputValueDefinition)
  colon : Slot
  type : TypeRef
  directives : List Directive

structure EnumValueDefinition where
  description : Option Description
  value : Name
  directives : List Directive

/-- What a type definition says after the name of the type. -/
inductive TypeBody
  | scalar
  | object (interfaces : List Name) (fields : Option (Bracketed FieldDefinition))
  | interface (fields : Option (Bracketed FieldDefinition))
  | union (equals : Slot) (members : List Name)
  | enum (values : Option (Bracketed EnumValueDefinition))
  | input (fields : Option (Bracketed InputValueDefinition))

/-- The definition of a type. The name is absent only where none could be read. -/
structure TypeDefinition where
  description : Option Description
  keyword : Nat
  name : Option Name
  body : TypeBody

structure RootDefinition where
  operation : OperationType
  start : Nat
  colon : Nat
  type : Name

structure SchemaDefinition where
  keyword : Nat
  roots : Bracketed RootDefinition

/-! ## Documents -/

inductive Definition
  | operation (definition : Operation)
  | fragment (definition : Fragment)
  | type (definition : TypeDefinition)
  | schema (definition : SchemaDefinition)

/-- The offset of the first token of a definition; a type definition counts from its keyword,
behind its description. -/
def Definition.start : Definition → Nat
  | .operation o => o.start
  | .fragment f => f.keyword
  | .type d => d.keyword
  | .schema d => d.keyword

structure Document where
  definitions : List Definition

end SelectionCheck
