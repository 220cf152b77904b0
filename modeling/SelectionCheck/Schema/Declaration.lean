import SelectionCheck.Schema.Error
import SelectionCheck.Schema.Type

/-!
# From definitions to a table of types

The names that a document declares, together with the five built-in scalars, fix which type
references can be resolved; the kinds of those names fix which uses are allowed. Both are read off
the document before any reference is followed, so the order of the definitions does not matter to
the table.

`violations` lists everything that keeps a document from being a schema. The list is in the order
in which a reader would report it: misplaced definitions, names declared badly, references,
missing interface fields, roots. A document is a schema exactly if the list is empty, and the
first entry is the error reported.
-/

namespace SelectionCheck

/-- Maps each item, seen with the items before it (latest first), to a list, and concatenates. -/
def flatMapEarlier {α β : Type} (f : (earlier : List α) → α → List β) :
    (earlier : List α) → List α → List β
  | _, [] => []
  | earlier, a :: rest => f earlier a ++ flatMapEarlier f (a :: earlier) rest

structure Declaration where
  name : Name
  body : TypeBody

def TypeBody.kind : TypeBody → TypeKind
  | .scalar => .scalar
  | .object _ _ => .object
  | .interface _ => .interface
  | .union _ _ => .union
  | .enum _ => .enum
  | .input _ => .input

def Document.declarations (d : Document) : List Declaration :=
  d.definitions.filterMap fun
    | .type t => t.name.map (⟨·, t.body⟩)
    | _ => none

def Document.schemaDefinitions (d : Document) : List SchemaDefinition :=
  d.definitions.filterMap fun
    | .schema s => some s
    | _ => none

def builtinScalars : List Text :=
  ["Boolean", "Float", "Int", "String", "ID"]

/-- The kinds of the names that a reference may use. -/
abbrev KindTable := List (Text × TypeKind)

def kindTable (declarations : List Declaration) : KindTable :=
  builtinScalars.map (·, .scalar) ++ declarations.map fun d => (d.name.value, d.body.kind)

def KindTable.resolve? (kinds : KindTable) : TypeRef → Option TypeExpr
  | .named name bang => (kinds.lookup name.value).map fun _ => .named name.value bang.isSome
  | .list _ element _ bang => (kinds.resolve? element).map (.list · bang.isSome)
  | .missing => none

/-! ## The table of types -/

def inputInfos (kinds : KindTable) (definitions : List InputValueDefinition) :
    List (Text × TypeExpr) :=
  definitions.filterMap fun d => (kinds.resolve? d.type).map (d.name.value, ·)

def itemsOf {α : Type} (list : Option (Bracketed α)) : List α :=
  match list with
  | some list => list.items
  | none => []

def fieldInfos (kinds : KindTable) (definitions : List FieldDefinition) : List FieldInfo :=
  definitions.filterMap fun d =>
    (kinds.resolve? d.type).map fun type =>
      ⟨d.name.value, type, inputInfos kinds (itemsOf d.arguments)⟩

def TypeBody.info (kinds : KindTable) : TypeBody → TypeInfo
  | .scalar => .scalar
  | .object interfaces fields =>
    .object (fieldInfos kinds (itemsOf fields)) (interfaces.map Name.value)
  | .interface fields => .interface (fieldInfos kinds (itemsOf fields))
  | .union _ members => .union (members.map Name.value)
  | .enum values => .enum ((itemsOf values).map fun d => d.value.value)
  | .input fields => .input (inputInfos kinds (itemsOf fields))

def typeTable (declarations : List Declaration) : TypeTable :=
  builtinScalars.map (·, .scalar) ++
    declarations.map fun d => (d.name.value, d.body.info (kindTable declarations))

/-! ## Violations -/

namespace Violation

def reserved (name : Name) : List SchemaError :=
  if Text.startsWith "__" name.value then [.reservedName name] else []

/-- The error `e` if the condition holds. -/
def whenever (condition : Bool) (e : SchemaError) : List SchemaError :=
  if condition then [e] else []

/-- Definitions that have no place in a schema: operations, fragments and a second schema
definition. -/
def misplaced (d : Document) : List SchemaError :=
  flatMapEarlier
    (fun earlier definition =>
      match definition with
      | .operation o => [.operation o.start]
      | .fragment f => [.fragment f.keyword]
      | .schema s =>
        whenever (earlier.any fun
          | .schema _ => true
          | _ => false) (.secondSchema s.keyword)
      | .type _ => [])
    [] d.definitions

def enumValues (definitions : List EnumValueDefinition) : List SchemaError :=
  flatMapEarlier
    (fun earlier d =>
      reserved d.value ++
        whenever (earlier.any (·.value.value = d.value.value)) (.duplicateEnumValue d.value))
    [] definitions

/-- Types whose name is reserved or taken, and enumerations with bad symbols. -/
def declared (declarations : List Declaration) : List SchemaError :=
  flatMapEarlier
    (fun earlier d =>
      reserved d.name ++
        whenever (builtinScalars.contains d.name.value || earlier.any (·.name.value = d.name.value))
          (.duplicateType d.name) ++
        match d.body with
        | .enum values => enumValues (itemsOf values)
        | _ => [])
    [] declarations

/-- A reference to a type without a kind, or to one whose kind is not accepted. -/
def reference (kinds : KindTable) (accepted : TypeKind → Bool) (refused : TypeRef → SchemaError)
    (type : TypeRef) : List SchemaError :=
  match kinds.resolve? type with
  | none => [.undefinedType type]
  | some t => whenever (!(kinds.lookup t.base).any accepted) (refused type)

/-- Arguments that are reserved, declared twice, or of a type that is no input type. -/
def fieldArguments (kinds : KindTable) (owner field : Text)
    (definitions : List InputValueDefinition) :
    List SchemaError :=
  flatMapEarlier
    (fun earlier d =>
      reserved d.name ++
        whenever (earlier.any (·.name.value = d.name.value))
            (.duplicateArgument d.name owner field) ++
        reference kinds TypeKind.isInput .notInput d.type)
    [] definitions

/-- Fields that are reserved, declared twice, of a type that is no output type, or with bad
arguments. -/
def objectFields (kinds : KindTable) (owner : Text) (definitions : List FieldDefinition) :
    List SchemaError :=
  flatMapEarlier
    (fun earlier d =>
      reserved d.name ++
        whenever (earlier.any (·.name.value = d.name.value)) (.duplicateField d.name owner) ++
        reference kinds TypeKind.isOutput .notOutput d.type ++
        fieldArguments kinds owner d.name.value (itemsOf d.arguments))
    [] definitions

/-- Input fields that are reserved, declared twice, or of a type that is no input type. -/
def inputFields (kinds : KindTable) (owner : Text) (definitions : List InputValueDefinition) :
    List SchemaError :=
  flatMapEarlier
    (fun earlier d =>
      reserved d.name ++
        whenever (earlier.any (·.name.value = d.name.value)) (.duplicateField d.name owner) ++
        reference kinds TypeKind.isInput .notInput d.type)
    [] definitions

/-- Names in a list that are undefined, of the wrong kind, or repeated. -/
def namedTypes (kinds : KindTable) (wanted : TypeKind) (wrong repeated : Name → SchemaError)
    (names : List Name) : List SchemaError :=
  flatMapEarlier
    (fun earlier name =>
      match kinds.lookup name.value with
      | none => [.undefinedName name]
      | some kind =>
        whenever (kind ≠ wanted) (wrong name) ++
          whenever (earlier.any (·.value = name.value)) (repeated name))
    [] names

def references (kinds : KindTable) (d : Declaration) : List SchemaError :=
  match d.body with
  | .scalar | .enum _ => []
  | .object interfaces fields =>
    objectFields kinds d.name.value (itemsOf fields) ++
      namedTypes kinds .interface (.notInterface · d.name.value)
        (.duplicateInterface · d.name.value)
        interfaces
  | .interface fields => objectFields kinds d.name.value (itemsOf fields)
  | .union _ members =>
    namedTypes kinds .object (.notMember · d.name.value) (.duplicateMember · d.name.value) members
  | .input fields => inputFields kinds d.name.value (itemsOf fields)

def missingFields (table : TypeTable) (d : Declaration) : List SchemaError :=
  match table.info? d.name.value with
  | some (.object fields interfaces) =>
    interfaces.flatMap fun interface =>
      match table.info? interface with
      | some (.interface wanted) =>
        wanted.flatMap fun field =>
          whenever (!fields.any (·.name = field.name)) (.missingField d.name field.name interface)
      | _ => []
  | _ => []

def roots (kinds : KindTable) (definitions : List RootDefinition) : List SchemaError :=
  flatMapEarlier
    (fun earlier root =>
      whenever (earlier.any (·.operation = root.operation))
          (.duplicateRoot root.start root.operation) ++
        whenever (kinds.lookup root.type.value).isNone (.undefinedName root.type))
    [] definitions

end Violation

/-- The name of the type at the root of a type of operation when no schema definition says
otherwise. -/
def OperationType.defaultRoot : OperationType → Text
  | .query => "Query"
  | .mutation => "Mutation"
  | .subscription => "Subscription"

def Document.root? (d : Document) (operation : OperationType) : Option Text :=
  match d.schemaDefinitions with
  | [] =>
    ((kindTable d.declarations).lookup operation.defaultRoot).map fun _ => operation.defaultRoot
  | s :: _ => (s.roots.items.find? (·.operation = operation)).map (·.type.value)

namespace Violation

def rootKind (d : Document) (operation : OperationType) : List SchemaError :=
  match d.root? operation with
  | none => []
  | some name =>
    whenever ((kindTable d.declarations).lookup name ≠ some .object) (.rootNotObject operation name)

/-- A missing query root, and roots that are no object types. -/
def rootKinds (d : Document) : List SchemaError :=
  whenever (d.root? .query).isNone .noQuery ++ rootKind d .query ++ rootKind d .mutation ++
    rootKind d .subscription

end Violation

/-- Everything that keeps a document from being a schema, in the order of reporting. -/
def Document.violations (d : Document) : List SchemaError :=
  let declarations := d.declarations
  let kinds := kindTable declarations
  let table := typeTable declarations
  Violation.misplaced d ++ Violation.declared declarations ++
    declarations.flatMap (Violation.references kinds) ++
    declarations.flatMap (Violation.missingFields table) ++
    d.schemaDefinitions.flatMap (fun s => Violation.roots kinds s.roots.items) ++
    Violation.rootKinds d

end SelectionCheck
