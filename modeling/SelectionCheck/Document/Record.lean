import SelectionCheck.Document.Basic

/-!
# Documents as records

The form in which a document is handed out to readers that do not share the types of its tree. A
record has a kind and a list of parts whose order the kind fixes. A definition, a type definition,
a selection, a value and a type reference have a part for every form that they may take, and all
but one of them hold nothing.

Whatever the tree may lack shows in a record: an offset that was not found is `none`, and a part
that was not read is `nothing`, as is an optional part that is not there. A list or object beyond
the nesting limit is a value that takes no form at all.
-/

namespace SelectionCheck

variable {α : Type}

inductive RecordKind
  | document
  | definition
  | operation
  | fragment
  | typeCondition
  | selectionSet
  | selection
  | field
  | spread
  | inline
  | arguments
  | argument
  | directive
  | value
  | scalarValue
  | listValue
  | objectValue
  | objectField
  | var
  | defaultValue
  | variableDefinitions
  | variableDefinition
  | name
  | typeRef
  | listType
  | nonNullType
  | description
  | schemaDefinition
  | rootDefinition
  | typeDefinition
  | scalarType
  | objectType
  | interfaceType
  | unionType
  | enumType
  | inputType
  | fieldDefinitions
  | fieldDefinition
  | argumentDefinitions
  | enumValueDefinitions
  | enumValueDefinition
  | inputFieldDefinitions
  | inputValueDefinition
deriving DecidableEq, Repr

inductive Record
  | offset (start : Option Nat)
  | text (text : Text)
  | operationType (type : OperationType)
  | scalarKind (kind : ScalarKind)
  | nothing
  | list (elements : List Record)
  | node (kind : RecordKind) (parts : List Record)

namespace Record

/-- The record of a node that takes one of several forms. The other forms have parts before and
after it. -/
def oneOf (kind : RecordKind) (before : Nat) (form : Record) (after : Nat) : Record :=
  .node kind (List.replicate before .nothing ++ form :: List.replicate after .nothing)

def ofOption (record : α → Record) : Option α → Record
  | some a => record a
  | none => .nothing

def ofBracketed (kind : RecordKind) (record : α → Record) (b : Bracketed α) : Record :=
  .node kind [.offset (some b.opening), .list (b.items.map record), .offset b.closing]

/-- The record of a punctuator. One that was not reached counts as standing at the start of the
source. -/
def ofSlot : Slot → Record
  | .unread => .offset (some 0)
  | .missing => .offset none
  | .found start => .offset (some start)

end Record

open Record (oneOf ofOption ofBracketed ofSlot)

/-! ## Values, types and directives -/

def Name.record (n : Name) : Record :=
  .node .name [.text n.value, .offset (some n.start)]

def Variable.record (v : Variable) : Record :=
  .node .var [.offset (some v.dollar), v.name.record]

mutual

def Value.record : Value → Record
  | .null name => oneOf .value 0 name.record 4
  | .scalar start kind raw =>
    oneOf .value 1 (.node .scalarValue [.offset (some start), .scalarKind kind, .text raw]) 3
  | .var reference => oneOf .value 2 reference.record 2
  | .list ⟨opening, values, closing⟩ =>
    oneOf .value 3 (.node .listValue
      [.offset (some opening), .list (Value.listRecords values), .offset closing]) 1
  | .object ⟨opening, fields, closing⟩ =>
    oneOf .value 4 (.node .objectValue
      [.offset (some opening), .list (Value.fieldRecords fields), .offset closing]) 0
  | .tooDeep => .node .value (List.replicate 5 .nothing)
  | .missing => .nothing

def Value.listRecords : List Value → List Record
  | [] => []
  | v :: vs => v.record :: Value.listRecords vs

def Value.fieldRecords : List ObjectField → List Record
  | [] => []
  | ⟨name, colon, value⟩ :: fields =>
    .node .objectField [name.record, .offset (some colon), value.record] ::
      Value.fieldRecords fields

end

def DefaultValue.record (d : DefaultValue) : Record :=
  .node .defaultValue [.offset (some d.equals), d.value.record]

def Argument.record (a : Argument) : Record :=
  .node .argument [a.name.record, .offset (some a.colon), a.value.record]

def argumentsRecord : Option (Bracketed Argument) → Record :=
  ofOption (ofBracketed .arguments Argument.record)

def Directive.record (d : Directive) : Record :=
  .node .directive [.offset (some d.sign), d.name.record, argumentsRecord d.arguments]

def directivesRecord (directives : List Directive) : Record :=
  .list (directives.map Directive.record)

def TypeRef.record : TypeRef → Record
  | .named name none => oneOf .typeRef 0 name.record 2
  | .named name (some bang) =>
    oneOf .typeRef 2 (.node .nonNullType [name.record, .nothing, .offset (some bang)]) 0
  | .list opening element closing none =>
    oneOf .typeRef 1
      (.node .listType [.offset (some opening), element.record, .offset closing]) 1
  | .list opening element closing (some bang) =>
    oneOf .typeRef 2
      (.node .nonNullType [.nothing,
        .node .listType [.offset (some opening), element.record, .offset closing],
        .offset (some bang)]) 0
  | .missing => .nothing

/-! ## Operations and fragments -/

def TypeCondition.record (c : TypeCondition) : Record :=
  .node .typeCondition [.offset (some c.keyword), c.name.record]

mutual

def Selection.record : Selection → Record
  | .field aliasName name arguments directives selections =>
    oneOf .selection 0 (.node .field [ofOption Name.record aliasName, name.record,
      argumentsRecord arguments, directivesRecord directives, Selection.setRecord? selections]) 2
  | .spread ellipsis name directives =>
    oneOf .selection 1
      (.node .spread [.offset (some ellipsis), name.record, directivesRecord directives]) 1
  | .inline ellipsis condition directives selections =>
    oneOf .selection 2 (.node .inline [.offset (some ellipsis),
      ofOption TypeCondition.record condition, directivesRecord directives,
      Selection.setRecord selections]) 0

def Selection.setRecord? : Option (Bracketed Selection) → Record
  | none => .nothing
  | some set => Selection.setRecord set

def Selection.setRecord : Bracketed Selection → Record
  | ⟨opening, selections, closing⟩ =>
    .node .selectionSet
      [.offset (some opening), .list (Selection.listRecords selections), .offset closing]

def Selection.listRecords : List Selection → List Record
  | [] => []
  | s :: selections => s.record :: Selection.listRecords selections

end

def VariableDefinition.record (d : VariableDefinition) : Record :=
  .node .variableDefinition
    [d.var.record, .offset d.colon, d.type.record, ofOption DefaultValue.record d.defaultValue]

def Operation.record (o : Operation) : Record :=
  .node .operation [.offset (some o.start), .operationType o.type, ofOption Name.record o.name,
    ofOption (ofBracketed .variableDefinitions VariableDefinition.record) o.parameters,
    directivesRecord o.directives, Selection.setRecord o.selections]

def Fragment.record (f : Fragment) : Record :=
  .node .fragment [.offset (some f.keyword), f.name.record, f.condition.record,
    directivesRecord f.directives, Selection.setRecord f.selections]

/-! ## Type definitions -/

def Description.record (d : Description) : Record :=
  .node .description [.offset (some d.start), .text d.raw]

def InputValueDefinition.record (d : InputValueDefinition) : Record :=
  .node .inputValueDefinition [ofOption Description.record d.description, d.name.record,
    .offset d.colon, d.type.record, ofOption DefaultValue.record d.defaultValue]

def FieldDefinition.record (d : FieldDefinition) : Record :=
  .node .fieldDefinition [ofOption Description.record d.description, d.name.record,
    ofOption (ofBracketed .argumentDefinitions InputValueDefinition.record) d.arguments,
    ofSlot d.colon, d.type.record, directivesRecord d.directives]

def EnumValueDefinition.record (d : EnumValueDefinition) : Record :=
  .node .enumValueDefinition [ofOption Description.record d.description, d.value.record,
    directivesRecord d.directives]

def TypeBody.recordKind : TypeBody → RecordKind
  | .scalar => .scalarType
  | .object _ _ => .objectType
  | .interface _ => .interfaceType
  | .union _ _ => .unionType
  | .enum _ => .enumType
  | .input _ => .inputType

def TypeBody.formsBefore : TypeBody → Nat
  | .scalar => 0
  | .object _ _ => 1
  | .interface _ => 2
  | .union _ _ => 3
  | .enum _ => 4
  | .input _ => 5

def TypeBody.records : TypeBody → List Record
  | .scalar => []
  | .object interfaces fields =>
    [.list (interfaces.map Name.record),
      ofOption (ofBracketed .fieldDefinitions FieldDefinition.record) fields]
  | .interface fields => [ofOption (ofBracketed .fieldDefinitions FieldDefinition.record) fields]
  | .union equals members => [ofSlot equals, .list (members.map Name.record)]
  | .enum values =>
    [ofOption (ofBracketed .enumValueDefinitions EnumValueDefinition.record) values]
  | .input fields =>
    [ofOption (ofBracketed .inputFieldDefinitions InputValueDefinition.record) fields]

/-- The form that a type definition takes. All forms begin with the same parts. -/
def TypeDefinition.formRecord (d : TypeDefinition) : Record :=
  .node d.body.recordKind
    ([ofOption Description.record d.description, .offset (some d.keyword),
      ofOption Name.record d.name] ++ d.body.records)

def TypeDefinition.record (d : TypeDefinition) : Record :=
  oneOf .typeDefinition d.body.formsBefore d.formRecord (5 - d.body.formsBefore)

def RootDefinition.record (d : RootDefinition) : Record :=
  .node .rootDefinition
    [.operationType d.operation, .offset (some d.start), .offset (some d.colon), d.type.record]

def SchemaDefinition.record (d : SchemaDefinition) : Record :=
  .node .schemaDefinition [.offset (some d.keyword), .offset (some d.roots.opening),
    .list (d.roots.items.map RootDefinition.record), .offset d.roots.closing]

/-! ## Documents -/

def Definition.record : Definition → Record
  | .operation o => oneOf .definition 0 o.record 3
  | .fragment f => oneOf .definition 1 f.record 2
  | .type d => oneOf .definition 2 d.record 1
  | .schema d => oneOf .definition 3 d.record 0

def Document.record (d : Document) : Record :=
  .node .document [.list (d.definitions.map Definition.record)]

end SelectionCheck
