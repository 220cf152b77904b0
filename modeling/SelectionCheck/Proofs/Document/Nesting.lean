import SelectionCheck.Proofs.Document.Holes

/-!
# How deep records are nested

Nodes of three sorts may stand inside nodes of their own sort: selection sets, list and object
values, and list types. A way leads from a record down to one of the nodes in it; `Record.Within`
bounds how many nodes of each sort any way meets. The bound of a node follows from the bounds of
its parts, which is one more for a node of one of the three sorts (`within_node`).
-/

namespace SelectionCheck

variable {α : Type}

/-! ## Ways and bounds -/

/-- The kinds of the nodes on a way from a record down to a node in it, the outermost first. -/
inductive Record.Way : Record → List RecordKind → Prop
  | here (kind : RecordKind) (parts : List Record) : Way (.node kind parts) [kind]
  | part {kind : RecordKind} {parts : List Record} {r : Record} {way : List RecordKind}
      (hr : r ∈ parts) (h : Way r way) : Way (.node kind parts) (kind :: way)
  | element {elements : List Record} {r : Record} {way : List RecordKind}
      (hr : r ∈ elements) (h : Way r way) : Way (.list elements) way

def RecordKind.isCompoundValue : RecordKind → Bool
  | .listValue | .objectValue => true
  | _ => false

/-- How many selection sets, list or object values, and list types may be nested. -/
structure Nesting where
  selections : Nat
  values : Nat
  types : Nat
deriving DecidableEq, Repr

namespace Nesting

/-- The way meets no more nodes of each sort than allowed. -/
structure Holds (n : Nesting) (way : List RecordKind) : Prop where
  selections : way.count .selectionSet ≤ n.selections
  values : way.countP RecordKind.isCompoundValue ≤ n.values
  types : way.count .listType ≤ n.types

/-- The bound for a node of a kind when `n` bounds its parts. -/
def more (n : Nesting) : RecordKind → Nesting
  | .selectionSet => { n with selections := n.selections + 1 }
  | .listValue | .objectValue => { n with values := n.values + 1 }
  | .listType => { n with types := n.types + 1 }
  | _ => n

variable {n m : Nesting} {way : List RecordKind}

theorem holds_nil (n : Nesting) : n.Holds [] :=
  ⟨Nat.zero_le _, Nat.zero_le _, Nat.zero_le _⟩

theorem holds_iff : n.Holds way ↔ way.count .selectionSet ≤ n.selections ∧
    way.countP RecordKind.isCompoundValue ≤ n.values ∧ way.count .listType ≤ n.types :=
  ⟨fun h => ⟨h.1, h.2, h.3⟩, fun h => ⟨h.1, h.2.1, h.2.2⟩⟩

theorem holds_more_cons (kind : RecordKind) : (n.more kind).Holds (kind :: way) ↔ n.Holds way := by
  rw [holds_iff, holds_iff]
  cases kind <;> simp [more, RecordKind.isCompoundValue, List.countP_cons]

end Nesting

/-- No way in the record meets more nodes of one sort than allowed. -/
def Record.Within (n : Nesting) (r : Record) : Prop :=
  ∀ way, r.Way way → n.Holds way

namespace Record

variable {n m : Nesting} {kind : RecordKind} {parts : List Record}

theorem Within.mono {r : Record} (h : r.Within n) (hselections : n.selections ≤ m.selections)
    (hvalues : n.values ≤ m.values) (htypes : n.types ≤ m.types) : r.Within m := by
  intro way hway
  have hholds := h way hway
  exact ⟨Nat.le_trans hholds.selections hselections, Nat.le_trans hholds.values hvalues,
    Nat.le_trans hholds.types htypes⟩

/-- A node is bounded by what bounds its parts, and by one more if it is of one of the sorts. -/
theorem within_node : (node kind parts).Within (n.more kind) ↔ ∀ r ∈ parts, r.Within n := by
  constructor
  · intro h r hr way hway
    exact (Nesting.holds_more_cons kind).1 (h _ (.part hr hway))
  · intro h way hway
    cases hway with
    | here => exact (Nesting.holds_more_cons kind).2 n.holds_nil
    | part hr hway => exact (Nesting.holds_more_cons kind).2 (h _ hr _ hway)

/-- The bounds of a node of another sort are those of its parts. -/
theorem within_plain (hkind : n.more kind = n) :
    (node kind parts).Within n ↔ ∀ r ∈ parts, r.Within n := by
  have hnode := @within_node n kind parts
  rwa [hkind] at hnode

@[simp]
theorem within_list {elements : List Record} :
    (list elements).Within n ↔ ∀ r ∈ elements, r.Within n := by
  constructor
  · intro h r hr way hway
    exact h way (.element hr hway)
  · intro h way hway
    cases hway with
    | element hr hway => exact h _ hr _ hway

@[simp]
theorem within_offset {start : Option Nat} : (offset start).Within n := nofun

@[simp]
theorem within_text {value : Text} : (text value).Within n := nofun

@[simp]
theorem within_operationType {type : OperationType} : (operationType type).Within n := nofun

@[simp]
theorem within_scalarKind {scalar : ScalarKind} : (scalarKind scalar).Within n := nofun

@[simp]
theorem within_nothing : nothing.Within n := nofun

@[simp]
theorem within_ofOption {record : α → Record} {o : Option α} :
    (ofOption record o).Within n ↔ ∀ a ∈ o, (record a).Within n := by
  cases o <;> simp [ofOption]

theorem within_oneOf {before after : Nat} {r : Record} (hkind : n.more kind = n) :
    (oneOf kind before r after).Within n ↔ r.Within n := by
  rw [oneOf, within_plain hkind]
  constructor
  · intro h
    exact h r (by simp)
  · intro h s hs
    rcases List.mem_append.1 hs with hs | hs
    · rw [List.eq_of_mem_replicate hs]
      exact within_nothing
    · rcases List.mem_cons.1 hs with rfl | hs
      · exact h
      · rw [List.eq_of_mem_replicate hs]
        exact within_nothing

/-- Brackets are bounded by what bounds the items between them. -/
theorem within_ofBracketed {record : α → Record} {b : Bracketed α} :
    (ofBracketed kind record b).Within (n.more kind) ↔ ∀ a ∈ b.items, (record a).Within n := by
  rw [ofBracketed, within_node]
  simp

end Record

/-! ## The nodes of a document

What bounds a node, by what bounds those of its parts that are nested. -/

open Record

variable {n : Nesting}

@[simp]
theorem Name.within (name : Name) : name.record.Within n := by
  rw [record, within_plain rfl]
  simp

@[simp]
theorem Variable.within (v : Variable) : v.record.Within n := by
  rw [record, within_plain rfl]
  simp

theorem Value.within_null {name : Name} : (Value.null name).record.Within n := by
  rw [record, within_oneOf rfl]
  exact name.within

theorem Value.within_scalar {start : Nat} {kind : ScalarKind} {raw : Text} :
    (Value.scalar start kind raw).record.Within n := by
  rw [record, within_oneOf rfl, within_plain rfl]
  simp

theorem Value.within_var {v : Variable} : (Value.var v).record.Within n := by
  rw [record, within_oneOf rfl]
  exact v.within

theorem Value.within_tooDeep : Value.tooDeep.record.Within n := by
  rw [record, within_plain rfl]
  intro r hr
  rw [List.eq_of_mem_replicate hr]
  exact within_nothing

theorem Value.within_missing : Value.missing.record.Within n := by
  rw [record]
  exact within_nothing

/-- A list value is nested once more than its elements. -/
theorem Value.within_list {values : Bracketed Value} :
    (Value.list values).record.Within (n.more .listValue) ↔
      ∀ v ∈ values.items, v.record.Within n := by
  rw [Value.record_list, within_oneOf rfl, within_ofBracketed]

theorem Value.within_object {fields : Bracketed ObjectField} :
    (Value.object fields).record.Within (n.more .objectValue) ↔
      ∀ f ∈ fields.items, f.record.Within n := by
  rw [Value.record_object, within_oneOf rfl, within_ofBracketed]

@[simp]
theorem DefaultValue.within_iff {d : DefaultValue} :
    d.record.Within n ↔ d.value.record.Within n := by
  rw [record, within_plain rfl]
  simp

@[simp]
theorem Argument.within_iff {a : Argument} : a.record.Within n ↔ a.value.record.Within n := by
  rw [record, within_plain rfl]
  simp

@[simp]
theorem ObjectField.within_iff {name : Name} {colon : Nat} {value : Value} :
    (ObjectField.mk name colon value).record.Within n ↔ value.record.Within n := by
  rw [record, within_plain rfl]
  simp

theorem within_brackets {kind : RecordKind} {record : α → Record} {o : Option (Bracketed α)}
    (hkind : n.more kind = n) :
    (ofOption (ofBracketed kind record) o).Within n ↔
      ∀ b ∈ o, ∀ a ∈ b.items, (record a).Within n := by
  rw [within_ofOption]
  refine forall₂_congr fun b _ => ?_
  have hbrackets := @within_ofBracketed _ n kind record b
  rwa [hkind] at hbrackets

@[simp]
theorem within_argumentsRecord {arguments : Option (Bracketed Argument)} :
    (argumentsRecord arguments).Within n ↔
      ∀ b ∈ arguments, ∀ a ∈ b.items, a.value.record.Within n := by
  rw [argumentsRecord, within_brackets rfl]
  simp

@[simp]
theorem Directive.within_iff {d : Directive} :
    d.record.Within n ↔ (argumentsRecord d.arguments).Within n := by
  rw [record, within_plain rfl]
  simp

@[simp]
theorem within_directivesRecord {directives : List Directive} :
    (directivesRecord directives).Within n ↔ ∀ d ∈ directives, d.record.Within n := by
  simp [directivesRecord]

@[simp]
theorem TypeRef.within_named {name : Name} {bang : Option Nat} :
    (TypeRef.named name bang).record.Within n := by
  cases bang with
  | none =>
      rw [record, within_oneOf rfl]
      exact name.within
  | some bang =>
      rw [record, within_oneOf rfl, within_plain rfl]
      simp

theorem TypeRef.within_missing : TypeRef.missing.record.Within n := within_nothing

theorem TypeRef.within_list {opening : Nat} {element : TypeRef} {closing bang : Option Nat} :
    (TypeRef.list opening element closing bang).record.Within (n.more .listType) ↔
      element.record.Within n := by
  have hlist : (node .listType [.offset (some opening), element.record, .offset closing]).Within
      (n.more .listType) ↔ element.record.Within n := by
    rw [within_node]
    simp
  cases bang with
  | none => rw [record, within_oneOf rfl, hlist]
  | some bang =>
      rw [record, within_oneOf rfl, within_plain rfl, ← hlist]
      simp

@[simp]
theorem TypeCondition.within (c : TypeCondition) : c.record.Within n := by
  rw [record, within_plain rfl]
  simp

/-- A selection set is nested once more than its selections. -/
theorem SelectionSet.within_iff {set : SelectionSet} :
    (Selection.setRecord set).Within (n.more .selectionSet) ↔
      ∀ s ∈ set.items, s.record.Within n := by
  rw [Selection.setRecord_eq, within_ofBracketed]

@[simp]
theorem Selection.within_field {aliasName : Option Name} {name : Name}
    {arguments : Option (Bracketed Argument)} {directives : List Directive}
    {selections : Option SelectionSet} :
    (Selection.field aliasName name arguments directives selections).record.Within n ↔
      (argumentsRecord arguments).Within n ∧ (directivesRecord directives).Within n ∧
        ∀ set ∈ selections, (Selection.setRecord set).Within n := by
  rw [record, within_oneOf rfl, within_plain rfl, setRecord?_eq]
  simp [setRecord_eq]

@[simp]
theorem Selection.within_spread {ellipsis : Nat} {name : Name} {directives : List Directive} :
    (Selection.spread ellipsis name directives).record.Within n ↔
      (directivesRecord directives).Within n := by
  rw [record, within_oneOf rfl, within_plain rfl]
  simp

@[simp]
theorem Selection.within_inline {ellipsis : Nat} {condition : Option TypeCondition}
    {directives : List Directive} {selections : SelectionSet} :
    (Selection.inline ellipsis condition directives selections).record.Within n ↔
      (directivesRecord directives).Within n ∧ (Selection.setRecord selections).Within n := by
  rw [record, within_oneOf rfl, within_plain rfl]
  simp

@[simp]
theorem VariableDefinition.within_iff {d : VariableDefinition} :
    d.record.Within n ↔ d.type.record.Within n ∧ ∀ v ∈ d.defaultValue, v.record.Within n := by
  rw [record, within_plain rfl]
  simp

theorem Operation.within_iff {o : Operation} :
    o.record.Within n ↔
      (∀ b ∈ o.parameters, ∀ d ∈ b.items, d.record.Within n) ∧
        (directivesRecord o.directives).Within n ∧
        (Selection.setRecord o.selections).Within n := by
  have hparameters := @within_brackets _ n .variableDefinitions VariableDefinition.record
    o.parameters rfl
  rw [record, within_plain rfl]
  simp [hparameters]

theorem Fragment.within_iff {f : Fragment} :
    f.record.Within n ↔
      (directivesRecord f.directives).Within n ∧ (Selection.setRecord f.selections).Within n := by
  rw [record, within_plain rfl]
  simp

@[simp]
theorem Description.within (d : Description) : d.record.Within n := by
  rw [record, within_plain rfl]
  simp

@[simp]
theorem InputValueDefinition.within_iff {d : InputValueDefinition} :
    d.record.Within n ↔ d.type.record.Within n ∧ ∀ v ∈ d.defaultValue, v.record.Within n := by
  rw [record, within_plain rfl]
  simp

@[simp]
theorem FieldDefinition.within_iff {d : FieldDefinition} :
    d.record.Within n ↔
      (∀ b ∈ d.arguments, ∀ a ∈ b.items, a.record.Within n) ∧ d.type.record.Within n ∧
        (directivesRecord d.directives).Within n := by
  have hslot : (ofSlot d.colon).Within n := by
    cases d.colon <;> exact within_offset
  have harguments := @within_brackets _ n .argumentDefinitions InputValueDefinition.record
    d.arguments rfl
  rw [record, within_plain rfl]
  simp [harguments, hslot]

@[simp]
theorem EnumValueDefinition.within_iff {d : EnumValueDefinition} :
    d.record.Within n ↔ (directivesRecord d.directives).Within n := by
  rw [record, within_plain rfl]
  simp

/-- A type definition is bounded by what bounds the parts of its body. -/
theorem TypeDefinition.within_iff {d : TypeDefinition} :
    d.record.Within n ↔ ∀ r ∈ d.body.records, r.Within n := by
  have hkind : n.more d.body.recordKind = n := by cases d.body <;> rfl
  rw [record, within_oneOf rfl, formRecord, within_plain hkind]
  simp

theorem SchemaDefinition.within (d : SchemaDefinition) : d.record.Within n := by
  have hroot (root : RootDefinition) : root.record.Within n := by
    rw [RootDefinition.record, within_plain rfl]
    simp
  rw [record, within_plain rfl]
  simp [hroot]

theorem Definition.within_operation {o : Operation} :
    (Definition.operation o).record.Within n ↔ o.record.Within n :=
  within_oneOf rfl

theorem Definition.within_fragment {f : Fragment} :
    (Definition.fragment f).record.Within n ↔ f.record.Within n :=
  within_oneOf rfl

theorem Definition.within_type {d : TypeDefinition} :
    (Definition.type d).record.Within n ↔ d.record.Within n :=
  within_oneOf rfl

theorem Definition.within_schema (d : SchemaDefinition) : (Definition.schema d).record.Within n :=
  (within_oneOf rfl).2 d.within

theorem Document.within_iff {d : Document} :
    d.record.Within n ↔ ∀ definition ∈ d.definitions, definition.record.Within n := by
  rw [record, within_plain rfl]
  simp

end SelectionCheck
