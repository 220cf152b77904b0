import SelectionCheck.Proofs.Document.Holes

/-!
# Nodes that take exactly one form

A definition, a type definition and a selection have a part for every form that they may take. The
main statement is that in the record of a document exactly one of these parts is there, whether the
document has faults or not. Values and type references are different: beyond the nesting limit they
may take no form at all.
-/

namespace SelectionCheck

variable {α : Type}

/-- The kinds of node that must take one of several forms, even in a document with faults. -/
@[simp]
def RecordKind.isChoice (kind : RecordKind) : Bool :=
  kind ∈ [.definition, .typeDefinition, .selection]

namespace Record

def OneForm : Record → Prop
  | .node kind parts => kind.isChoice = true → parts.countP (fun r => !r.isNothing) = 1
  | _ => True

/-- Every node in the record takes exactly one form if it must take one. -/
def OneFormed (r : Record) : Prop :=
  ∀ s ∈ r.nodes, s.OneForm

variable {kind : RecordKind} {parts : List Record}

theorem oneFormed_node :
    (node kind parts).OneFormed ↔ (node kind parts).OneForm ∧ ∀ r ∈ parts, r.OneFormed :=
  forall_mem_nodes_node

@[simp]
theorem oneFormed_plain (hkind : kind.isChoice = false) :
    (node kind parts).OneFormed ↔ ∀ r ∈ parts, r.OneFormed := by
  simp only [oneFormed_node, OneForm, hkind, Bool.false_eq_true, false_imp_iff, true_and]

@[simp]
theorem oneFormed_list {elements : List Record} :
    (list elements).OneFormed ↔ ∀ r ∈ elements, r.OneFormed :=
  forall_mem_nodes_list

@[simp]
theorem oneFormed_offset {start : Option Nat} : (offset start).OneFormed := by
  simp [OneFormed, nodes]

@[simp]
theorem oneFormed_text {value : Text} : (text value).OneFormed := by
  simp [OneFormed, nodes]

@[simp]
theorem oneFormed_operationType {type : OperationType} : (operationType type).OneFormed := by
  simp [OneFormed, nodes]

@[simp]
theorem oneFormed_scalarKind {scalar : ScalarKind} : (scalarKind scalar).OneFormed := by
  simp [OneFormed, nodes]

@[simp]
theorem oneFormed_nothing : nothing.OneFormed := by
  simp [OneFormed, nodes]

@[simp]
theorem oneFormed_ofOption {record : α → Record} {o : Option α} :
    (ofOption record o).OneFormed ↔ ∀ a ∈ o, (record a).OneFormed := by
  cases o <;> simp [ofOption]

@[simp]
theorem oneFormed_ofSlot {slot : Slot} : (ofSlot slot).OneFormed := by
  cases slot <;> simp [ofSlot]

@[simp]
theorem oneFormed_ofBracketed {record : α → Record} {b : Bracketed α}
    (hkind : kind.isChoice = false) :
    (ofBracketed kind record b).OneFormed ↔ ∀ a ∈ b.items, (record a).OneFormed := by
  rw [ofBracketed, oneFormed_plain hkind]
  simp

theorem OneFormed.oneOf {before after : Nat} {r : Record} (hr : r.OneFormed)
    (hthere : r.isNothing = false) : (oneOf kind before r after).OneFormed := by
  rw [Record.oneOf, oneFormed_node]
  refine ⟨fun _ => ?_, fun s hs => ?_⟩
  · have hnothing : nothing.isNothing = true := rfl
    simp [List.countP_append, List.countP_replicate, hthere, hnothing]
  · rcases List.mem_append.1 hs with hs | hs
    · rw [List.eq_of_mem_replicate hs]
      exact oneFormed_nothing
    · rcases List.mem_cons.1 hs with rfl | hs
      · exact hr
      · rw [List.eq_of_mem_replicate hs]
        exact oneFormed_nothing

end Record

open Record

/-! ## Values, types and directives -/

@[simp]
theorem Name.oneFormed (n : Name) : n.record.OneFormed := by
  simp [Name.record]

theorem Variable.oneFormed (v : Variable) : v.record.OneFormed := by
  simp [Variable.record]

mutual

theorem Value.oneFormed : (v : Value) → v.record.OneFormed
  | .null name => .oneOf name.oneFormed rfl
  | .scalar _ _ _ => .oneOf (by simp) rfl
  | .var reference => .oneOf reference.oneFormed rfl
  | .list ⟨_, values, _⟩ => by
      rw [Value.record_list]
      exact .oneOf ((oneFormed_ofBracketed rfl).2 (Value.list_oneFormed values)) rfl
  | .object ⟨_, fields, _⟩ => by
      rw [Value.record_object]
      exact .oneOf ((oneFormed_ofBracketed rfl).2 (Value.fields_oneFormed fields)) rfl
  | .tooDeep => (oneFormed_plain rfl).2 (by simp)
  | .missing => oneFormed_nothing

theorem Value.list_oneFormed : (values : List Value) → ∀ v ∈ values, v.record.OneFormed
  | [] => by simp
  | v :: vs => List.forall_mem_cons.2 ⟨v.oneFormed, Value.list_oneFormed vs⟩

theorem Value.fields_oneFormed : (fields : List ObjectField) → ∀ f ∈ fields, f.record.OneFormed
  | [] => by simp
  | ⟨_, _, value⟩ :: fs =>
      List.forall_mem_cons.2 ⟨by simp [ObjectField.record, value.oneFormed],
        Value.fields_oneFormed fs⟩

end

@[simp]
theorem DefaultValue.oneFormed (d : DefaultValue) : d.record.OneFormed := by
  simp [DefaultValue.record, d.value.oneFormed]

theorem Argument.oneFormed (a : Argument) : a.record.OneFormed := by
  simp [Argument.record, a.value.oneFormed]

@[simp]
theorem oneFormed_arguments (arguments : Option (Bracketed Argument)) :
    (argumentsRecord arguments).OneFormed := by
  simp [argumentsRecord, Argument.oneFormed]

theorem Directive.oneFormed (d : Directive) : d.record.OneFormed := by
  simp [Directive.record]

@[simp]
theorem oneFormed_directives (directives : List Directive) :
    (directivesRecord directives).OneFormed := by
  simp [directivesRecord, Directive.oneFormed]

@[simp]
theorem TypeRef.oneFormed (t : TypeRef) : t.record.OneFormed := by
  induction t with
  | named name bang => cases bang <;> exact .oneOf (by simp) rfl
  | list opening element closing bang ih => cases bang <;> exact .oneOf (by simp [ih]) rfl
  | missing => exact oneFormed_nothing

/-! ## Operations and fragments -/

@[simp]
theorem TypeCondition.oneFormed (c : TypeCondition) : c.record.OneFormed := by
  simp [TypeCondition.record]

theorem oneFormed_set {opening : Nat} {selections : List Selection} {closing : Option Nat}
    (h : ∀ s ∈ selections, s.record.OneFormed) :
    (Selection.setRecord ⟨opening, selections, closing⟩).OneFormed := by
  rw [Selection.setRecord_eq]
  exact (oneFormed_ofBracketed rfl).2 h

mutual

theorem Selection.oneFormed : (s : Selection) → s.record.OneFormed
  | .field _ _ _ _ none => .oneOf (by simp [Selection.setRecord?]) rfl
  | .field _ _ _ _ (some ⟨_, selections, _⟩) =>
      .oneOf (by
        simp [Selection.setRecord?, oneFormed_set (Selection.list_oneFormed selections)]) rfl
  | .spread _ _ _ => .oneOf (by simp) rfl
  | .inline _ _ _ ⟨_, selections, _⟩ =>
      .oneOf (by simp [oneFormed_set (Selection.list_oneFormed selections)]) rfl

theorem Selection.list_oneFormed :
    (selections : List Selection) → ∀ s ∈ selections, s.record.OneFormed
  | [] => by simp
  | s :: ss => List.forall_mem_cons.2 ⟨s.oneFormed, Selection.list_oneFormed ss⟩

end

@[simp]
theorem oneFormed_setRecord (set : SelectionSet) : (Selection.setRecord set).OneFormed :=
  oneFormed_set (Selection.list_oneFormed set.items)

theorem VariableDefinition.oneFormed (d : VariableDefinition) : d.record.OneFormed := by
  simp [VariableDefinition.record, d.var.oneFormed]

theorem Operation.oneFormed (o : Operation) : o.record.OneFormed := by
  simp [Operation.record, VariableDefinition.oneFormed]

theorem Fragment.oneFormed (f : Fragment) : f.record.OneFormed := by
  simp [Fragment.record]

/-! ## Type definitions -/

@[simp]
theorem Description.oneFormed (d : Description) : d.record.OneFormed := by
  simp [Description.record]

@[simp]
theorem InputValueDefinition.oneFormed (d : InputValueDefinition) : d.record.OneFormed := by
  simp [InputValueDefinition.record]

@[simp]
theorem FieldDefinition.oneFormed (d : FieldDefinition) : d.record.OneFormed := by
  simp [FieldDefinition.record]

@[simp]
theorem EnumValueDefinition.oneFormed (d : EnumValueDefinition) : d.record.OneFormed := by
  simp [EnumValueDefinition.record]

theorem TypeBody.oneFormed (body : TypeBody) : ∀ r ∈ body.records, r.OneFormed := by
  cases body <;> simp [records]

theorem TypeDefinition.oneFormed (d : TypeDefinition) : d.record.OneFormed := by
  refine .oneOf ((oneFormed_plain ?_).2 ?_) rfl
  · cases d.body <;> rfl
  · simpa [or_imp, forall_and] using d.body.oneFormed

theorem RootDefinition.oneFormed (d : RootDefinition) : d.record.OneFormed := by
  simp [RootDefinition.record]

theorem SchemaDefinition.oneFormed (d : SchemaDefinition) : d.record.OneFormed := by
  simp [SchemaDefinition.record, RootDefinition.oneFormed]

/-! ## Documents -/

theorem Definition.oneFormed : (d : Definition) → d.record.OneFormed
  | .operation o => .oneOf o.oneFormed rfl
  | .fragment f => .oneOf f.oneFormed rfl
  | .type d => .oneOf d.oneFormed rfl
  | .schema d => .oneOf d.oneFormed rfl

theorem Document.oneFormed (d : Document) : d.record.OneFormed := by
  simp [Document.record, Definition.oneFormed]

end SelectionCheck
