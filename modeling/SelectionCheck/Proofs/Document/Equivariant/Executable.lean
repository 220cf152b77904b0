import SelectionCheck.Proofs.Document.Cases.Executable
import SelectionCheck.Proofs.Document.Equivariant.Operand

/-!
# Operations and fragments hand offsets on

A selection set, a selection and an inline fragment are read by readers that call each other at the
next lower level; the readers of a field and of the rest of an inline fragment are given the reader
of selection sets, and hand offsets on if it does.
-/

namespace SelectionCheck.Grammar

open Placed (relocate)

variable (f : Nat → Nat)

/-! ## Selections -/

theorem typeCondition_equivariant (level : Nat) : Equivariant (typeCondition level) := by
  intro f c
  generalize hr : typeCondition level c = r
  cases typeCondition_iff.1 hr with
  | ended hahead =>
      rw [typeCondition_iff.2 (.ended (List.map_eq_nil_iff.2 hahead)), Cursor.head?_relocate]
      rfl
  | tooDeep hahead => exact typeCondition_iff.2 (.tooDeep (mt List.map_eq_nil_iff.1 hahead))
  | noWord hahead hword =>
      rw [typeCondition_iff.2 (.noWord (Cursor.ahead_relocate_of_cons f hahead) hword),
        Cursor.head?_relocate]
      rfl
  | noName hahead hword hname =>
      exact typeCondition_iff.2
        (.noName (Cursor.ahead_relocate_of_cons f hahead) hword (name_relocate f hname))
  | whole hahead hword hname =>
      exact typeCondition_iff.2
        (.whole (Cursor.ahead_relocate_of_cons f hahead) hword (name_relocate f hname))

theorem fragmentSpread_relocate (level : Nat) (ellipsis : Token) (rest : List Token) (c : Cursor) :
    fragmentSpread level (relocate f ellipsis) (relocate f rest) (relocate f c) =
      relocate f (fragmentSpread level ellipsis rest c) := by
  generalize hr : fragmentSpread level ellipsis rest c = r
  cases fragmentSpread_iff.1 hr with
  | tooDeep => rfl
  | noName hname =>
      exact fragmentSpread_iff.2 (.noName (c.relocate_past f rest ▸ name_relocate f hname))
  | @whole level n c₁ hname =>
      have hdirectives := (directives_equivariant false level).within
        (.named .fragmentSpread n.value) f c₁
      rw [fragmentSpread_iff.2 (.whole (c.relocate_past f rest ▸ name_relocate f hname))]
      exact Reading.map_relocate f hdirectives fun _ => rfl

theorem inlineCondition_equivariant (level : Nat) : Equivariant (inlineCondition level) := by
  intro f c
  generalize hr : inlineCondition level c = r
  rw [inlineCondition_iff]
  cases inlineCondition_iff.1 hr with
  | absent hword => exact .absent (Cursor.forall_head?_relocate f (fun _ ht => ht) hword)
  | noCondition hahead hword hcondition =>
      exact .noCondition (Cursor.ahead_relocate_of_cons f hahead) hword
        ((typeCondition_equivariant level).eq f hcondition)
  | whole hahead hword hcondition =>
      exact .whole (Cursor.ahead_relocate_of_cons f hahead) hword
        ((typeCondition_equivariant level).eq f hcondition)

theorem fieldName_equivariant : Equivariant fieldName := by
  intro f c
  generalize hr : fieldName c = r
  rw [fieldName_iff]
  cases fieldName_iff.1 hr with
  | noName hname => exact .noName (name_relocate f hname)
  | plain hname hcolon => exact .plain (name_relocate f hname) (punctuator_relocate f hcolon)
  | onlyAlias hfirst hcolon hsecond =>
      exact .onlyAlias (name_relocate f hfirst) (punctuator_relocate f hcolon)
        (name_relocate f hsecond)
  | aliased hfirst hcolon hsecond =>
      exact .aliased (name_relocate f hfirst) (punctuator_relocate f hcolon)
        (name_relocate f hsecond)

section Nested

variable {selections : Cursor → Reading (Option SelectionSet)}

theorem fieldRest_relocate (level : Nat) (h : Equivariant selections) (aliasName : Option Name)
    (name : Name) (c : Cursor) :
    fieldRest level selections (relocate f aliasName) (relocate f name) (relocate f c) =
      relocate f (fieldRest level selections aliasName name c) := by
  generalize hr : fieldRest level selections aliasName name c = r
  cases fieldRest_iff.1 hr with
  | ended hahead => exact fieldRest_iff.2 (.ended (List.map_eq_nil_iff.2 hahead))
  | whole hahead ha hd hs =>
      rw [fieldRest_iff.2 (.whole (mt List.map_eq_nil_iff.1 hahead)
        ((whenNext_equivariant _ (arguments_equivariant false level)).eq f ha)
        ((directives_equivariant false level).eq f hd) ((whenNext_equivariant _ h).eq f hs))]
      simp

theorem field_equivariant (level : Nat) (h : Equivariant selections) :
    Equivariant (field level selections) := by
  intro f c
  generalize hr : field level selections c = r
  cases field_iff.1 hr with
  | noName hname => exact field_iff.2 (.noName (fieldName_equivariant.eq f hname))
  | whole hname =>
      rw [field_iff.2 (.whole (fieldName_equivariant.eq f hname))]
      exact fieldRest_relocate f level h _ _ _

theorem inlineRest_relocate (level : Nat) (h : Equivariant selections) (ellipsis : Nat)
    (condition : Option TypeCondition) (c : Cursor) :
    inlineRest level selections (f ellipsis) (relocate f condition) (relocate f c) =
      relocate f (inlineRest level selections ellipsis condition c) := by
  generalize hr : inlineRest level selections ellipsis condition c = r
  cases inlineRest_iff.1 hr with
  | noSet hd hahead hkind =>
      rw [inlineRest_iff.2 (.noSet ((directives_equivariant false level).eq f hd)
        (Cursor.ahead_relocate_of_cons f hahead) hkind)]
      simp
  | @whole d s hd hkind hs =>
      have hkind' := Cursor.forall_head?_relocate f (fun _ ht => ht) hkind
      rw [inlineRest_iff.2
        (.whole ((directives_equivariant false level).eq f hd) hkind' (h.eq f hs))]
      obtain ⟨set, faults, next⟩ := s
      cases set <;> simp

end Nested

theorem selections_equivariant (level : Nat) :
    Equivariant (selectionSet level) ∧ Equivariant (selection level) ∧
      ∀ f ellipsis rest c,
        inlineFragment level (relocate f ellipsis) (relocate f rest) (relocate f c) =
          relocate f (inlineFragment level ellipsis rest c) := by
  induction level with
  | zero => exact ⟨fun _ _ => rfl, fun _ _ => rfl, fun _ _ _ _ => rfl⟩
  | succ level ih =>
      obtain ⟨hset, hselection, hinline⟩ := ih
      refine ⟨fun f c => ?_, fun f c => ?_, fun f ellipsis rest c => ?_⟩
      · have hbracketed := bracketed_equivariant .lbrace .rbrace .selection hselection
        exact hbracketed.within (.rule .selectionSet) f c
      · generalize hr : selection (level + 1) c = r
        cases selection_iff.1 hr with
        | field hkind =>
            rw [selection_iff.2 (.field (Cursor.kind?_relocate f c ▸ hkind))]
            exact field_equivariant level hset f c
        | ended hahead hkind =>
            exact selection_iff.2 (.ended (Cursor.ahead_relocate_of_cons f hahead) hkind)
        | noFragment hahead hkind hname hlbrace hatSign =>
            exact selection_iff.2 (.noFragment (Cursor.ahead_relocate_of_cons f hahead) hkind hname
              hlbrace hatSign)
        | @spread _ t next rest hahead hkind hname hword =>
            rw [selection_iff.2
              (.spread (Cursor.ahead_relocate_of_cons f hahead) hkind hname hword)]
            exact fragmentSpread_relocate f level t (next :: rest) c
        | @inline _ t next rest hahead hkind hstart =>
            rw [selection_iff.2 (.inline (Cursor.ahead_relocate_of_cons f hahead) hkind hstart)]
            exact hinline f t (next :: rest) c
      · generalize hr : inlineFragment (level + 1) ellipsis rest c = r
        cases inlineFragment_iff.1 hr with
        | noCondition hcondition =>
            have hcondition' := (inlineCondition_equivariant level).eq f hcondition
            exact inlineFragment_iff.2 (.noCondition (c.relocate_past f rest ▸ hcondition'))
        | whole hcondition =>
            have hcondition' := (inlineCondition_equivariant level).eq f hcondition
            rw [inlineFragment_iff.2 (.whole (c.relocate_past f rest ▸ hcondition'))]
            exact inlineRest_relocate f level hset _ _ _

theorem selectionSet_equivariant (level : Nat) : Equivariant (selectionSet level) :=
  (selections_equivariant level).1

/-! ## Operations -/

theorem DefaultedCases.relocate_eq {α : Type} [Placed α] {level : Nat} {c : Cursor}
    {make make' : TypeRef → Option DefaultValue → α} {r : Reading (Option α)}
    (hmake : ∀ t d, make' (relocate f t) (relocate f d) = relocate f (make t d))
    (h : DefaultedCases level c make r) :
    DefaultedCases level (relocate f c) make' (relocate f r) := by
  cases h with
  | badType ht hne =>
      have hbad : DefaultedCases level (relocate f c) make' _ :=
        .badType ((typeRef_equivariant level).eq f ht) (mt List.map_eq_nil_iff.1 hne)
      rwa [Reading.value_relocate, ← relocate_none f, hmake] at hbad
  | @whole t ht hnil =>
      have hwhole : DefaultedCases level (relocate f c) make' _ :=
        .whole ((typeRef_equivariant level).eq f ht) (List.map_eq_nil_iff.2 hnil)
      have hdefault : (defaultValue level (relocate f t.next)).map
          (fun d => some (make' (relocate f t.value) d)) =
            relocate f ((defaultValue level t.next).map fun d => some (make t.value d)) :=
        Reading.map_relocate f (defaultValue_equivariant level f t.next) fun d =>
          congrArg some (hmake t.value d)
      exact hdefault ▸ hwhole

theorem variableDefinition_equivariant (level : Nat) : Equivariant (variableDefinition level) := by
  intro f c
  generalize hr : variableDefinition level c = r
  cases variableDefinition_iff.1 hr with
  | tooDeep => rfl
  | noVariable hvariable =>
      exact variableDefinition_iff.2 (.noVariable (variableRef_equivariant.eq f hvariable))
  | noColon hvariable hcolon =>
      exact variableDefinition_iff.2
        (.noColon (variableRef_equivariant.eq f hvariable) (punctuator_relocate f hcolon))
  | typed hvariable hcolon htype =>
      exact variableDefinition_iff.2 (.typed (variableRef_equivariant.eq f hvariable)
        (punctuator_relocate f hcolon) (htype.relocate_eq f fun _ _ => rfl))

theorem variableDefinitions_equivariant (level : Nat) : Equivariant (variableDefinitions level) :=
  nonEmpty_equivariant _ _ _ _ variableDefinition_equivariant level

theorem operationContext_relocate (name : Option Name) :
    operationContext (relocate f name) = operationContext name := by
  cases name <;> rfl

theorem operationRest_relocate (level start : Nat) (type : OperationType) (name : Option Name)
    (c : Cursor) :
    operationRest level (f start) type (relocate f name) (relocate f c) =
      relocate f (operationRest level start type name c) := by
  have hvariables := whenNext_equivariant .lparen (variableDefinitions_equivariant level)
  simp only [operationRest, hvariables f _, directives_equivariant false level f _,
    selectionSet_equivariant level f _, Reading.next_relocate, operationContext_relocate]
  generalize selectionSet level _ = s
  obtain ⟨set, faults, next⟩ := s
  cases set <;> simp

theorem operation_relocate (level start : Nat) (type : OperationType) (c : Cursor) :
    operation level (f start) type (relocate f c) = relocate f (operation level start type c) := by
  generalize hr : operation level start type c = r
  cases operation_iff.1 hr with
  | ended hahead =>
      rw [operation_iff.2 (.ended (List.map_eq_nil_iff.2 hahead)), Cursor.head?_relocate]
      rfl
  | noBody hahead hkind =>
      exact operation_iff.2 (.noBody (Cursor.ahead_relocate_of_cons f hahead) hkind)
  | @named t next rest hahead hkind =>
      rw [operation_iff.2 (.named (Cursor.ahead_relocate_of_cons f hahead) hkind)]
      exact operationRest_relocate f level start type (some ⟨t.text, t.start⟩)
        (c.past (next :: rest))
  | anonymous hahead hkind =>
      rw [operation_iff.2 (.anonymous (Cursor.ahead_relocate_of_cons f hahead) hkind)]
      exact operationRest_relocate f level start type none c

theorem shorthandQuery_relocate (level start : Nat) (c : Cursor) :
    shorthandQuery level (f start) (relocate f c) = relocate f (shorthandQuery level start c) := by
  have hset := (selectionSet_equivariant level).within (.rule .operation) f c
  refine Reading.map_relocate f hset fun set => ?_
  cases set <;> rfl

/-! ## Fragments -/

theorem fragmentDefinition_relocate (level keyword : Nat) (c : Cursor) :
    fragmentDefinition level (f keyword) (relocate f c) =
      relocate f (fragmentDefinition level keyword c) := by
  generalize hr : fragmentDefinition level keyword c = r
  cases fragmentDefinition_iff.1 hr with
  | noName hname => exact fragmentDefinition_iff.2 (.noName (name_relocate f hname))
  | namedOn hname hon => exact fragmentDefinition_iff.2 (.namedOn (name_relocate f hname) hon)
  | noCondition hname hon hcondition =>
      exact fragmentDefinition_iff.2 (.noCondition (name_relocate f hname) hon
        ((typeCondition_equivariant level).eq f hcondition))
  | @whole n condition c₁ c₂ d s hname hon hcondition hd hs =>
      rw [fragmentDefinition_iff.2 (.whole (name_relocate f hname) hon
        ((typeCondition_equivariant level).eq f hcondition)
        ((directives_equivariant false level).eq f hd)
        ((selectionSet_equivariant level).eq f hs))]
      obtain ⟨set, faults, next⟩ := s
      cases set <;> simp

end SelectionCheck.Grammar
