import SelectionCheck.Proofs.Document.Faults.Executable
import SelectionCheck.Proofs.Document.Leaves.Operand

/-!
# Where the leaves of operations and fragments stand

An alias stands before the name of its field, and a field whose name could not be read is given up
with its alias: so no name is kept of which the tokens are read again.
-/

namespace SelectionCheck

open Record

variable {ts : List Token} {first second third fourth fifth last : Nat}

/-! ## The nodes -/

theorem TypeCondition.placed {c : TypeCondition} (h : c.name.record.Placed ts first last) :
    c.record.Placed ts first last :=
  placed_node rfl rfl (.skip rfl (.cons h (.nil (Nat.le_refl _))))

theorem Selection.placed_field {aliasName : Option Name} {name : Name}
    {arguments : Option (Bracketed Argument)} {directives : List Directive}
    {selections : Option SelectionSet}
    (halias : (ofOption Name.record aliasName).Placed ts first second)
    (hname : name.record.Placed ts second third)
    (harguments : (argumentsRecord arguments).Placed ts third fourth)
    (hdirectives : (directivesRecord directives).Placed ts fourth fifth)
    (hset : (ofOption Selection.setRecord selections).Placed ts fifth last) :
    (Selection.field aliasName name arguments directives selections).record.Placed ts
      first last := by
  have hset? : (Selection.setRecord? selections).Placed ts fifth last := by
    cases selections <;> exact hset
  exact placed_oneOf rfl rfl (placed_node rfl rfl (.cons halias (.cons hname (.cons harguments
    (.cons hdirectives (.cons hset? (.nil (Nat.le_refl _))))))))

theorem Selection.placed_spread {ellipsis : Nat} {name : Name} {directives : List Directive}
    (hname : name.record.Placed ts first second)
    (hdirectives : (directivesRecord directives).Placed ts second last) :
    (Selection.spread ellipsis name directives).record.Placed ts first last :=
  placed_oneOf rfl rfl (placed_node rfl rfl
    (.skip rfl (.cons hname (.cons hdirectives (.nil (Nat.le_refl _))))))

theorem Selection.placed_inline {ellipsis : Nat} {condition : Option TypeCondition}
    {directives : List Directive} {selections : SelectionSet}
    (hcondition : (ofOption TypeCondition.record condition).Placed ts first second)
    (hdirectives : (directivesRecord directives).Placed ts second third)
    (hset : (Selection.setRecord selections).Placed ts third last) :
    (Selection.inline ellipsis condition directives selections).record.Placed ts first last :=
  placed_oneOf rfl rfl (placed_node rfl rfl
    (.skip rfl (.cons hcondition (.cons hdirectives (.cons hset (.nil (Nat.le_refl _)))))))

theorem VariableDefinition.placed {d : VariableDefinition}
    (hvar : d.var.record.Placed ts first second) (htype : d.type.record.Placed ts second third)
    (hdefault : (ofOption DefaultValue.record d.defaultValue).Placed ts third last) :
    d.record.Placed ts first last :=
  placed_node rfl rfl
    (.cons hvar (.skip rfl (.cons htype (.cons hdefault (.nil (Nat.le_refl _))))))

theorem Operation.placed {o : Operation}
    (hname : (ofOption Name.record o.name).Placed ts first second)
    (hparameters : (ofOption (ofBracketed .variableDefinitions VariableDefinition.record)
      o.parameters).Placed ts second third)
    (hdirectives : (directivesRecord o.directives).Placed ts third fourth)
    (hset : (Selection.setRecord o.selections).Placed ts fourth last) :
    o.record.Placed ts first last :=
  placed_node rfl rfl (.skip rfl (.skip rfl (.cons hname (.cons hparameters
    (.cons hdirectives (.cons hset (.nil (Nat.le_refl _))))))))

theorem Fragment.placed {f : Fragment} (hname : f.name.record.Placed ts first second)
    (hcondition : f.condition.record.Placed ts second third)
    (hdirectives : (directivesRecord f.directives).Placed ts third fourth)
    (hset : (Selection.setRecord f.selections).Placed ts fourth last) :
    f.record.Placed ts first last :=
  placed_node rfl rfl (.skip rfl (.cons hname (.cons hcondition
    (.cons hdirectives (.cons hset (.nil (Nat.le_refl _)))))))

namespace Grammar

variable {c c' : Cursor} {selections : Cursor → Reading (Option SelectionSet)}

/-! ## Selections -/

theorem typeCondition_placed {level : Nat} {condition : TypeCondition} (hc : c.On ts)
    (h : typeCondition level c = .ok (condition, c')) :
    condition.record.Placed ts c.behind c'.behind := by
  cases typeCondition_iff.1 h with
  | whole hahead _ hname =>
      have hpast := hc.past hahead
      obtain ⟨-, hplaced⟩ := name_placed hpast.on hname
      exact TypeCondition.placed (hplaced.mono hpast.le (Nat.le_refl _))

theorem inlineCondition_placed {level : Nat} {condition : Option TypeCondition} (hc : c.On ts)
    (h : inlineCondition level c = .ok (condition, c')) :
    (ofOption TypeCondition.record condition).Placed ts c.behind c'.behind := by
  cases inlineCondition_iff.1 h with
  | absent => exact placed_nothing (Nat.le_refl _)
  | whole _ _ hcondition => exact typeCondition_placed hc hcondition

theorem fragmentSpread_placed (level : Nat) (ellipsis : Token) {t : Token} {rest : List Token}
    (hc : c.On ts) (hahead : c.ahead = t :: rest) :
    (ofOption Selection.record (fragmentSpread level ellipsis rest c).value).Placed ts c.behind
      (fragmentSpread level ellipsis rest c).next.behind := by
  have hpast := hc.past hahead
  generalize hr : fragmentSpread level ellipsis rest c = r
  cases fragmentSpread_iff.1 hr with
  | tooDeep => exact placed_nothing (Nat.le_refl _)
  | noName => exact placed_nothing hpast.le
  | @whole level _ _ hname =>
      obtain ⟨hreaches, hplaced⟩ := name_placed hpast.on hname
      exact Selection.placed_spread (hplaced.mono hpast.le (Nat.le_refl _))
        (directives_places false level hreaches.on)

theorem fieldName_placed {aliasName : Option Name} {n : Name} (hc : c.On ts)
    (h : fieldName c = .ok ((aliasName, n), c')) :
    ∃ middle, (ofOption Name.record aliasName).Placed ts c.behind middle ∧
      n.record.Placed ts middle c'.behind := by
  cases fieldName_iff.1 h with
  | plain hname => exact ⟨c.behind, placed_nothing (Nat.le_refl _), (name_placed hc hname).2⟩
  | aliased hfirst hcolon hsecond =>
      obtain ⟨hreaches, hplaced⟩ := name_placed hc hfirst
      obtain ⟨hreaches', -⟩ := reaches_of_punctuator hreaches.on hcolon
      obtain ⟨-, hplaced'⟩ := name_placed hreaches'.on hsecond
      exact ⟨_, hplaced, hplaced'.mono hreaches'.le (Nat.le_refl _)⟩

theorem field_places (level : Nat)
    (hselections : Places (ofOption Selection.setRecord) selections) :
    Places (ofOption Selection.record) (field level selections) := by
  intro ts c hc
  generalize hr : field level selections c = r
  cases field_iff.1 hr with
  | noName hname => exact placed_nothing (at_of_fieldName hc hname).1.le
  | @whole aliasName n c₁ hname =>
      obtain ⟨middle, halias, hplaced⟩ := fieldName_placed hc hname
      have hnext := (reaches_of_fieldName hc hname).1.on
      generalize hrest : fieldRest level selections aliasName n c₁ = rest
      cases fieldRest_iff.1 hrest with
      | ended =>
          exact Selection.placed_field halias hplaced (placed_nothing (Nat.le_refl _))
            (placed_list (.nil (Nat.le_refl _))) (placed_nothing (Nat.le_refl _))
      | whole _ ha hd hs =>
          subst ha hd hs
          have harguments := whenNext_orderly (arguments_orderly false level) .lparen hnext
          have hdirectives := directives_orderly false level harguments.on
          exact Selection.placed_field halias hplaced
            (whenNext_places (arguments_places false level) .lparen hnext)
            (directives_places false level harguments.on)
            (whenNext_places hselections .lbrace hdirectives.on)

theorem inlineRest_placed (level : Nat) (horderly : Orderly selections)
    (hselections : Places (ofOption Selection.setRecord) selections) (ellipsis : Nat)
    {condition : Option TypeCondition} (hc : c.On ts)
    (hcondition : (ofOption TypeCondition.record condition).Placed ts first c.behind)
    (hfirst : first ≤ c.behind) :
    (ofOption Selection.record
      (inlineRest level selections ellipsis condition c).value).Placed ts first
      (inlineRest level selections ellipsis condition c).next.behind := by
  have hdirectives := directives_orderly false level hc
  have hle := Nat.le_trans hfirst hdirectives.reaches.le
  generalize hr : inlineRest level selections ellipsis condition c = r
  cases inlineRest_iff.1 hr with
  | noSet hd => exact placed_nothing (hd ▸ hle)
  | whole hd _ hs =>
      subst hd hs
      have hread := hselections hdirectives.on
      cases hvalue : (selections (directives false level c).next).value with
      | none => exact placed_nothing (Nat.le_trans hle (horderly hdirectives.on).reaches.le)
      | some set =>
          rw [hvalue] at hread
          exact Selection.placed_inline hcondition (directives_places false level hc) hread

structure SelectionsPlaced (level : Nat) : Prop where
  set : Places (ofOption Selection.setRecord) (selectionSet level)
  selection : Places (ofOption Selection.record) (Grammar.selection level)
  inline : ∀ ⦃ts : List Token⦄ ⦃c : Cursor⦄ (ellipsis : Token) {t : Token} {rest : List Token},
    c.On ts → c.ahead = t :: rest →
      (ofOption Selection.record (inlineFragment level ellipsis rest c).value).Placed ts c.behind
        (inlineFragment level ellipsis rest c).next.behind

theorem selectionSet_succ_places {level : Nat}
    (h : Places (ofOption Selection.record) (selection level)) :
    Places (ofOption Selection.setRecord) (selectionSet (level + 1)) := by
  have hrecord : Selection.setRecord = ofBracketed .selectionSet Selection.record :=
    funext Selection.setRecord_eq
  rw [hrecord]
  intro ts c hc
  rw [selectionSet]
  exact bracketed_places (selectionsOrderly level).selection h .lbrace .selection rfl hc

theorem selection_succ_places {level : Nat} (h : SelectionsPlaced level) :
    Places (ofOption Selection.record) (selection (level + 1)) := by
  intro ts c hc
  generalize hr : selection (level + 1) c = r
  cases selection_iff.1 hr with
  | field => exact field_places level h.set hc
  | ended hahead | noFragment hahead => exact placed_nothing (hc.past hahead).le
  | spread hahead => exact fragmentSpread_placed level _ hc hahead
  | inline hahead => exact h.inline _ hc hahead

theorem inlineFragment_succ_placed {level : Nat}
    (h : Places (ofOption Selection.setRecord) (selectionSet level)) (ellipsis : Token) {t : Token}
    {rest : List Token} (hc : c.On ts) (hahead : c.ahead = t :: rest) :
    (ofOption Selection.record (inlineFragment (level + 1) ellipsis rest c).value).Placed ts
      c.behind (inlineFragment (level + 1) ellipsis rest c).next.behind := by
  have hpast := hc.past hahead
  generalize hr : inlineFragment (level + 1) ellipsis rest c = r
  cases inlineFragment_iff.1 hr with
  | noCondition hcondition =>
      exact placed_nothing (hpast.trans (at_of_inlineCondition hpast.on hcondition).1).le
  | whole hcondition =>
      have hreaches := reaches_of_inlineCondition hpast.on hcondition
      exact inlineRest_placed level (selectionSet_orderly level) h _ hreaches.on
        ((inlineCondition_placed hpast.on hcondition).mono hpast.le (Nat.le_refl _))
        (hpast.trans hreaches).le

theorem selectionsPlaced (level : Nat) : SelectionsPlaced level := by
  induction level with
  | zero =>
      refine ⟨?_, ?_, ?_⟩ <;> intro ts c
      · intro hc; rw [selectionSet]; exact placed_nothing (Nat.le_refl _)
      · intro hc; rw [selection]; exact placed_nothing (Nat.le_refl _)
      · intro ellipsis t rest hc hahead; rw [inlineFragment]; exact placed_nothing (Nat.le_refl _)
  | succ level ih =>
      exact ⟨selectionSet_succ_places ih.selection, selection_succ_places ih,
        fun _ _ ellipsis _ _ hc hahead => inlineFragment_succ_placed ih.set ellipsis hc hahead⟩

theorem selectionSet_places (level : Nat) :
    Places (ofOption Selection.setRecord) (selectionSet level) :=
  (selectionsPlaced level).set

/-! ## Operations and fragments -/

/-- A type and the default value behind it. -/
theorem DefaultedCases.placed {α : Type} {level : Nat} {make : TypeRef → Option DefaultValue → α}
    {r : Reading (Option α)} (hc : c.On ts) (h : DefaultedCases level c make r) :
    ∃ t d middle, r.value = some (make t d) ∧ t.record.Placed ts c.behind middle ∧
      (ofOption DefaultValue.record d).Placed ts middle r.next.behind := by
  have hplaced := typeRef_places level hc
  cases h with
  | badType ht => exact ⟨_, none, _, rfl, ht ▸ hplaced, placed_nothing (Nat.le_refl _)⟩
  | whole ht =>
      subst ht
      exact ⟨_, _, _, rfl, hplaced, defaultValue_places level (typeRef_orderly level hc).on⟩

theorem variableDefinition_places (level : Nat) :
    Places (ofOption VariableDefinition.record) (variableDefinition level) := by
  intro ts c hc
  generalize hr : variableDefinition level c = r
  cases variableDefinition_iff.1 hr with
  | tooDeep => exact placed_nothing (Nat.le_refl _)
  | noVariable hvariable => exact placed_nothing (at_of_variableRef hc hvariable).1.le
  | noColon hvariable =>
      exact VariableDefinition.placed (variableRef_placed hc hvariable).2
        (TypeRef.placed_missing (Nat.le_refl _)) (placed_nothing (Nat.le_refl _))
  | typed hvariable hcolon htype =>
      obtain ⟨hreaches, hplaced⟩ := variableRef_placed hc hvariable
      obtain ⟨hreaches', -⟩ := reaches_of_punctuator hreaches.on hcolon
      obtain ⟨t, d, middle, hvalue, ht, hd⟩ := htype.placed hreaches'.on
      rw [hvalue]
      exact VariableDefinition.placed hplaced (ht.mono hreaches'.le (Nat.le_refl _)) hd

theorem variableDefinitions_places (level : Nat) :
    Places (ofOption (ofBracketed .variableDefinitions VariableDefinition.record))
      (variableDefinitions level) :=
  nonEmpty_places variableDefinition_orderly variableDefinition_places _ _ _ rfl level

theorem operationRest_placed (level start : Nat) (type : OperationType) {n : Option Name}
    (hc : c.On ts) (hn : (ofOption Name.record n).Placed ts first c.behind)
    (hfirst : first ≤ c.behind) :
    (ofOption Operation.record (operationRest level start type n c).value).Placed ts first
      (operationRest level start type n c).next.behind := by
  have hvariables := whenNext_orderly (variableDefinitions_orderly level) .lparen hc
  have hdirectives := directives_orderly false level hvariables.on
  have hset := selectionSet_orderly level hdirectives.on
  have hread := selectionSet_places level hdirectives.on
  have hle := Nat.le_trans hvariables.reaches.le
    (Nat.le_trans hdirectives.reaches.le hset.reaches.le)
  rw [operationRest]
  dsimp only
  cases hvalue : (selectionSet level (directives false level
      (whenNext .lparen (variableDefinitions level) c).next).next).value with
  | none => exact placed_nothing (Nat.le_trans hfirst hle)
  | some set =>
      rw [hvalue] at hread
      exact Operation.placed hn
        (whenNext_places (variableDefinitions_places level) .lparen hc)
        (directives_places false level hvariables.on) hread

theorem operation_places (level start : Nat) (type : OperationType) :
    Places (ofOption Operation.record) (operation level start type) := by
  intro ts c hc
  generalize hr : operation level start type c = r
  cases operation_iff.1 hr with
  | ended => exact placed_nothing (Nat.le_refl _)
  | noBody hahead => exact placed_nothing (hc.past hahead).le
  | named hahead hkind =>
      have hpast := hc.past hahead
      exact operationRest_placed level start type hpast.on (placed_of_isName hc hahead hkind)
        hpast.le
  | anonymous =>
      exact operationRest_placed level start type hc (placed_nothing (Nat.le_refl _))
        (Nat.le_refl _)

theorem shorthandQuery_places (level start : Nat) :
    Places (ofOption Operation.record) (shorthandQuery level start) := by
  intro ts c hc
  have hread := selectionSet_places level hc
  have hle := (selectionSet_orderly level hc).reaches.le
  rw [shorthandQuery, Reading.map, Reading.within]
  cases hvalue : (selectionSet level c).value with
  | none => exact placed_nothing hle
  | some set =>
      rw [hvalue] at hread
      exact Operation.placed (placed_nothing (Nat.le_refl _)) (placed_nothing (Nat.le_refl _))
        (placed_list (.nil (Nat.le_refl _))) hread

theorem fragmentDefinition_places (level keyword : Nat) :
    Places (ofOption Fragment.record) (fragmentDefinition level keyword) := by
  intro ts c hc
  generalize hr : fragmentDefinition level keyword c = r
  cases fragmentDefinition_iff.1 hr with
  | noName => exact placed_nothing (Nat.le_refl _)
  | namedOn hname => exact placed_nothing (reaches_of_name hc hname).1.le
  | noCondition hname _ hcondition =>
      obtain ⟨hreaches, -⟩ := reaches_of_name hc hname
      exact placed_nothing (hreaches.trans (at_of_typeCondition hreaches.on hcondition).1).le
  | @whole n condition c₁ c₂ d s hname _ hcondition hd hs =>
      subst hd hs
      obtain ⟨hreaches, hplaced⟩ := name_placed hc hname
      have hreaches' := reaches_of_typeCondition hreaches.on hcondition
      have hdirectives := directives_orderly false level hreaches'.on
      have hread := selectionSet_places level hdirectives.on
      have hset := selectionSet_orderly level hdirectives.on
      cases hvalue : (selectionSet level (directives false level c₂).next).value with
      | none =>
          exact placed_nothing
            ((hreaches.trans hreaches').trans (hdirectives.reaches.trans hset.reaches)).le
      | some set =>
          rw [hvalue] at hread
          exact Fragment.placed hplaced (typeCondition_placed hreaches.on hcondition)
            (directives_places false level hreaches'.on) hread

end Grammar

end SelectionCheck
