import SelectionCheck.Proofs.Document.Cases.Executable
import SelectionCheck.Proofs.Document.Reads.Operand

/-!
# What the readers of operations and fragments take

A selection set, a selection and an inline fragment contain each other, one level further in each
time, so the three statements about them are proved together by induction on the level.

An operation is written in shorthand if it begins where its selection set begins. A keyword and
the brace after it are two tokens, so they have two offsets, and an operation with a keyword is
never taken for shorthand.
-/

namespace SelectionCheck

variable {c c' : Cursor}

theorem Takes.word {t : Token} {rest : List Token} {word : Text} (hahead : c.ahead = t :: rest)
    (ht : t.isWord word = true) : Takes [.lexeme .name word t.start] c (c.past rest) := by
  obtain ⟨hkind, htext⟩ := Token.isWord_iff.1 ht
  rw [← hkind]
  exact .lexeme hahead htext

theorem Takes.ellipsis {t : Token} {rest : List Token} (hahead : c.ahead = t :: rest)
    (ht : t.kind = .ellipsis) : Takes [.mark .ellipsis (some t.start)] c (c.past rest) :=
  Grammar.takes_of_mark (Grammar.punctuator_of_kind hahead ht)

namespace Grammar

/-! ## Selections -/

structure SelectionsSound (level : Nat) : Prop where
  set : Sound (selectionSet level) SelectionSet.pieces
  selection : Sound (Grammar.selection level) Selection.pieces
  inline : ∀ (ellipsis : Token) (rest : List Token) (c : Cursor), c.ahead = ellipsis :: rest →
    ellipsis.kind = .ellipsis → (inlineFragment level ellipsis rest c).faults = [] →
    ∃ s, (inlineFragment level ellipsis rest c).value = some s ∧
      Takes s.pieces c (inlineFragment level ellipsis rest c).next

theorem takes_of_typeCondition {level : Nat} {condition : TypeCondition}
    (h : typeCondition level c = .ok (condition, c')) : Takes condition.pieces c c' := by
  cases typeCondition_iff.1 h with
  | whole hahead hword hname => exact (Takes.word hahead hword).trans (takes_of_name hname).1

theorem fragmentSpread_takes {level : Nat} {ellipsis : Token} {rest : List Token}
    (hahead : c.ahead = ellipsis :: rest) (hkind : ellipsis.kind = .ellipsis)
    (hfaults : (fragmentSpread level ellipsis rest c).faults = []) :
    ∃ s, (fragmentSpread level ellipsis rest c).value = some s ∧
      Takes s.pieces c (fragmentSpread level ellipsis rest c).next := by
  generalize hr : fragmentSpread level ellipsis rest c = r at hfaults ⊢
  cases fragmentSpread_iff.1 hr with
  | @whole level n c₁ hname =>
      refine ⟨.spread ellipsis.start n (directives false level c₁).value, rfl, ?_⟩
      have hdirectives := directives_reads ((Reading.faults_within _ _).1 hfaults)
      exact (Takes.ellipsis hahead hkind).trans ((takes_of_name hname).trans hdirectives).1
  | _ => cases hfaults

theorem reads_of_inlineCondition {level : Nat} {condition : Option TypeCondition}
    (h : inlineCondition level c = .ok (condition, c')) :
    Reads (condition.elim [] TypeCondition.pieces) c c' := by
  cases inlineCondition_iff.1 h with
  | absent => exact Reads.refl c
  | whole _ _ hcondition => exact (takes_of_typeCondition hcondition).1

theorem takes_of_fieldName {aliasName : Option Name} {n : Name}
    (h : fieldName c = .ok ((aliasName, n), c')) :
    Takes (aliasPieces aliasName ++ [n.piece]) c c' := by
  cases fieldName_iff.1 h with
  | plain hname => exact takes_of_name hname
  | @aliased first _ colon c₁ c₂ _ hfirst hcolon hsecond =>
      have hseparator : Takes [.separator .colon] c₁ c₂ :=
        takes_of_punctuator hcolon rfl rfl trivial (by decide)
      exact (takes_of_name hfirst).trans (hseparator.trans (takes_of_name hsecond).1).1

section Selections

variable {level : Nat} {selections : Cursor → Reading (Option SelectionSet)}

theorem fieldRest_reads (hselections : Sound selections SelectionSet.pieces)
    {aliasName : Option Name} {n : Name}
    (hfaults : (fieldRest level selections aliasName n c).faults = []) :
    ∃ arguments directives set,
      (fieldRest level selections aliasName n c).value =
        some (.field aliasName n arguments directives set) ∧
      Reads (argumentPieces arguments ++
          (directives.flatMap Directive.pieces ++ set.elim [] SelectionSet.pieces)) c
        (fieldRest level selections aliasName n c).next := by
  generalize hr : fieldRest level selections aliasName n c = r at hfaults ⊢
  cases fieldRest_iff.1 hr with
  | ended => exact ⟨none, [], none, rfl, Reads.refl c⟩
  | whole _ ha hd hs =>
      subst ha hd hs
      simp only [withinAll_eq_nil, List.append_eq_nil_iff] at hfaults
      obtain ⟨⟨harguments, hdirectives⟩, hset⟩ := hfaults
      refine ⟨_, _, _, rfl, ?_⟩
      exact ((arguments_sound false level).whenNext .lparen harguments).trans
        ((directives_reads hdirectives).trans (hselections.whenNext .lbrace hset))

theorem field_sound (hselections : Sound selections SelectionSet.pieces) :
    Sound (field level selections) Selection.pieces := by
  intro c hfaults
  generalize hr : field level selections c = r at hfaults ⊢
  cases field_iff.1 hr with
  | noName => cases hfaults
  | whole hname =>
      obtain ⟨arguments, directives, set, hvalue, hreads⟩ := fieldRest_reads hselections hfaults
      refine ⟨_, hvalue, ?_⟩
      rw [Selection.pieces_field]
      have htakes := (takes_of_fieldName hname).trans hreads
      rwa [List.append_assoc] at htakes

theorem inlineRest_reads (hselections : Sound selections SelectionSet.pieces) {ellipsis : Nat}
    {condition : Option TypeCondition}
    (hfaults : (inlineRest level selections ellipsis condition c).faults = []) :
    ∃ directives, ∃ set : SelectionSet,
      (inlineRest level selections ellipsis condition c).value =
        some (.inline ellipsis condition directives set) ∧
      Reads (directives.flatMap Directive.pieces ++ set.pieces) c
        (inlineRest level selections ellipsis condition c).next := by
  generalize hr : inlineRest level selections ellipsis condition c = r at hfaults ⊢
  cases inlineRest_iff.1 hr with
  | noSet => simp at hfaults
  | @whole d s hd hkind hs =>
      subst hd hs
      simp only [withinAll_eq_nil, List.append_eq_nil_iff] at hfaults
      obtain ⟨set, hvalue, htakes⟩ := hselections _ hfaults.2
      exact ⟨_, set, by rw [hvalue]; rfl, (directives_reads hfaults.1).trans htakes.1⟩

end Selections

theorem selectionsSound (level : Nat) : SelectionsSound level := by
  induction level with
  | zero =>
      refine ⟨?_, ?_, ?_⟩
      · intro c hfaults; rw [selectionSet] at hfaults; cases hfaults
      · intro c hfaults; rw [selection] at hfaults; cases hfaults
      · intro ellipsis rest c _ _ hfaults; rw [inlineFragment] at hfaults; cases hfaults
  | succ level ih =>
      obtain ⟨hset, hselection, hinline⟩ := ih
      refine ⟨?_, ?_, ?_⟩
      · intro c hfaults
        rw [selectionSet] at hfaults ⊢
        exact (bracketed_sound hselection (by decide) (by decide)).within _ c hfaults
      · intro c hfaults
        generalize hr : selection (level + 1) c = r at hfaults ⊢
        cases selection_iff.1 hr with
        | field => exact field_sound hset c hfaults
        | ended | noFragment => cases hfaults
        | spread hahead hkind => exact fragmentSpread_takes hahead hkind hfaults
        | inline hahead hkind => exact hinline _ _ c hahead hkind hfaults
      · intro ellipsis rest c hahead hkind hfaults
        generalize hr : inlineFragment (level + 1) ellipsis rest c = r at hfaults ⊢
        cases inlineFragment_iff.1 hr with
        | noCondition => cases hfaults
        | whole hcondition =>
            obtain ⟨directives, set, hvalue, hreads⟩ := inlineRest_reads hset hfaults
            refine ⟨_, hvalue, ?_⟩
            rw [Selection.pieces_inline]
            exact (Takes.ellipsis hahead hkind).trans
              ((reads_of_inlineCondition hcondition).trans hreads)

theorem selectionSet_sound (level : Nat) : Sound (selectionSet level) SelectionSet.pieces :=
  (selectionsSound level).set

/-! ## Operations -/

theorem DefaultedCases.reads {α : Type} {level : Nat} {make : TypeRef → Option DefaultValue → α}
    {r : Reading (Option α)} (h : DefaultedCases level c make r) (hfaults : r.faults = []) :
    ∃ t d, (typeRef level c).faults = [] ∧ (typeRef level c).value = t ∧
      r.value = some (make t d) ∧ Reads (t.pieces ++ d.elim [] DefaultValue.pieces) c r.next := by
  cases h with
  | badType _ hne => exact absurd hfaults hne
  | whole ht hnil =>
      subst ht
      have htype := (typeRef_faithful level c hnil).1
      exact ⟨_, _, hnil, rfl, rfl, htype.trans (defaultValue_reads hfaults)⟩

theorem variableDefinition_sound (level : Nat) :
    Sound (variableDefinition level) VariableDefinition.pieces := by
  intro c hfaults
  generalize hr : variableDefinition level c = r at hfaults ⊢
  cases variableDefinition_iff.1 hr with
  | typed hvariable hcolon htype =>
      obtain ⟨t, d, -, -, hvalue, hreads⟩ := htype.reads hfaults
      exact ⟨_, hvalue,
        (takes_of_variableRef hvariable).trans ((takes_of_mark hcolon).trans hreads).1⟩
  | _ => cases hfaults

theorem variableDefinitions_sound (level : Nat) :
    Sound (variableDefinitions level)
      (Bracketed.pieces .lparen .rparen VariableDefinition.pieces) :=
  nonEmpty_sound variableDefinition_sound (by decide) (by decide) level

theorem operationRest_reads {level start : Nat} {type : OperationType} {name : Option Name}
    (hfaults : (operationRest level start type name c).faults = []) :
    ∃ parameters directives set,
      (operationRest level start type name c).value =
        some ⟨start, type, name, parameters, directives, set⟩ ∧
      Reads (parameters.elim [] (Bracketed.pieces .lparen .rparen VariableDefinition.pieces) ++
          (directives.flatMap Directive.pieces ++ set.pieces)) c
        (operationRest level start type name c).next := by
  rw [operationRest] at hfaults ⊢
  simp only [withinAll_eq_nil, List.append_eq_nil_iff] at hfaults
  obtain ⟨⟨hparameters, hdirectives⟩, hset⟩ := hfaults
  obtain ⟨set, hvalue, htakes⟩ := selectionSet_sound level _ hset
  refine ⟨_, _, set, by simp only [hvalue, Option.map_some]; rfl, ?_⟩
  exact ((variableDefinitions_sound level).whenNext .lparen hparameters).trans
    ((directives_reads hdirectives).trans htakes.1)

/-- An operation behind its keyword. The brace of its selection set is a later token than the
keyword, so it does not begin where the set begins. -/
theorem takes_operation {t : Token} {rest : List Token} (hahead : c.ahead = t :: rest)
    {o : Operation} (hword : t.isWord o.type.keyword = true) (hstart : o.start = t.start)
    (hreads : Reads (o.name.toList.map Name.piece ++
      (o.parameters.elim [] (Bracketed.pieces .lparen .rparen VariableDefinition.pieces) ++
        (o.directives.flatMap Directive.pieces ++ o.selections.pieces))) (c.past rest) c') :
    Takes o.pieces c c' := by
  obtain ⟨⟨taken, htaken, hbehind, hspells⟩, hmoves⟩ :=
    (Takes.word hahead hword).trans hreads
  refine ⟨⟨taken, htaken, hbehind, fun hlexed => ?_⟩, hmoves⟩
  have hspelled := hspells hlexed
  suffices hlong : o.isShorthand = false by
    rw [Operation.pieces, hlong, hstart]
    exact hspelled
  cases hspelled with
  | @take _ u _ us hdenotes hrest =>
      obtain ⟨v, hv, hopening⟩ :=
        hrest.exists_start (p := .mark .lbrace (some o.selections.opening))
          (by simp [SelectionSet.pieces, Bracketed.pieces]) rfl rfl
      have hlt : u.start < v.start := List.rel_of_pairwise_cons hlexed.increasing hv
      have hu : t.start = u.start := Option.some.inj hdenotes.agrees
      have hne : o.start ≠ o.selections.opening := by omega
      simp [Operation.isShorthand, hne]
  | skip hoptional => cases hoptional

theorem operation_reads {level start : Nat} {type : OperationType}
    (hfaults : (operation level start type c).faults = []) :
    ∃ o : Operation, (operation level start type c).value = some o ∧ o.start = start ∧
      o.type = type ∧
      Reads (o.name.toList.map Name.piece ++
        (o.parameters.elim [] (Bracketed.pieces .lparen .rparen VariableDefinition.pieces) ++
          (o.directives.flatMap Directive.pieces ++ o.selections.pieces))) c
        (operation level start type c).next := by
  generalize hr : operation level start type c = r at hfaults ⊢
  cases operation_iff.1 hr with
  | ended | noBody => cases hfaults
  | named hahead hkind =>
      obtain ⟨parameters, directives, set, hvalue, hreads⟩ := operationRest_reads hfaults
      have hname := takes_of_name (name_of_kind hahead hkind)
      exact ⟨_, hvalue, rfl, rfl, (hname.trans hreads).1⟩
  | anonymous =>
      obtain ⟨parameters, directives, set, hvalue, hreads⟩ := operationRest_reads hfaults
      exact ⟨_, hvalue, rfl, rfl, hreads⟩

/-- A query that is its selection set alone begins where the set begins. -/
theorem shorthandQuery_takes {level : Nat} {t : Token} {rest : List Token}
    (hahead : c.ahead = t :: rest)
    (hfaults : (shorthandQuery level t.start c).faults = []) :
    ∃ o, (shorthandQuery level t.start c).value = some o ∧
      Takes o.pieces c (shorthandQuery level t.start c).next := by
  rw [shorthandQuery] at hfaults ⊢
  obtain ⟨set, hvalue, ⟨taken, htaken, hbehind, hspells⟩, hmoves⟩ :=
    selectionSet_sound level c ((Reading.faults_within _ _).1 hfaults)
  refine ⟨⟨t.start, .query, none, none, [], set⟩, ?_, ⟨taken, htaken, hbehind, ?_⟩, hmoves⟩
  · rw [Reading.value_map, Reading.value_within, hvalue]
    rfl
  · intro hlexed
    have hspelled := hspells hlexed
    suffices hopening : t.start = set.opening by
      rw [Operation.pieces, if_pos (by simp [Operation.isShorthand, hopening])]
      exact hspelled
    cases hspelled with
    | take hdenotes _ =>
        rw [hahead] at htaken
        rw [(List.cons.inj htaken).1]
        exact (Option.some.inj hdenotes.agrees).symm
    | skip hoptional => cases hoptional

/-! ## Fragments -/

theorem fragmentDefinition_reads {level keyword : Nat}
    (hfaults : (fragmentDefinition level keyword c).faults = []) :
    ∃ f : Fragment, (fragmentDefinition level keyword c).value = some f ∧ f.keyword = keyword ∧
      Reads (f.name.piece ::
        (f.condition.pieces ++ (f.directives.flatMap Directive.pieces ++ f.selections.pieces))) c
        (fragmentDefinition level keyword c).next := by
  generalize hr : fragmentDefinition level keyword c = r at hfaults ⊢
  cases fragmentDefinition_iff.1 hr with
  | @whole n condition c₁ c₂ d s hname _ hcondition hd hs =>
      subst hd hs
      simp only [withinAll_eq_nil, List.append_eq_nil_iff] at hfaults
      obtain ⟨hdirectives, hset⟩ := hfaults
      obtain ⟨set, hvalue, htakes⟩ := selectionSet_sound level _ hset
      refine ⟨⟨keyword, n, condition, (directives false level c₂).value, set⟩, ?_, rfl, ?_⟩
      · simp only [hvalue, Option.map_some]
      · exact ((takes_of_name hname).trans ((takes_of_typeCondition hcondition).1.trans
          ((directives_reads hdirectives).trans htakes.1))).1
  | _ => cases hfaults

end Grammar

end SelectionCheck
