import SelectionCheck.Proofs.Document.Reads

/-!
# What the readers of values, directives and types take

Every rule that reads part of a value, a directive or a type reference takes, when it meets no
fault, the tokens that its result spells.
-/

namespace SelectionCheck.Grammar

variable {c c' : Cursor}

/-! ## Values -/

theorem takes_of_variableRef {v : Variable} (h : variableRef c = .ok (v, c')) :
    Takes v.pieces c c' := by
  cases variableRef_iff.1 h with
  | whole hdollar hname => exact (takes_of_mark hdollar).trans (takes_of_name hname).1

theorem takes_of_literal {t : Token} {rest : List Token} {v : Value} (hahead : c.ahead = t :: rest)
    (h : literal? t = some v) : Takes v.pieces c (c.past rest) := by
  have htakes : Takes [.lexeme t.kind t.text t.start] c (c.past rest) := .lexeme hahead rfl
  cases literal?_cases h with
  | null hkind | scalar hkind =>
      rw [hkind] at htakes
      exact htakes

theorem variableValue_takes {constant : Bool} (hfaults : (variableValue constant c).faults = []) :
    Takes (variableValue constant c).value.pieces c (variableValue constant c).next := by
  generalize hr : variableValue constant c = r at hfaults ⊢
  cases variableValue_iff.1 hr with
  | whole hvariable => exact takes_of_variableRef hvariable
  | _ => cases hfaults

theorem objectField_sound {value : Cursor → Reading Value} (hvalue : Faithful value Value.pieces) :
    Sound (objectField value) ObjectField.pieces := by
  intro c hfaults
  generalize hr : objectField value c = r at hfaults ⊢
  cases objectField_iff.1 hr with
  | @whole n colon c₁ c₂ hname hcolon =>
      refine ⟨⟨n, colon, (value c₂).value⟩, rfl, ?_⟩
      exact (takes_of_name hname).trans ((takes_of_mark hcolon).trans (hvalue c₂ hfaults).1).1
  | _ => cases hfaults

/-- At level zero no value is read without faults. -/
theorem faults_values_zero (constant : Bool) (c : Cursor) :
    (value constant 0 c).faults ≠ [] ∧ (listValue constant 0 c).faults ≠ [] ∧
      (objectValue constant 0 c).faults ≠ [] := by
  rw [value, listValue, objectValue]
  exact ⟨List.cons_ne_nil _ _, List.cons_ne_nil _ _, List.cons_ne_nil _ _⟩

/-- What the readers of values take at one level. A list and an object read their parts at the
level below. -/
structure ValuesFaithful (constant : Bool) (level : Nat) : Prop where
  value : Faithful (Grammar.value constant level) Value.pieces
  list : Faithful (listValue constant level) Value.pieces
  object : Faithful (objectValue constant level) Value.pieces

theorem valuesFaithful (constant : Bool) (level : Nat) : ValuesFaithful constant level := by
  induction level with
  | zero =>
      refine ⟨?_, ?_, ?_⟩ <;> intro c hfaults
      · exact absurd hfaults (faults_values_zero constant c).1
      · exact absurd hfaults (faults_values_zero constant c).2.1
      · exact absurd hfaults (faults_values_zero constant c).2.2
  | succ level ih =>
      obtain ⟨hvalue, hlist, hobject⟩ := ih
      refine ⟨?_, ?_, ?_⟩ <;> intro c hfaults
      · generalize hr : value constant (level + 1) c = r at hfaults ⊢
        cases value_iff.1 hr with
        | nothing => cases hfaults
        | literal hahead hliteral => exact takes_of_literal hahead hliteral
        | var => exact variableValue_takes hfaults
        | list => exact hlist c hfaults
        | object => exact hobject c hfaults
      · rw [listValue] at hfaults ⊢
        obtain ⟨values, heq, htakes⟩ :=
          bracketed_sound hvalue.some (by decide) (by decide) c hfaults
        rw [Reading.value_map, heq]
        exact Value.pieces_list values ▸ htakes
      · rw [objectValue] at hfaults ⊢
        obtain ⟨fields, heq, htakes⟩ :=
          bracketed_sound (objectField_sound hvalue) (by decide) (by decide) c
            ((Reading.faults_within _ _).1 hfaults)
        rw [Reading.value_map, Reading.value_within, heq]
        exact Value.pieces_object fields ▸ htakes

theorem defaultValue_reads {level : Nat} (hfaults : (defaultValue level c).faults = []) :
    Reads ((defaultValue level c).value.elim [] DefaultValue.pieces) c
      (defaultValue level c).next := by
  generalize hr : defaultValue level c = r at hfaults ⊢
  cases defaultValue_iff.1 hr with
  | tooDeep => cases hfaults
  | absent => exact Reads.refl c
  | @whole level equals c₁ hequals =>
      have hvalue := (valuesFaithful true level).value c₁ (withinAll_eq_nil.1 hfaults)
      exact ((takes_of_mark hequals).trans hvalue.1).1

/-! ## Arguments and directives -/

theorem argument_sound (constant : Bool) (level : Nat) :
    Sound (argument constant level) Argument.pieces := by
  intro c hfaults
  match level with
  | 0 => rw [argument] at hfaults; cases hfaults
  | level + 1 =>
      rw [argument_succ] at hfaults ⊢
      obtain ⟨⟨n, colon, v⟩, hvalue, htakes⟩ :=
        objectField_sound (valuesFaithful constant level).value c hfaults
      exact ⟨⟨n, colon, v⟩, congrArg (Option.map argumentOf) hvalue, htakes⟩

theorem arguments_sound (constant : Bool) (level : Nat) :
    Sound (arguments constant level) (Bracketed.pieces .lparen .rparen Argument.pieces) :=
  nonEmpty_sound (argument_sound constant) (by decide) (by decide) level

/-- Faults met before are never dropped. -/
theorem faults_eq_nil_of_directivesFrom {constant : Bool} {level : Nat} {steps : List Token}
    {directives : List Directive} {faults : List Fault}
    (hfaults : (directivesFrom constant level steps c directives faults).faults = []) :
    faults = [] := by
  induction steps generalizing c directives faults with
  | nil => exact List.reverse_eq_nil_iff.1 hfaults
  | cons step steps ih =>
      generalize hr : directivesFrom constant level (step :: steps) c directives faults = r
        at hfaults
      cases directivesFrom_iff.1 hr with
      | absent => exact List.reverse_eq_nil_iff.1 hfaults
      | noName => simp at hfaults
      | more => exact (List.append_eq_nil_iff.1 (ih hfaults)).2

/-- The directives that come next. Each takes a token, so the steps never run out before the
tokens do. -/
theorem directivesFrom_reads {constant : Bool} {level : Nat} {steps : List Token}
    {directives : List Directive} {faults : List Fault} (hsteps : c.ahead.length ≤ steps.length)
    (hfaults : (directivesFrom constant level steps c directives faults).faults = []) :
    ∃ more,
      (directivesFrom constant level steps c directives faults).value =
        directives.reverse ++ more ∧
      Reads (more.flatMap Directive.pieces) c
        (directivesFrom constant level steps c directives faults).next := by
  induction steps generalizing c directives faults with
  | nil => exact ⟨[], by simp [directivesFrom], Reads.refl c⟩
  | cons step steps ih =>
      generalize hr : directivesFrom constant level (step :: steps) c directives faults = r
        at hfaults ⊢
      cases directivesFrom_iff.1 hr with
      | absent => exact ⟨[], by simp, Reads.refl c⟩
      | noName => simp at hfaults
      | @more _ _ sign n c₁ c₂ r hsign hname hread =>
          subst hread
          have hnone := (List.append_eq_nil_iff.1 (faults_eq_nil_of_directivesFrom hfaults)).1
          have harguments := (arguments_sound constant level).whenNext .lparen (c := c₂)
            (by simpa using hnone)
          have htakes := (takes_of_mark hsign).trans ((takes_of_name hname).trans harguments).1
          have hlength := htakes.1.length_add_behind
          have hmoves := htakes.2
          rw [List.length_cons] at hsteps
          obtain ⟨more, hvalue, hreads⟩ := ih (by omega) hfaults
          refine ⟨⟨sign, n, (whenNext .lparen (arguments constant level) c₂).value⟩ :: more, ?_, ?_⟩
          · rw [hvalue]
            simp
          · rw [List.flatMap_cons]
            exact htakes.1.trans hreads

theorem directives_reads {constant : Bool} {level : Nat}
    (hfaults : (directives constant level c).faults = []) :
    Reads ((directives constant level c).value.flatMap Directive.pieces) c
      (directives constant level c).next := by
  match level with
  | 0 => rw [directives] at hfaults; cases hfaults
  | level + 1 =>
      rw [directives] at hfaults ⊢
      obtain ⟨more, hvalue, hreads⟩ := directivesFrom_reads (Nat.le_refl _) hfaults
      rw [hvalue]
      exact hreads

/-! ## Type references -/

theorem bang_reads (c : Cursor) : Reads (bangPieces (bang c).1) c (bang c).2 := by
  generalize hr : bang c = r
  cases bang_iff.1 hr with
  | absent => exact Reads.refl c
  | found hbang => exact (takes_of_mark hbang).1

theorem listTypeRest_reads {opening : Nat} {element : Reading TypeRef}
    (hfaults : (listTypeRest opening element).faults = []) :
    element.faults = [] ∧ ∃ closing mark,
      (listTypeRest opening element).value = .list opening element.value (some closing) mark ∧
      Reads (.mark .rbracket (some closing) :: bangPieces mark) element.next
        (listTypeRest opening element).next := by
  generalize hr : listTypeRest opening element = r at hfaults ⊢
  cases listTypeRest_iff.1 hr with
  | unclosed => simp at hfaults
  | badElement _ hne => exact absurd (withinAll_eq_nil.1 hfaults) hne
  | @whole closing c₁ hclosing hnil =>
      refine ⟨hnil, closing, (bang c₁).1, rfl, ?_⟩
      exact ((takes_of_mark hclosing).trans (bang_reads c₁)).1

theorem typeRef_faithful (level : Nat) : Faithful (typeRef level) TypeRef.pieces := by
  intro c hfaults
  generalize hr : typeRef level c = r at hfaults ⊢
  induction typeRef_iff.1 hr with
  | ended | tooDeep | noType => cases hfaults
  | @named level t rest c hahead hname =>
      have htakes : Takes [.lexeme .name t.text t.start] c (c.past rest) := by
        rw [← hname]
        exact .lexeme hahead rfl
      exact htakes.trans (bang_reads (c.past rest))
  | @list level t rest element c hahead hlbracket helement ih =>
      obtain ⟨hnil, closing, mark, hvalue, hreads⟩ := listTypeRest_reads hfaults
      rw [hvalue]
      have hopening : Takes [.mark .lbracket (some t.start)] c (c.past rest) :=
        takes_of_mark (punctuator_of_kind hahead hlbracket)
      exact hopening.trans ((ih (typeRef_iff.2 helement) hnil).1.trans hreads)

end SelectionCheck.Grammar
