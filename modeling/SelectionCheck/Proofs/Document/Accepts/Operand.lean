import SelectionCheck.Proofs.Document.Accepts
import SelectionCheck.Proofs.Document.Reads.Operand

/-!
# Accepting values, arguments, directives and type references

Nothing that follows a value changes how it is read. What follows directives must not begin with an
at sign or a parenthesis, and what follows a type must not begin with a bang.
-/

namespace SelectionCheck.Grammar

variable {c : Cursor} {rest : List Word}

/-! ## Values -/

theorem variableRef_of_words {v : Variable} (h : c.words = words v.pieces ++ rest) :
    ∃ v' c', variableRef c = .ok (v', c') ∧ v'.erase = v.erase ∧ c'.words = rest := by
  rw [Variable.pieces, words_mark, words_name] at h
  obtain ⟨dollar, c₁, hdollar, h₁⟩ := punctuator_of_words h
  obtain ⟨start, c₂, hname, h₂⟩ := name_of_words h₁
  exact ⟨⟨dollar, v.name.value, start⟩, c₂, variableRef_iff.2 (.whole hdollar hname), rfl, h₂⟩

/-- The token of a literal is read as that literal. -/
theorem literal?_of_word {constant : Bool} {v : Value} {t : Token}
    (hv : v.isGrammatical constant = true) (hword : words v.pieces = [t.word]) :
    ∃ v', literal? t = some v' ∧ v'.erase = v.erase := by
  cases v with
  | null name =>
      obtain ⟨hkind, htext⟩ : .name = t.kind ∧ name.value = t.text :=
        Word.mk.inj (List.cons.inj hword).1
      rw [Value.isGrammatical, decide_eq_true_eq] at hv
      refine ⟨.null ⟨t.text, t.start⟩, ?_, by rw [Value.erase, Value.erase, ← htext]; rfl⟩
      rw [literal?, ← hkind, ← htext, hv]
      rfl
  | scalar start kind raw =>
      obtain ⟨hkind, htext⟩ : kind.tokenKind = t.kind ∧ raw = t.text :=
        Word.mk.inj (List.cons.inj hword).1
      rw [Value.isGrammatical] at hv
      refine ⟨.scalar t.start kind t.text, ?_, by rw [Value.erase, Value.erase, ← htext]⟩
      rw [literal?, ← hkind, ← htext]
      cases kind with
      | string => rfl
      | int => rfl
      | float => rfl
      | boolean =>
          simp only [ScalarKind.admits, Bool.or_eq_true, decide_eq_true_eq] at hv
          rcases hv with rfl | rfl <;> rfl
      | enum =>
          simp only [ScalarKind.admits, isReservedSymbol, List.contains_cons, Bool.not_eq_true',
            Bool.or_eq_false_iff, beq_eq_false_iff_ne, List.contains_nil, ne_eq] at hv
          simp [ScalarKind.tokenKind, hv]
  | var reference => simp [Value.pieces, Variable.pieces] at hword
  | list values =>
      rw [Value.pieces_list, Bracketed.pieces] at hword
      simp at hword
  | object fields =>
      rw [Value.pieces_object, Bracketed.pieces] at hword
      simp at hword
  | tooDeep => cases hv
  | missing => cases hv

def valueHeads : List Token.Kind :=
  [.name, .int, .float, .string, .dollar, .lbracket, .lbrace]

theorem begins_value {constant : Bool} {v : Value} (hv : v.isGrammatical constant = true) :
    Begins valueHeads (words v.pieces) := by
  cases v with
  | null name => exact begins_word .name (by decide)
  | scalar start kind raw => exact begins_word kind.tokenKind (by cases kind <;> decide)
  | var reference => exact begins_word .dollar (by decide)
  | list values =>
      rw [Value.pieces_list]
      exact begins_word .lbracket (by decide)
  | object fields =>
      rw [Value.pieces_object]
      exact begins_word .lbrace (by decide)
  | tooDeep => cases hv
  | missing => cases hv

theorem begins_objectField (f : ObjectField) : Begins [.name] (words f.pieces) := by
  obtain ⟨name, colon, value⟩ := f
  exact begins_word .name (by decide)

/-- Value readers that accept every value up to a height accept the fields of objects up to it. -/
theorem objectField_returns {value : Cursor → Reading Value} {f : ObjectField}
    (hvalue : ∀ name colon v, f = ⟨name, colon, v⟩ →
      Accepts value (words v.pieces) [] fun v' => v'.erase = v.erase) :
    Returns (objectField value) ObjectField.pieces ObjectField.erase [] f := by
  intro c rest hwords hclear
  obtain ⟨n, colon, v⟩ := f
  rw [ObjectField.pieces, words_name, words_mark] at hwords
  obtain ⟨start, c₁, hname, h₁⟩ := name_of_words hwords
  obtain ⟨offset, c₂, hcolon, h₂⟩ := punctuator_of_words h₁
  rw [objectField_iff.2 (.whole hname hcolon)]
  refine (hvalue n colon v rfl c₂ rest h₂ hclear).map ?_
  intro v' herase
  rw [Option.map_some, ObjectField.erase, ObjectField.erase, herase]
  rfl

theorem one_le_height_value (v : Value) : 1 ≤ v.height := by
  cases v with
  | list values => rw [Value.height_list]; omega
  | object fields => rw [Value.height_object]; omega
  | _ => exact Nat.le_refl 1

theorem value_gives_of_word {constant : Bool} {level : Nat} {v : Value} {w : Word}
    (hv : v.isGrammatical constant = true) (hw : words v.pieces = [w])
    (hwords : c.words = words v.pieces ++ rest) :
    Gives (value constant (level + 1) c) (fun v' => v'.erase = v.erase) rest := by
  rw [hw] at hwords
  obtain ⟨t, ts, hahead, hkind, htext, hrest⟩ := Cursor.exists_of_words hwords
  have hword : words v.pieces = [t.word] := by
    rw [hw, Token.word, hkind, htext]
  obtain ⟨v', hliteral, herase⟩ := literal?_of_word hv hword
  rw [value_iff.2 (.literal hahead hliteral)]
  exact ⟨rfl, herase, hrest⟩

/-- The induction is on the level; a list and an object read their parts two levels further in. -/
theorem value_accepts (constant : Bool) {level : Nat} {v : Value}
    (hv : v.isGrammatical constant = true) (hlevel : v.height ≤ level) :
    Accepts (value constant level) (words v.pieces) [] fun v' => v'.erase = v.erase := by
  induction level using Nat.strongRecOn generalizing v with
  | ind level ih =>
      intro c rest hwords hclear
      obtain ⟨level, rfl⟩ : ∃ n, level = n + 1 :=
        ⟨level - 1, by have hpos := one_le_height_value v; omega⟩
      cases v with
      | null name => exact value_gives_of_word hv rfl hwords
      | scalar start kind raw => exact value_gives_of_word hv rfl hwords
      | var reference =>
          obtain ⟨t, ts, hahead, hkind, -, -⟩ := Cursor.exists_of_words hwords
          obtain ⟨v', c', hvariable, herase, hrest⟩ := variableRef_of_words hwords
          rw [Value.isGrammatical, Bool.not_eq_true'] at hv
          subst hv
          rw [value_iff.2 (.var hahead hkind), variableValue_iff.2 (.whole hvariable)]
          refine ⟨rfl, ?_, hrest⟩
          rw [Value.erase, Value.erase, herase]
      | list values =>
          rw [Value.pieces_list] at hwords
          rw [Value.isGrammatical_list, Bracketed.isGrammatical, Bool.and_eq_true,
            List.all_eq_true] at hv
          rw [Value.height_list] at hlevel
          obtain ⟨level, rfl⟩ : ∃ n, level = n + 1 := ⟨level - 1, by omega⟩
          obtain ⟨t, ts, hahead, hkind, -, -⟩ := Cursor.exists_of_words hwords
          rw [value_iff.2 (.list hahead hkind), listValue]
          have hitem : ∀ a ∈ values.items, Returns (fun c => (value constant level c).map some)
              Value.pieces Value.erase [] a := by
            intro a ha
            have hheight : a.height ≤ tallest Value.height values.items := le_tallest ha
            exact (ih level (by omega) (hv.2 a ha) (by omega)).some
          refine (bracketed_returns (valuesFaithful constant level).value.some hv.1 hitem
            (fun a ha => begins_value (hv.2 a ha)) (by decide) (by decide)
            c rest hwords hclear).map ?_
          intro o ho
          obtain ⟨values', rfl, herase⟩ := Option.map_eq_some_iff.1 ho
          rw [Option.map_some, Option.getD_some, Value.erase_list, Value.erase_list, herase]
      | object fields =>
          rw [Value.pieces_object] at hwords
          rw [Value.isGrammatical_object, Bracketed.isGrammatical, Bool.and_eq_true,
            List.all_eq_true] at hv
          rw [Value.height_object] at hlevel
          obtain ⟨level, rfl⟩ : ∃ n, level = n + 1 := ⟨level - 1, by omega⟩
          obtain ⟨t, ts, hahead, hkind, -, -⟩ := Cursor.exists_of_words hwords
          rw [value_iff.2 (.object hahead hkind), objectValue]
          have hitem : ∀ a ∈ fields.items, Returns (objectField (value constant level))
              ObjectField.pieces ObjectField.erase [] a := by
            intro a ha
            have hheight : a.height ≤ tallest ObjectField.height fields.items := le_tallest ha
            refine objectField_returns ?_
            rintro name colon v rfl
            exact ih level (by omega) (hv.2 _ ha) (by rw [ObjectField.height] at hheight; omega)
          refine ((bracketed_returns (objectField_sound (valuesFaithful constant level).value) hv.1
            hitem (fun a _ => begins_objectField a) (by decide) (by decide)
            c rest hwords hclear).within _).map ?_
          intro o ho
          obtain ⟨fields', rfl, herase⟩ := Option.map_eq_some_iff.1 ho
          rw [Option.map_some, Option.getD_some, Value.erase_object, Value.erase_object, herase]
      | tooDeep => cases hv
      | missing => cases hv

theorem defaultValue_accepts {level : Nat} {o : Option DefaultValue}
    (ho : o.all DefaultValue.isGrammatical = true) (hlevel : defaultHeight o ≤ level) :
    Accepts (defaultValue level) (words (o.elim [] DefaultValue.pieces)) [.equals] fun v =>
      v.map DefaultValue.erase = o.map DefaultValue.erase := by
  intro c rest hwords hclear
  cases o with
  | none =>
      obtain ⟨level, rfl⟩ : ∃ n, level = n + 1 :=
        ⟨level - 1, by rw [defaultHeight] at hlevel; omega⟩
      have hclear' : Clear [.equals] c.words := by rw [hwords]; exact hclear
      obtain ⟨fault, hfault⟩ := punctuator_of_clear hclear' List.mem_cons_self
      rw [defaultValue_iff.2 (.absent hfault)]
      exact ⟨rfl, rfl, hwords⟩
  | some d =>
      obtain ⟨level, rfl⟩ : ∃ n, level = n + 1 :=
        ⟨level - 1, by rw [defaultHeight] at hlevel; omega⟩
      rw [Option.elim_some, DefaultValue.pieces, words_mark] at hwords
      obtain ⟨equals, c₁, hequals, h₁⟩ := punctuator_of_words hwords
      rw [defaultValue_iff.2 (.whole hequals)]
      have hheight : d.value.height ≤ level := by rw [defaultHeight] at hlevel; omega
      refine ((value_accepts true ho hheight c₁ rest h₁ (clear_nil rest)).within _).map ?_
      intro v herase
      rw [Option.map_some, Option.map_some, DefaultValue.erase, DefaultValue.erase, herase]

/-! ## Arguments and directives -/

theorem argument_returns {constant : Bool} {level : Nat} {a : Argument}
    (ha : a.isGrammatical constant = true) (hlevel : a.height ≤ level) :
    Returns (argument constant level) Argument.pieces Argument.erase [] a := by
  intro c rest hwords hclear
  obtain ⟨n, colon, v⟩ := a
  rw [Argument.height] at hlevel
  dsimp only at hlevel
  obtain ⟨level, rfl⟩ : ∃ n, level = n + 1 := ⟨level - 1, by omega⟩
  have hfield : Returns (objectField (value constant level)) _ _ [] ⟨n, colon, v⟩ :=
    objectField_returns (by rintro _ _ _ ⟨⟩; exact value_accepts constant ha (by omega))
  rw [argument_succ]
  refine (hfield c rest hwords hclear).map ?_
  intro o ho
  obtain ⟨⟨n', colon', v'⟩, rfl, herase⟩ := Option.map_eq_some_iff.1 ho
  obtain ⟨hname, hvalue⟩ : n'.erase = n.erase ∧ v'.erase = v.erase := by
    simpa [ObjectField.erase] using herase
  simp [argumentOf, Argument.erase, hname, hvalue]

theorem arguments_returns {constant : Bool} {level : Nat} {b : Bracketed Argument}
    (hb : b.isFilled (Argument.isGrammatical constant) = true)
    (hlevel : 1 + tallest Argument.height b.items ≤ level) :
    Returns (arguments constant level) (Bracketed.pieces .lparen .rparen Argument.pieces)
      (Bracketed.erase Argument.erase) [] b :=
  nonEmpty_returns hb hlevel (argument_sound constant) argument_returns
    (fun _ => begins_word .name (List.mem_singleton.2 rfl)) (by decide) (by decide)

theorem whenArguments_accepts {constant : Bool} {level : Nat} {o : Option (Bracketed Argument)}
    (ho : argumentsAreGrammatical constant o = true) (hlevel : argumentsHeight o ≤ level) :
    Accepts (whenNext .lparen (arguments constant level)) (words (argumentPieces o)) [.lparen]
      fun v => v.map (Bracketed.erase Argument.erase) = o.map (Bracketed.erase Argument.erase) := by
  refine whenNext_accepts ?_ (fun b _ => begins_word .lparen List.mem_cons_self)
    List.mem_cons_self
  rintro b rfl
  exact (arguments_returns ho hlevel).weaken

theorem directivesFrom_gives {constant : Bool} {level : Nat} {ds : List Directive}
    (hall : ∀ d ∈ ds, d.isGrammatical constant = true)
    (hlevel : ∀ d ∈ ds, d.height ≤ level) {steps : List Token}
    {before : List Directive} (hsteps : c.ahead.length ≤ steps.length)
    (hwords : c.words = words (ds.flatMap Directive.pieces) ++ rest)
    (hclear : Clear [.atSign, .lparen] rest) :
    Gives (directivesFrom constant level steps c before [])
      (fun v => v.map Directive.erase =
        before.reverse.map Directive.erase ++ ds.map Directive.erase) rest := by
  induction ds generalizing steps c before with
  | nil =>
      cases steps with
      | nil =>
          rw [directivesFrom]
          exact ⟨rfl, by simp, hwords⟩
      | cons step steps =>
          have hclear' : Clear [.atSign, .lparen] c.words := by rw [hwords]; exact hclear
          obtain ⟨fault, hfault⟩ := punctuator_of_clear hclear' List.mem_cons_self
          rw [directivesFrom_iff.2 (.absent hfault)]
          exact ⟨rfl, by simp, hwords⟩
  | cons d ds ih =>
      have hafter : Clear [.lparen] (words (ds.flatMap Directive.pieces) ++ rest) := by
        cases ds with
        | nil => exact hclear.mono (by decide)
        | cons d' ds => exact clear_word .atSign (by decide)
      have hlength := c.length_words
      rw [List.flatMap_cons, words_append, List.append_assoc, Directive.pieces, words_mark,
        words_name] at hwords
      obtain ⟨sign, c₁, hsign, h₁⟩ := punctuator_of_words hwords
      obtain ⟨start, c₂, hname, h₂⟩ := name_of_words h₁
      have hgives := (whenArguments_accepts (hall d List.mem_cons_self)
        (hlevel d List.mem_cons_self) c₂ _ h₂ hafter).within (.directive d.name.value)
      have hshorter := Cursor.length_words
        ((whenNext .lparen (arguments constant level) c₂).within (.directive d.name.value)).next
      rw [hgives.words] at hshorter
      rw [hwords] at hlength
      simp only [List.length_cons, List.length_append, List.cons_append] at hlength hshorter
      cases steps with
      | nil => exact absurd hsteps (by rw [List.length_nil]; omega)
      | cons step steps =>
          rw [List.length_cons] at hsteps
          have hfaults := hgives.faults
          rw [directivesFrom_iff.2 (.more hsign hname rfl), show withinAll _ _ = [] from hfaults]
          refine (ih (fun d' hd' => hall d' (List.mem_cons_of_mem d hd'))
            (fun d' hd' => hlevel d' (List.mem_cons_of_mem d hd')) (by omega) hgives.words).imp ?_
          intro v hv
          rw [hv]
          simpa [Directive.erase, Name.erase] using hgives.value

theorem directives_accepts {constant : Bool} {level : Nat} {ds : List Directive}
    (hall : ds.all (Directive.isGrammatical constant) = true)
    (hlevel : directivesHeight ds ≤ level) :
    Accepts (directives constant level) (words (ds.flatMap Directive.pieces)) [.atSign, .lparen]
      fun v => v.map Directive.erase = ds.map Directive.erase := by
  intro c rest hwords hclear
  rw [directivesHeight] at hlevel
  obtain ⟨level, rfl⟩ : ∃ n, level = n + 1 := ⟨level - 1, by omega⟩
  have hheight : ∀ d ∈ ds, d.height ≤ level := by
    intro d hd
    have hle : d.height ≤ tallest Directive.height ds := le_tallest hd
    omega
  rw [directives]
  exact directivesFrom_gives (List.all_eq_true.1 hall) hheight (Nat.le_refl _) hwords hclear

/-! ## Type references -/

theorem bang_of_words {o : Option Nat} (hwords : c.words = words (bangPieces o) ++ rest)
    (hclear : Clear [.bang] rest) :
    ((bang c).1.map fun _ => 0) = (o.map fun _ => 0) ∧ (bang c).2.words = rest := by
  cases o with
  | none =>
      have hclear' : Clear [.bang] c.words := by rw [hwords]; exact hclear
      obtain ⟨fault, hfault⟩ := punctuator_of_clear hclear' List.mem_cons_self
      rw [bang_iff.2 (.absent hfault)]
      exact ⟨rfl, hwords⟩
  | some offset =>
      obtain ⟨offset', c₁, hbang, h₁⟩ := punctuator_of_words hwords
      rw [bang_iff.2 (.found hbang)]
      exact ⟨rfl, h₁⟩

/-- The induction is on the type: the element of a list is read one level further in. -/
theorem typeRef_accepts {level : Nat} {type : TypeRef} (htype : type.isGrammatical = true)
    (hlevel : type.height ≤ level) :
    Accepts (typeRef level) (words type.pieces) [.bang] fun v => v.erase = type.erase := by
  induction type generalizing level with
  | named n mark =>
      intro c rest hwords hclear
      obtain ⟨level, rfl⟩ : ∃ n, level = n + 1 :=
        ⟨level - 1, by rw [TypeRef.height] at hlevel; omega⟩
      rw [TypeRef.pieces, words_name] at hwords
      obtain ⟨t, ts, hahead, hkind, htext, hrest⟩ := Cursor.exists_of_words hwords
      obtain ⟨hmark, hwords'⟩ := bang_of_words hrest hclear
      rw [typeRef_iff.2 (.named hahead hkind)]
      refine ⟨rfl, ?_, hwords'⟩
      rw [TypeRef.erase, TypeRef.erase, hmark, htext]
      rfl
  | list opening element closing mark ih =>
      intro c rest hwords hclear
      rw [TypeRef.height] at hlevel
      obtain ⟨level, rfl⟩ : ∃ n, level = n + 1 := ⟨level - 1, by omega⟩
      rw [TypeRef.isGrammatical, Bool.and_eq_true] at htype
      obtain ⟨offset, rfl⟩ := Option.isSome_iff_exists.1 htype.2
      rw [TypeRef.pieces, words_mark, words_append, words_mark, List.cons_append,
        List.append_assoc] at hwords
      obtain ⟨t, ts, hahead, hkind, -, hrest⟩ := Cursor.exists_of_words hwords
      have hheight : element.height ≤ level := by omega
      have hgives := ih htype.1 hheight (c.past ts) _ hrest (clear_word .rbracket (by decide))
      obtain ⟨closing', c₁, hclosing, h₁⟩ := punctuator_of_words hgives.words
      obtain ⟨hmark, hwords'⟩ := bang_of_words h₁ hclear
      rw [typeRef_iff.2 (.list hahead hkind (typeRef_iff.1 rfl)),
        listTypeRest_iff.2 (.whole hclosing hgives.faults)]
      refine ⟨rfl, ?_, hwords'⟩
      rw [TypeRef.erase, TypeRef.erase, hmark, hgives.value]
      rfl
  | missing => cases htype

end SelectionCheck.Grammar
