import SelectionCheck.Document.Executable
import SelectionCheck.Proofs.Document.Cases

/-!
# The cases of operations and fragments
-/

namespace SelectionCheck

theorem Token.isWord_iff {t : Token} {word : Text} :
    t.isWord word = true ↔ t.kind = .name ∧ t.text = word := by
  simp [isWord]

namespace Grammar

variable {α : Type} {c : Cursor} {selections : Cursor → Reading (Option SelectionSet)}

/-! ## Selections -/

inductive TypeConditionCases (c : Cursor) :
    (level : Nat) → Except (Fault × Cursor) (TypeCondition × Cursor) → Prop
  | ended {level} (hahead : c.ahead = []) :
      TypeConditionCases c level
        (.error ((Fault.expected .typeCondition c.ahead.head?).within (.rule .typeCondition), c))
  | tooDeep (hahead : c.ahead ≠ []) : TypeConditionCases c 0 (.error (.tooDeep, c))
  | noWord {level t rest} (hahead : c.ahead = t :: rest) (hword : t.isWord "on" = false) :
      TypeConditionCases c (level + 1)
        (.error ((Fault.expected .typeCondition c.ahead.head?).within (.rule .typeCondition), c))
  | noName {level t rest fault} (hahead : c.ahead = t :: rest) (hword : t.isWord "on" = true)
      (hname : name (c.past rest) = .error fault) :
      TypeConditionCases c (level + 1) (.error (fault, c.past rest))
  | whole {level t rest n c₁} (hahead : c.ahead = t :: rest) (hword : t.isWord "on" = true)
      (hname : name (c.past rest) = .ok (n, c₁)) :
      TypeConditionCases c (level + 1) (.ok (⟨t.start, n⟩, c₁))

theorem typeCondition_iff {level r} :
    typeCondition level c = r ↔ TypeConditionCases c level r := by
  constructor
  · rintro rfl
    obtain ⟨_ | ⟨t, rest⟩, behind⟩ := c
    · exact .ended rfl
    · cases level with
      | zero => exact .tooDeep nofun
      | succ level =>
          rw [typeCondition]
          dsimp only
          split
          · next hword =>
              split
              · next hname => exact .noName rfl hword hname
              · next hname => exact .whole rfl hword hname
          · next hword => exact .noWord rfl (Bool.eq_false_iff.2 hword)
  · intro h
    cases h with
    | tooDeep hahead =>
        obtain ⟨t, rest, hcons⟩ := List.exists_cons_of_ne_nil hahead
        simp only [typeCondition, hcons]
    | _ => simp [typeCondition, *]

inductive FragmentSpreadCases (ellipsis : Token) (rest : List Token) (c : Cursor) :
    (level : Nat) → Reading (Option Selection) → Prop
  | tooDeep : FragmentSpreadCases ellipsis rest c 0 (.refuse none .tooDeep c)
  | noName {level fault} (hname : name (c.past rest) = .error fault) :
      FragmentSpreadCases ellipsis rest c (level + 1)
        (.refuse none (fault.within (.rule .fragmentSpread)) (c.past rest))
  | whole {level n c₁} (hname : name (c.past rest) = .ok (n, c₁)) :
      FragmentSpreadCases ellipsis rest c (level + 1)
        (((directives false level c₁).within (.named .fragmentSpread n.value)).map fun directives =>
          some (.spread ellipsis.start n directives))

theorem fragmentSpread_iff {level ellipsis rest r} :
    fragmentSpread level ellipsis rest c = r ↔ FragmentSpreadCases ellipsis rest c level r := by
  constructor
  · rintro rfl
    fun_cases fragmentSpread level ellipsis rest c <;> constructor <;> assumption
  · intro h
    cases h <;> simp only [fragmentSpread, *]

inductive InlineConditionCases (level : Nat) (c : Cursor) :
    Except (Fault × Cursor) (Option TypeCondition × Cursor) → Prop
  | absent (hword : ∀ t ∈ c.ahead.head?, t.isWord "on" = false) :
      InlineConditionCases level c (.ok (none, c))
  | noCondition {t rest fault c₁} (hahead : c.ahead = t :: rest) (hword : t.isWord "on" = true)
      (hcondition : typeCondition level c = .error (fault, c₁)) :
      InlineConditionCases level c (.error (fault.within (.rule .inlineFragment), c₁))
  | whole {t rest condition c₁} (hahead : c.ahead = t :: rest) (hword : t.isWord "on" = true)
      (hcondition : typeCondition level c = .ok (condition, c₁)) :
      InlineConditionCases level c (.ok (some condition, c₁))

theorem inlineCondition_iff {level r} :
    inlineCondition level c = r ↔ InlineConditionCases level c r := by
  constructor
  · rintro rfl
    fun_cases inlineCondition level c with
    | case1 hahead => exact .absent (by simp [hahead])
    | case2 t rest hahead hword fault c₁ hcondition => exact .noCondition hahead hword hcondition
    | case3 t rest hahead hword condition c₁ hcondition => exact .whole hahead hword hcondition
    | case4 t rest hahead hword => exact .absent (by simpa [hahead] using hword)
  · intro h
    cases h with
    | absent hword => cases hahead : c.ahead <;> simp_all [inlineCondition]
    | _ => simp [inlineCondition, *]

inductive FieldNameCases (c : Cursor) :
    Except (Fault × Cursor) ((Option Name × Name) × Cursor) → Prop
  | noName {fault} (hname : name c = .error fault) :
      FieldNameCases c (.error (fault.within (.rule .field), c))
  | plain {n fault c₁} (hname : name c = .ok (n, c₁))
      (hcolon : punctuator .colon c₁ = .error fault) : FieldNameCases c (.ok ((none, n), c₁))
  | onlyAlias {first colon fault c₁ c₂} (hfirst : name c = .ok (first, c₁))
      (hcolon : punctuator .colon c₁ = .ok (colon, c₂)) (hsecond : name c₂ = .error fault) :
      FieldNameCases c (.error (fault.within (.named .field first.value), c₂))
  | aliased {first second colon c₁ c₂ c₃} (hfirst : name c = .ok (first, c₁))
      (hcolon : punctuator .colon c₁ = .ok (colon, c₂)) (hsecond : name c₂ = .ok (second, c₃)) :
      FieldNameCases c (.ok ((some first, second), c₃))

theorem fieldName_iff {r} : fieldName c = r ↔ FieldNameCases c r := by
  constructor
  · rintro rfl
    fun_cases fieldName c with
    | case1 fault hname => exact .noName hname
    | case2 n c₁ hname fault hcolon => exact .plain hname hcolon
    | case3 first c₁ hfirst colon c₂ hcolon fault hsecond => exact .onlyAlias hfirst hcolon hsecond
    | case4 first c₁ hfirst colon c₂ hcolon second c₃ hsecond =>
        exact .aliased hfirst hcolon hsecond
  · intro h
    cases h <;> simp only [fieldName, *]

inductive FieldRestCases (level : Nat) (selections : Cursor → Reading (Option SelectionSet))
    (aliasName : Option Name) (n : Name) (c : Cursor) : Reading (Option Selection) → Prop
  | ended (hahead : c.ahead = []) :
      FieldRestCases level selections aliasName n c
        ⟨some (.field aliasName n none [] none), [], c⟩
  | whole {a d s} (hahead : c.ahead ≠ []) (ha : whenNext .lparen (arguments false level) c = a)
      (hd : directives false level a.next = d) (hs : whenNext .lbrace selections d.next = s) :
      FieldRestCases level selections aliasName n c
        ⟨some (.field aliasName n a.value d.value s.value),
          withinAll (.named .field n.value) (a.faults ++ d.faults ++ s.faults), s.next⟩

theorem fieldRest_iff {level aliasName n r} :
    fieldRest level selections aliasName n c = r ↔
      FieldRestCases level selections aliasName n c r := by
  constructor
  · rintro rfl
    fun_cases fieldRest level selections aliasName n c with
    | case1 hahead => exact .ended hahead
    | case2 t rest hahead => exact .whole (by simp [hahead]) rfl rfl rfl
  · intro h
    cases h with
    | ended hahead => simp only [fieldRest, hahead]
    | whole hahead ha hd hs =>
        obtain ⟨t, rest, hcons⟩ := List.exists_cons_of_ne_nil hahead
        simp only [fieldRest, hcons, ha, hd, hs]

inductive FieldCases (level : Nat) (selections : Cursor → Reading (Option SelectionSet))
    (c : Cursor) : Reading (Option Selection) → Prop
  | noName {fault c₁} (hname : fieldName c = .error (fault, c₁)) :
      FieldCases level selections c (.refuse none fault c₁)
  | whole {aliasName n c₁} (hname : fieldName c = .ok ((aliasName, n), c₁)) :
      FieldCases level selections c (fieldRest level selections aliasName n c₁)

theorem field_iff {level r} : field level selections c = r ↔ FieldCases level selections c r := by
  constructor
  · rintro rfl
    fun_cases field level selections c <;> constructor <;> assumption
  · intro h
    cases h <;> simp only [field, *]

inductive InlineRestCases (level : Nat) (selections : Cursor → Reading (Option SelectionSet))
    (ellipsis : Nat) (condition : Option TypeCondition) (c : Cursor) :
    Reading (Option Selection) → Prop
  | noSet {t rest d} (hd : directives false level c = d) (hahead : d.next.ahead = t :: rest)
      (hkind : t.kind ≠ .lbrace) :
      InlineRestCases level selections ellipsis condition c
        ⟨none,
          withinAll (.rule .inlineFragment)
            (d.faults ++ [.expected .inlineFragmentStart d.next.ahead.head?]), d.next⟩
  | whole {d s} (hd : directives false level c = d)
      (hkind : ∀ t ∈ d.next.ahead.head?, t.kind = .lbrace) (hs : selections d.next = s) :
      InlineRestCases level selections ellipsis condition c
        ⟨s.value.map (.inline ellipsis condition d.value),
          withinAll (.rule .inlineFragment) (d.faults ++ s.faults), s.next⟩

theorem inlineRest_iff {level ellipsis condition r} :
    inlineRest level selections ellipsis condition c = r ↔
      InlineRestCases level selections ellipsis condition c r := by
  constructor
  · rintro rfl
    generalize hd : directives false level c = d
    have hwhole (hkind : ∀ t ∈ d.next.ahead.head?, t.kind = .lbrace) :
        InlineRestCases level selections ellipsis condition c _ := .whole hd hkind rfl
    simp only [withinAll, List.map_append] at hwhole
    rw [inlineRest, hd]
    dsimp only [Reading.within]
    split
    · next t rest hahead =>
        split
        · next hkind => exact hwhole (by simpa [hahead] using hkind)
        · next hkind =>
            have hnone : InlineRestCases level selections ellipsis condition c _ :=
              .noSet hd hahead hkind
            simp only [withinAll, List.map_append, hahead, List.head?_cons] at hnone
            exact hnone
    · next hahead => exact hwhole (by simp [hahead])
  · intro h
    cases h with
    | noSet hd hahead hkind => simp [inlineRest, Reading.within, withinAll, hd, hahead, hkind]
    | @whole d s hd hkind hs =>
        cases hahead : d.next.ahead <;>
          simp_all [inlineRest, Reading.within, withinAll]

inductive SelectionCases (c : Cursor) : (level : Nat) → Reading (Option Selection) → Prop
  | tooDeep : SelectionCases c 0 (.refuse none .tooDeep c)
  | field {level} (hkind : c.kind? ≠ some .ellipsis) :
      SelectionCases c (level + 1) (field level (selectionSet level) c)
  | ended {level t} (hahead : c.ahead = [t]) (hkind : t.kind = .ellipsis) :
      SelectionCases c (level + 1) (.refuse none (.expected .fragmentStart none) (c.past []))
  | noFragment {level t next rest} (hahead : c.ahead = t :: next :: rest)
      (hkind : t.kind = .ellipsis) (hname : next.kind ≠ .name) (hlbrace : next.kind ≠ .lbrace)
      (hatSign : next.kind ≠ .atSign) :
      SelectionCases c (level + 1)
        (.refuse none (.expected .fragmentStartOrDirective (some next)) (c.past (next :: rest)))
  | spread {level t next rest} (hahead : c.ahead = t :: next :: rest) (hkind : t.kind = .ellipsis)
      (hname : next.kind = .name) (hword : next.isWord "on" = false) :
      SelectionCases c (level + 1) (fragmentSpread level t (next :: rest) c)
  | inline {level t next rest} (hahead : c.ahead = t :: next :: rest) (hkind : t.kind = .ellipsis)
      (hstart : next.isWord "on" = true ∨ next.kind = .lbrace ∨ next.kind = .atSign) :
      SelectionCases c (level + 1) (inlineFragment level t (next :: rest) c)

theorem selection_iff {level r} : selection level c = r ↔ SelectionCases c level r := by
  constructor
  · rintro rfl
    cases level with
    | zero => rw [selection]; exact .tooDeep
    | succ level =>
        obtain ⟨_ | ⟨t, rest⟩, behind⟩ := c
        · rw [selection]; exact .field nofun
        · rw [selection]
          dsimp only
          split
          · next hkind =>
              cases rest with
              | nil => exact .ended rfl hkind
              | cons next rest =>
                  dsimp only
                  split
                  · next hspread =>
                      simp only [Bool.and_eq_true, decide_eq_true_eq, Bool.not_eq_true'] at hspread
                      exact .spread rfl hkind hspread.1 hspread.2
                  · next hspread =>
                      split
                      · next hinline => exact .inline rfl hkind (by grind)
                      · next hnone => exact .noFragment rfl hkind (by grind) (by grind) (by grind)
          · next hkind => exact .field fun h => hkind (Option.some.inj h)
  · intro h
    cases h with
    | tooDeep => rw [selection]
    | field hkind =>
        cases hahead : c.ahead with
        | nil => rw [selection, hahead]
        | cons t rest =>
            have ht : t.kind ≠ .ellipsis := by simpa [Cursor.kind?, hahead] using hkind
            simp [selection, hahead, ht]
    | _ => rw [selection]; simp_all [Token.isWord] <;> grind

inductive InlineFragmentCases (ellipsis : Token) (rest : List Token) (c : Cursor) :
    (level : Nat) → Reading (Option Selection) → Prop
  | tooDeep : InlineFragmentCases ellipsis rest c 0 (.refuse none .tooDeep c)
  | noCondition {level fault c₁}
      (hcondition : inlineCondition level (c.past rest) = .error (fault, c₁)) :
      InlineFragmentCases ellipsis rest c (level + 1) (.refuse none fault c₁)
  | whole {level condition c₁}
      (hcondition : inlineCondition level (c.past rest) = .ok (condition, c₁)) :
      InlineFragmentCases ellipsis rest c (level + 1)
        (inlineRest level (selectionSet level) ellipsis.start condition c₁)

theorem inlineFragment_iff {level ellipsis rest r} :
    inlineFragment level ellipsis rest c = r ↔ InlineFragmentCases ellipsis rest c level r := by
  constructor
  · rintro rfl
    cases level with
    | zero => rw [inlineFragment]; exact .tooDeep
    | succ level =>
        rw [inlineFragment]
        split
        · next hcondition => exact .noCondition hcondition
        · next hcondition => exact .whole hcondition
  · intro h
    cases h <;> simp only [inlineFragment, *]

/-! ## Operations -/

/-- What stands behind the colon of a variable or an input value: a type and, if it has no faults,
a default value. -/
inductive DefaultedCases (level : Nat) (c : Cursor) (make : TypeRef → Option DefaultValue → α) :
    Reading (Option α) → Prop
  | badType {t} (ht : typeRef level c = t) (hfaults : t.faults ≠ []) :
      DefaultedCases level c make ⟨some (make t.value none), t.faults, t.next⟩
  | whole {t} (ht : typeRef level c = t) (hfaults : t.faults = []) :
      DefaultedCases level c make ((defaultValue level t.next).map fun d => some (make t.value d))

inductive VariableDefinitionCases (c : Cursor) :
    (level : Nat) → Reading (Option VariableDefinition) → Prop
  | tooDeep : VariableDefinitionCases c 0 (.refuse none .tooDeep c)
  | noVariable {level fault c₁} (hvariable : variableRef c = .error (fault, c₁)) :
      VariableDefinitionCases c (level + 1) (.refuse none fault c₁)
  | noColon {level v fault c₁} (hvariable : variableRef c = .ok (v, c₁))
      (hcolon : punctuator .colon c₁ = .error fault) :
      VariableDefinitionCases c (level + 1) (.refuse (some ⟨v, none, .missing, none⟩) fault c₁)
  | typed {level v colon c₁ c₂ r} (hvariable : variableRef c = .ok (v, c₁))
      (hcolon : punctuator .colon c₁ = .ok (colon, c₂))
      (htype : DefaultedCases level c₂ (fun t d => ⟨v, some colon, t, d⟩) r) :
      VariableDefinitionCases c (level + 1) r

theorem variableDefinition_iff {level r} :
    variableDefinition level c = r ↔ VariableDefinitionCases c level r := by
  constructor
  · rintro rfl
    fun_cases variableDefinition level c with
    | case1 => exact .tooDeep
    | case2 c level fault c₁ hvariable => exact .noVariable hvariable
    | case3 c level v c₁ hvariable fault hcolon => exact .noColon hvariable hcolon
    | case4 c level v c₁ hvariable colon c₂ hcolon t hfaults =>
        exact .typed hvariable hcolon (.whole rfl hfaults)
    | case5 c level v c₁ hvariable colon c₂ hcolon t hfaults =>
        exact .typed hvariable hcolon (.badType rfl hfaults)
  · intro h
    cases h with
    | typed hvariable hcolon htype => cases htype <;> simp only [variableDefinition, *]
    | _ => simp only [variableDefinition, *]

inductive OperationCases (level start : Nat) (type : OperationType) (c : Cursor) :
    Reading (Option Operation) → Prop
  | ended (hahead : c.ahead = []) :
      OperationCases level start type c
        (.refuse none ((Fault.expected .operationRest c.ahead.head?).within (.rule .operation)) c)
  | noBody {t} (hahead : c.ahead = [t]) (hkind : t.kind = .name) :
      OperationCases level start type c
        (.refuse none ((Fault.expected .operationBody none).within (.rule .operation)) (c.past []))
  | named {t next rest} (hahead : c.ahead = t :: next :: rest) (hkind : t.kind = .name) :
      OperationCases level start type c
        (operationRest level start type (some ⟨t.text, t.start⟩) (c.past (next :: rest)))
  | anonymous {t rest} (hahead : c.ahead = t :: rest) (hkind : t.kind ≠ .name) :
      OperationCases level start type c (operationRest level start type none c)

theorem operation_iff {level start type r} :
    operation level start type c = r ↔ OperationCases level start type c r := by
  constructor
  · rintro rfl
    obtain ⟨_ | ⟨t, rest⟩, behind⟩ := c
    · exact .ended rfl
    · rw [operation]
      dsimp only
      split
      · next hkind =>
          cases rest with
          | nil => exact .noBody rfl hkind
          | cons next rest => exact .named rfl hkind
      · next hkind => exact .anonymous rfl hkind
  · intro h
    cases h <;> simp [operation, *]

/-! ## Fragments -/

inductive FragmentDefinitionCases (level keyword : Nat) (c : Cursor) :
    Reading (Option Fragment) → Prop
  | noName {fault} (hname : name c = .error fault) :
      FragmentDefinitionCases level keyword c
        (.refuse none (fault.within (.rule .fragmentDefinition)) c)
  | namedOn {n c₁} (hname : name c = .ok (n, c₁)) (hon : n.value = ("on" : Text)) :
      FragmentDefinitionCases level keyword c
        (.refuse none ((Fault.bare (.fragmentNamedOn n.start)).within (.rule .fragmentDefinition))
          c₁)
  | noCondition {n fault c₁ c₂} (hname : name c = .ok (n, c₁)) (hon : n.value ≠ ("on" : Text))
      (hcondition : typeCondition level c₁ = .error (fault, c₂)) :
      FragmentDefinitionCases level keyword c
        (.refuse none (fault.within (.named .fragmentDefinition n.value)) c₂)
  | whole {n condition c₁ c₂ d s} (hname : name c = .ok (n, c₁)) (hon : n.value ≠ ("on" : Text))
      (hcondition : typeCondition level c₁ = .ok (condition, c₂))
      (hd : directives false level c₂ = d) (hs : selectionSet level d.next = s) :
      FragmentDefinitionCases level keyword c
        ⟨s.value.map (⟨keyword, n, condition, d.value, ·⟩),
          withinAll (.named .fragmentDefinition n.value) (d.faults ++ s.faults), s.next⟩

theorem fragmentDefinition_iff {level keyword r} :
    fragmentDefinition level keyword c = r ↔ FragmentDefinitionCases level keyword c r := by
  constructor
  · rintro rfl
    fun_cases fragmentDefinition level keyword c with
    | case1 fault hname => exact .noName hname
    | case2 n c₁ hname hon => exact .namedOn hname hon
    | case3 n c₁ hname hon fault c₂ hcondition => exact .noCondition hname hon hcondition
    | case4 n c₁ hname hon condition c₂ hcondition d s =>
        exact .whole hname hon hcondition rfl rfl
  · intro h
    cases h <;> simp [fragmentDefinition, *]

end Grammar

end SelectionCheck
