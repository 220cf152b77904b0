import SelectionCheck.Proofs.Document.Piece

/-!
# The cases of a rule

For every rule of the grammar that branches there is a relation between the cursor at which the
rule is applied and what it gives there, with one constructor for each way in which the rule can
end. What the rule gives is one of its cases, and each case is what the rule gives
(`variableRef_iff` and its kin). Everything else that is said about a rule is said case by case, so
that no other module depends on how the rule is written.

This module has the rules for names, punctuators and lists, and those for values, directives and
types.
-/

namespace SelectionCheck.Grammar

variable {α : Type} {c : Cursor}

/-! ## Names, punctuators and lists -/

inductive NameCases (c : Cursor) : Except Fault (Name × Cursor) → Prop
  | absent (hkind : c.kind? ≠ some .name) : NameCases c (.error (.expected .name c.ahead.head?))
  | found {t rest} (hahead : c.ahead = t :: rest) (hkind : t.kind = .name) :
      NameCases c (.ok (⟨t.text, t.start⟩, c.past rest))

theorem name_iff {r} : name c = r ↔ NameCases c r := by
  obtain ⟨ahead, behind⟩ := c
  constructor
  · rintro rfl
    fun_cases name ⟨ahead, behind⟩ with
    | case1 hahead => cases hahead; exact .absent nofun
    | case2 t rest hahead hkind => exact .found hahead hkind
    | case3 t rest hahead hkind => cases hahead; exact .absent fun h => hkind (Option.some.inj h)
  · rintro (hkind | ⟨hahead, hkind⟩)
    · cases ahead with
      | nil => rfl
      | cons t rest => exact if_neg fun h => hkind (congrArg some h)
    · cases hahead
      exact if_pos hkind

inductive PunctuatorCases (kind : Token.Kind) (c : Cursor) : Except Fault (Nat × Cursor) → Prop
  | absent (hkind : c.kind? ≠ some kind) :
      PunctuatorCases kind c (.error (.expected (.punctuator kind) c.ahead.head?))
  | found {t rest} (hahead : c.ahead = t :: rest) (hkind : t.kind = kind) :
      PunctuatorCases kind c (.ok (t.start, c.past rest))

theorem punctuator_iff {kind r} : punctuator kind c = r ↔ PunctuatorCases kind c r := by
  obtain ⟨ahead, behind⟩ := c
  constructor
  · rintro rfl
    fun_cases punctuator kind ⟨ahead, behind⟩ with
    | case1 hahead => cases hahead; exact .absent nofun
    | case2 t rest hahead hkind => exact .found hahead hkind
    | case3 t rest hahead hkind => cases hahead; exact .absent fun h => hkind (Option.some.inj h)
  · rintro (hkind | ⟨hahead, hkind⟩)
    · cases ahead with
      | nil => rfl
      | cons t rest => exact if_neg fun h => hkind (congrArg some h)
    · cases hahead
      exact if_pos hkind

inductive BracketedCases (opener closer : Token.Kind) (rule : Rule)
    (item : Cursor → Reading (Option α)) (c : Cursor) : Reading (Option (Bracketed α)) → Prop
  | unopened {fault} (hopening : punctuator opener c = .error fault) :
      BracketedCases opener closer rule item c (.refuse none fault c)
  | opened {opening c₁} (hopening : punctuator opener c = .ok (opening, c₁)) :
      BracketedCases opener closer rule item c
        ((itemsFrom closer rule item c₁.ahead 1 c₁ [] []).map fun (items, closing) =>
          some ⟨opening, items, closing⟩)

theorem bracketed_iff {opener closer rule} {item : Cursor → Reading (Option α)} {r} :
    bracketed opener closer rule item c = r ↔ BracketedCases opener closer rule item c r := by
  constructor
  · rintro rfl
    fun_cases bracketed opener closer rule item c <;> constructor <;> assumption
  · intro h
    cases h <;> simp only [bracketed, *]

/-! ## Values -/

inductive VariableRefCases (c : Cursor) : Except (Fault × Cursor) (Variable × Cursor) → Prop
  | noDollar {fault} (hdollar : punctuator .dollar c = .error fault) :
      VariableRefCases c (.error (fault.within (.rule .var), c))
  | noName {dollar fault c₁} (hdollar : punctuator .dollar c = .ok (dollar, c₁))
      (hname : name c₁ = .error fault) :
      VariableRefCases c (.error (fault.within (.rule .var), c₁))
  | whole {dollar n c₁ c₂} (hdollar : punctuator .dollar c = .ok (dollar, c₁))
      (hname : name c₁ = .ok (n, c₂)) : VariableRefCases c (.ok (⟨dollar, n⟩, c₂))

theorem variableRef_iff {r} : variableRef c = r ↔ VariableRefCases c r := by
  constructor
  · rintro rfl
    fun_cases variableRef c with
    | case1 fault hdollar => exact .noDollar hdollar
    | case2 dollar c₁ hdollar fault hname => exact .noName hdollar hname
    | case3 dollar c₁ hdollar n c₂ hname => exact .whole hdollar hname
  · intro h
    cases h <;> simp only [variableRef, *]

inductive VariableValueCases (c : Cursor) : (constant : Bool) → Reading Value → Prop
  | noVariable {constant fault c₁} (hvariable : variableRef c = .error (fault, c₁)) :
      VariableValueCases c constant (.refuse .missing (fault.within (.rule .value)) c₁)
  | inConstant {v c₁} (hvariable : variableRef c = .ok (v, c₁)) :
      VariableValueCases c true
        ⟨.var v, [(Fault.bare (.variableInConstant v.dollar)).within (.rule .value)], c₁⟩
  | whole {v c₁} (hvariable : variableRef c = .ok (v, c₁)) :
      VariableValueCases c false ⟨.var v, [], c₁⟩

theorem variableValue_iff {constant r} :
    variableValue constant c = r ↔ VariableValueCases c constant r := by
  constructor
  · rintro rfl
    cases constant <;> fun_cases variableValue _ c <;> constructor <;> assumption
  · intro h
    cases h <;> simp only [variableValue, *] <;> rfl

inductive ObjectFieldCases (value : Cursor → Reading Value) (c : Cursor) :
    Reading (Option ObjectField) → Prop
  | noName {fault} (hname : name c = .error fault) :
      ObjectFieldCases value c (.refuse none fault c)
  | noColon {n fault c₁} (hname : name c = .ok (n, c₁))
      (hcolon : punctuator .colon c₁ = .error fault) :
      ObjectFieldCases value c (.refuse none fault c₁)
  | whole {n colon c₁ c₂} (hname : name c = .ok (n, c₁))
      (hcolon : punctuator .colon c₁ = .ok (colon, c₂)) :
      ObjectFieldCases value c ((value c₂).map fun v => some ⟨n, colon, v⟩)

theorem objectField_iff {value r} : objectField value c = r ↔ ObjectFieldCases value c r := by
  constructor
  · rintro rfl
    fun_cases objectField value c with
    | case1 fault hname => exact .noName hname
    | case2 n c₁ hname fault hcolon => exact .noColon hname hcolon
    | case3 n c₁ hname colon c₂ hcolon => exact .whole hname hcolon
  · intro h
    cases h <;> simp only [objectField, *]

inductive LiteralCases (t : Token) : Value → Prop
  | null (hkind : t.kind = .name) : LiteralCases t (.null ⟨t.text, t.start⟩)
  | scalar {kind : ScalarKind} (hkind : t.kind = kind.tokenKind) :
      LiteralCases t (.scalar t.start kind t.text)

theorem literal?_cases {t : Token} {v : Value} (h : literal? t = some v) : LiteralCases t v := by
  revert h
  fun_cases literal? t with
  | case4 hkind =>
      rintro ⟨⟩
      exact .null hkind
  | case7 => rintro ⟨⟩
  | _ =>
      rintro ⟨⟩
      exact .scalar (by assumption)

/-- The kinds of token with which a value begins that is not a literal. -/
def compoundHeads : List Token.Kind := [.dollar, .lbracket, .lbrace]

inductive ValueCases (constant : Bool) (c : Cursor) : (level : Nat) → Reading Value → Prop
  | tooDeep : ValueCases constant c 0 (.refuse .missing .tooDeep c)
  | nothing {level} (hnone : ∀ t ∈ c.ahead.head?, literal? t = none ∧ t.kind ∉ compoundHeads) :
      ValueCases constant c (level + 1)
        (.refuse .missing ((Fault.bare (.noValue c.ahead.head?)).within (.rule .value)) c)
  | literal {level t rest v} (hahead : c.ahead = t :: rest) (hliteral : literal? t = some v) :
      ValueCases constant c (level + 1) ⟨v, [], c.past rest⟩
  | var {level t rest} (hahead : c.ahead = t :: rest) (hkind : t.kind = .dollar) :
      ValueCases constant c (level + 1) (variableValue constant c)
  | list {level t rest} (hahead : c.ahead = t :: rest) (hkind : t.kind = .lbracket) :
      ValueCases constant c (level + 1) (listValue constant level c)
  | object {level t rest} (hahead : c.ahead = t :: rest) (hkind : t.kind = .lbrace) :
      ValueCases constant c (level + 1) (objectValue constant level c)

theorem value_iff {constant level r} :
    value constant level c = r ↔ ValueCases constant c level r := by
  constructor
  · rintro rfl
    cases level with
    | zero =>
        rw [value]
        exact .tooDeep
    | succ level =>
        obtain ⟨_ | ⟨t, rest⟩, behind⟩ := c
        · rw [value]
          exact .nothing nofun
        · rw [value]
          dsimp only
          split
          · next v hliteral => exact .literal rfl hliteral
          · next hliteral =>
              split
              · next hkind => exact .var rfl hkind
              · next hkind => exact .list rfl hkind
              · next hkind => exact .object rfl hkind
              · next hdollar hlbracket hlbrace =>
                  refine .nothing ?_
                  rintro _ ⟨⟩
                  exact ⟨hliteral, by simpa [compoundHeads] using ⟨hdollar, hlbracket, hlbrace⟩⟩
  · intro h
    cases h with
    | tooDeep => rw [value]
    | nothing hnone =>
        cases hahead : c.ahead with
        | nil => simp only [value, hahead, List.head?_nil]
        | cons t rest =>
            simp only [hahead, List.head?_cons, Option.mem_some_iff, forall_eq', compoundHeads,
              List.mem_cons, not_or] at hnone
            simp [value, hahead, hnone]
    | literal hahead hliteral => simp only [value, hahead, hliteral]
    | var hahead hkind | list hahead hkind | object hahead hkind =>
        simp [value, literal?, hahead, hkind]

inductive DefaultValueCases (c : Cursor) : (level : Nat) → Reading (Option DefaultValue) → Prop
  | tooDeep : DefaultValueCases c 0 (.refuse none .tooDeep c)
  | absent {level fault} (hequals : punctuator .equals c = .error fault) :
      DefaultValueCases c (level + 1) ⟨none, [], c⟩
  | whole {level equals c₁} (hequals : punctuator .equals c = .ok (equals, c₁)) :
      DefaultValueCases c (level + 1)
        (((value true level c₁).within (.rule .defaultValue)).map fun v => some ⟨equals, v⟩)

theorem defaultValue_iff {level r} : defaultValue level c = r ↔ DefaultValueCases c level r := by
  constructor
  · rintro rfl
    fun_cases defaultValue level c with
    | case1 c => exact .tooDeep
    | case2 c level fault hequals => exact .absent hequals
    | case3 c level equals c₁ hequals => exact .whole hequals
  · intro h
    cases h <;> simp only [defaultValue, *]

/-! ## Arguments and directives -/

def argumentOf : ObjectField → Argument
  | ⟨name, colon, value⟩ => ⟨name, colon, value⟩

theorem argument_succ (constant : Bool) (level : Nat) (c : Cursor) :
    argument constant (level + 1) c =
      (objectField (value constant level) c).map (·.map argumentOf) := by
  rw [argument, objectField]
  split
  · rfl
  · split <;> rfl

inductive DirectivesFromCases (constant : Bool) (level : Nat) (c : Cursor)
    (directives : List Directive) (faults : List Fault) :
    (steps : List Token) → Reading (List Directive) → Prop
  | stop : DirectivesFromCases constant level c directives faults []
      ⟨directives.reverse, faults.reverse, c⟩
  | absent {step steps fault} (hsign : punctuator .atSign c = .error fault) :
      DirectivesFromCases constant level c directives faults (step :: steps)
        ⟨directives.reverse, faults.reverse, c⟩
  | noName {step steps sign fault c₁} (hsign : punctuator .atSign c = .ok (sign, c₁))
      (hname : name c₁ = .error fault) :
      DirectivesFromCases constant level c directives faults (step :: steps)
        ⟨directives.reverse, (fault.within (.rule .directive) :: faults).reverse, c₁⟩
  | more {step steps sign n c₁ c₂} {r : Reading (Option (Bracketed Argument))}
      (hsign : punctuator .atSign c = .ok (sign, c₁)) (hname : name c₁ = .ok (n, c₂))
      (harguments : whenNext .lparen (arguments constant level) c₂ = r) :
      DirectivesFromCases constant level c directives faults (step :: steps)
        (directivesFrom constant level steps r.next (⟨sign, n, r.value⟩ :: directives)
          ((withinAll (.directive n.value) r.faults).reverse ++ faults))

theorem directivesFrom_iff {constant level steps directives faults r} :
    directivesFrom constant level steps c directives faults = r ↔
      DirectivesFromCases constant level c directives faults steps r := by
  constructor
  · rintro rfl
    fun_cases directivesFrom constant level steps c directives faults with
    | case1 c directives faults => exact .stop
    | case2 c directives faults step steps fault hsign => exact .absent hsign
    | case3 c directives faults step steps sign c₁ hsign fault hname => exact .noName hsign hname
    | case4 c directives faults step steps sign c₁ hsign n c₂ hname r => exact .more hsign hname rfl
  · intro h
    cases h <;> simp only [directivesFrom, Reading.within, *]

/-! ## Type references -/

inductive BangCases (c : Cursor) : Option Nat × Cursor → Prop
  | absent {fault} (hbang : punctuator .bang c = .error fault) : BangCases c (none, c)
  | found {offset c₁} (hbang : punctuator .bang c = .ok (offset, c₁)) :
      BangCases c (some offset, c₁)

theorem bang_iff {r} : bang c = r ↔ BangCases c r := by
  constructor
  · rintro rfl
    fun_cases bang c with
    | case1 fault hbang => exact .absent hbang
    | case2 offset c₁ hbang => exact .found hbang
  · intro h
    cases h <;> simp only [bang, *]

inductive ListTypeRestCases (opening : Nat) (element : Reading TypeRef) : Reading TypeRef → Prop
  | unclosed {fault} (hclosing : punctuator .rbracket element.next = .error fault) :
      ListTypeRestCases opening element
        ⟨.list opening element.value none none,
          withinAll (.rule .listType) (element.faults ++ [fault]), element.next⟩
  | badElement {closing c₁} (hclosing : punctuator .rbracket element.next = .ok (closing, c₁))
      (hfaults : element.faults ≠ []) :
      ListTypeRestCases opening element
        ⟨.list opening element.value (some closing) none,
          withinAll (.rule .listType) element.faults, c₁⟩
  | whole {closing c₁} (hclosing : punctuator .rbracket element.next = .ok (closing, c₁))
      (hfaults : element.faults = []) :
      ListTypeRestCases opening element
        ⟨.list opening element.value (some closing) (bang c₁).1, [], (bang c₁).2⟩

theorem listTypeRest_iff {opening element r} :
    listTypeRest opening element = r ↔ ListTypeRestCases opening element r := by
  constructor
  · rintro rfl
    fun_cases listTypeRest opening element with
    | case1 fault hclosing => exact .unclosed hclosing
    | case2 closing c₁ hclosing hfaults mark => exact .whole hclosing hfaults
    | case3 closing c₁ hclosing hfaults => exact .badElement hclosing hfaults
  · intro h
    cases h <;> simp only [listTypeRest, *]

/-- The element of a list is read one level further in, so that the cases of a type reference
include those of its element. -/
inductive TypeRefCases : (level : Nat) → Cursor → Reading TypeRef → Prop
  | ended {level : Nat} {c : Cursor} (hahead : c.ahead = []) :
      TypeRefCases level c
        (.refuse .missing ((Fault.expected .typeStart c.ahead.head?).within (.rule .type)) c)
  | tooDeep {c : Cursor} (hahead : c.ahead ≠ []) : TypeRefCases 0 c (.refuse .missing .tooDeep c)
  | noType {level t rest} {c : Cursor} (hahead : c.ahead = t :: rest) (hname : t.kind ≠ .name)
      (hlbracket : t.kind ≠ .lbracket) :
      TypeRefCases (level + 1) c
        (.refuse .missing ((Fault.expected .typeStart c.ahead.head?).within (.rule .type)) c)
  | named {level t rest} {c : Cursor} (hahead : c.ahead = t :: rest) (hname : t.kind = .name) :
      TypeRefCases (level + 1) c
        ⟨.named ⟨t.text, t.start⟩ (bang (c.past rest)).1, [], (bang (c.past rest)).2⟩
  | list {level t rest element} {c : Cursor} (hahead : c.ahead = t :: rest)
      (hlbracket : t.kind = .lbracket) (helement : TypeRefCases level (c.past rest) element) :
      TypeRefCases (level + 1) c (listTypeRest t.start element)

theorem typeRef_iff {level r} : typeRef level c = r ↔ TypeRefCases level c r := by
  constructor
  · rintro rfl
    induction level generalizing c with
    | zero =>
        obtain ⟨_ | ⟨t, rest⟩, behind⟩ := c
        · exact .ended rfl
        · exact .tooDeep nofun
    | succ level ih =>
        obtain ⟨_ | ⟨t, rest⟩, behind⟩ := c
        · exact .ended rfl
        · rw [typeRef]
          dsimp only
          split
          · next hname => exact .named rfl hname
          · next hname =>
              split
              · next hlbracket => exact .list rfl hlbracket ih
              · next hlbracket => exact .noType rfl hname hlbracket
  · intro h
    induction h with
    | ended hahead =>
        rw [typeRef, hahead]
        rfl
    | @tooDeep c hahead =>
        obtain ⟨t, rest, hcons⟩ := List.exists_cons_of_ne_nil hahead
        rw [typeRef, hcons]
    | noType hahead hname hlbracket =>
        rw [typeRef, hahead]
        simp only [if_neg hname, if_neg hlbracket, List.head?_cons]
    | named hahead hname =>
        rw [typeRef, hahead]
        exact if_pos hname
    | list hahead hlbracket _ ih =>
        rw [typeRef, hahead]
        simp [hlbracket, ih]

end SelectionCheck.Grammar
