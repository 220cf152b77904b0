import SelectionCheck.Proofs.Document.Faults.Operand
import SelectionCheck.Proofs.Document.Unguarded

/-!
# Values, arguments, directives and type references read without looking

Every rule has the name of the reader that it is compared with.
-/

namespace SelectionCheck.Unguarded

noncomputable section

/-! ## Values -/

def variableRef (c : Cursor) : Option (Except (Fault × Cursor) (Variable × Cursor)) := do
  match ← punctuator .dollar c with
  | .error fault => return .error (fault.within (.rule .var), c)
  | .ok (dollar, c) =>
    match ← name c with
    | .error fault => return .error (fault.within (.rule .var), c)
    | .ok (name, c) => return .ok (⟨dollar, name⟩, c)

def variableValue (constant : Bool) (c : Cursor) : Option (Reading Value) := do
  match ← variableRef c with
  | .error (fault, c) => return .refuse .missing (fault.within (.rule .value)) c
  | .ok (var, c) =>
    let faults :=
      if constant then [(Fault.bare (.variableInConstant var.dollar)).within (.rule .value)] else []
    return ⟨.var var, faults, c⟩

def objectField (value : Cursor → Option (Reading Value)) (c : Cursor) :
    Option (Reading (Option ObjectField)) := do
  match ← name c with
  | .error fault => return .refuse none fault c
  | .ok (name, c) =>
    match ← punctuator .colon c with
    | .error fault => return .refuse none fault c
    | .ok (colon, c) => return (← value c).map fun v => some ⟨name, colon, v⟩

mutual

def value (constant : Bool) : (level : Nat) → Cursor → Option (Reading Value)
  | 0, c => return .refuse .missing .tooDeep c
  | level + 1, c =>
    c.peek (return .refuse .missing ((Fault.bare (.noValue none)).within (.rule .value)) c) fun t =>
      match Grammar.literal? t with
      | some v => return ⟨v, [], (← c.take?).2⟩
      | none =>
        match t.kind with
        | .dollar => variableValue constant c
        | .lbracket => listValue constant level c
        | .lbrace => objectValue constant level c
        | _ => return .refuse .missing ((Fault.bare (.noValue (some t))).within (.rule .value)) c

def listValue (constant : Bool) : (level : Nat) → Cursor → Option (Reading Value)
  | 0, c => return .refuse .tooDeep .tooDeep c
  | level + 1, c => do
    let item := fun c => return (← value constant level c).map some
    return (← bracketed .lbracket .rbracket .listValue item c).map fun list =>
      (list.map Value.list).getD .tooDeep

def objectValue (constant : Bool) : (level : Nat) → Cursor → Option (Reading Value)
  | 0, c => return .refuse .tooDeep .tooDeep c
  | level + 1, c => do
    let object ← bracketed .lbrace .rbrace .objectField (objectField (value constant level)) c
    return (object.within (.rule .objectValue)).map fun object =>
      (object.map Value.object).getD .tooDeep

end

def defaultValue : (level : Nat) → Cursor → Option (Reading (Option DefaultValue))
  | 0, c => return .refuse none .tooDeep c
  | level + 1, c =>
    c.peek (return ⟨none, [], c⟩) fun t =>
      if t.kind = .equals then do
        let (equals, c) ← c.take?
        return ((← value true level c).within (.rule .defaultValue)).map fun v =>
          some ⟨equals.start, v⟩
      else return ⟨none, [], c⟩

theorem variableRef_eq (c : Cursor) : variableRef c = pure (Grammar.variableRef c) := by
  generalize hr : Grammar.variableRef c = r
  cases Grammar.variableRef_iff.1 hr <;>
    simp only [variableRef, punctuator_eq, name_eq, pure_bind, *]

theorem variableValue_eq (constant : Bool) (c : Cursor) :
    variableValue constant c = pure (Grammar.variableValue constant c) := by
  generalize hr : Grammar.variableValue constant c = r
  cases Grammar.variableValue_iff.1 hr <;>
    simp [variableValue, variableRef_eq, *]

theorem objectField_eq {value? : Cursor → Option (Reading Value)} {value : Cursor → Reading Value}
    (h : ∀ c, value? c = pure (value c)) (c : Cursor) :
    objectField value? c = pure (Grammar.objectField value c) := by
  generalize hr : Grammar.objectField value c = r
  cases Grammar.objectField_iff.1 hr <;>
    simp only [objectField, name_eq, punctuator_eq, pure_bind, *]

structure ValuesSame (constant : Bool) (level : Nat) : Prop where
  value : ∀ c, value constant level c = pure (Grammar.value constant level c)
  list : ∀ c, listValue constant level c = pure (Grammar.listValue constant level c)
  object : ∀ c, objectValue constant level c = pure (Grammar.objectValue constant level c)

theorem value_succ_eq {constant : Bool} {level : Nat} (h : ValuesSame constant level)
    (c : Cursor) : value constant (level + 1) c = pure (Grammar.value constant (level + 1) c) := by
  generalize hr : Grammar.value constant (level + 1) c = r
  rw [value]
  obtain ⟨ahead, behind⟩ := c
  cases Grammar.value_iff.1 hr with
  | nothing hnone =>
      cases ahead with
      | nil => rfl
      | cons t rest =>
          simp only [List.head?_cons, Option.mem_some_iff, forall_eq', Grammar.compoundHeads,
            List.mem_cons, not_or] at hnone
          simp [peek_cons, hnone]
  | literal hahead hliteral =>
      cases hahead
      simp only [peek_cons, take?_cons, hliteral, pure_bind]
      rfl
  | var hahead hkind =>
      cases hahead
      simpa [peek_cons, Grammar.literal?, hkind] using variableValue_eq constant _
  | list hahead hkind =>
      cases hahead
      simpa [peek_cons, Grammar.literal?, hkind] using h.list _
  | object hahead hkind =>
      cases hahead
      simpa [peek_cons, Grammar.literal?, hkind] using h.object _

theorem valuesSame (constant : Bool) (level : Nat) : ValuesSame constant level := by
  induction level with
  | zero =>
      refine ⟨fun c => ?_, fun c => ?_, fun c => ?_⟩
      · rw [value, Grammar.value]
      · rw [listValue, Grammar.listValue]
      · rw [objectValue, Grammar.objectValue]
  | succ level ih =>
      have hvalue := Grammar.value_orderly constant level
      refine ⟨value_succ_eq ih, fun c => ?_, fun c => ?_⟩
      · have horderly : Grammar.Orderly fun c => (Grammar.value constant level c).map some :=
          fun _ _ hc => (hvalue hc).map some
        rw [listValue, Grammar.listValue, bracketed_eq horderly fun c _ => by rw [ih.value]; rfl]
        rfl
      · rw [objectValue, Grammar.objectValue, bracketed_eq (Grammar.objectField_orderly hvalue)
          fun c _ => objectField_eq ih.value c]
        rfl

theorem value_eq (constant : Bool) (level : Nat) (c : Cursor) :
    value constant level c = pure (Grammar.value constant level c) :=
  (valuesSame constant level).value c

theorem defaultValue_eq (level : Nat) (c : Cursor) :
    defaultValue level c = pure (Grammar.defaultValue level c) := by
  generalize hr : Grammar.defaultValue level c = r
  cases Grammar.defaultValue_iff.1 hr with
  | tooDeep => rfl
  | absent hequals => exact peek_of_error hequals
  | whole hequals =>
      obtain ⟨t, rfl, htake, hpeek⟩ := peek_of_ok hequals
      rw [defaultValue, hpeek, htake]
      simp only [pure_bind, value_eq]

/-! ## Arguments and directives -/

def argument (constant : Bool) : (level : Nat) → Cursor → Option (Reading (Option Argument))
  | 0, c => return .refuse none .tooDeep c
  | level + 1, c => do
    match ← name c with
    | .error fault => return .refuse none fault c
    | .ok (name, c) =>
      match ← punctuator .colon c with
      | .error fault => return .refuse none fault c
      | .ok (colon, c) => return (← value constant level c).map fun v => some ⟨name, colon, v⟩

def arguments (constant : Bool) (level : Nat) :
    Cursor → Option (Reading (Option (Bracketed Argument))) :=
  nonEmpty .lparen .rparen .arguments .argument (argument constant) level

def directivesFrom (constant : Bool) (level : Nat) (c : Cursor) (directives : List Directive)
    (faults : List Fault) : Option (Reading (List Directive)) :=
  loop (c, directives, faults) fun (c, directives, faults) =>
    c.peek (return .inl ⟨directives.reverse, faults.reverse, c⟩) fun t =>
      if t.kind = .atSign then do
        let (sign, c) ← c.take?
        match ← name c with
        | .error fault =>
          return .inl ⟨directives.reverse, (fault.within (.rule .directive) :: faults).reverse, c⟩
        | .ok (name, c) =>
          let r := (← whenNext .lparen (arguments constant level) c).within (.directive name.value)
          return .inr (r.next, ⟨sign.start, name, r.value⟩ :: directives,
            r.faults.reverse ++ faults)
      else return .inl ⟨directives.reverse, faults.reverse, c⟩

def directives (constant : Bool) : (level : Nat) → Cursor → Option (Reading (List Directive))
  | 0, c => return .refuse [] .tooDeep c
  | level + 1, c => directivesFrom constant level c [] []

theorem argument_eq (constant : Bool) (level : Nat) (c : Cursor) :
    argument constant level c = pure (Grammar.argument constant level c) := by
  cases level with
  | zero => rfl
  | succ level =>
      rw [Grammar.argument_succ]
      generalize hr : Grammar.objectField (Grammar.value constant level) c = r
      cases Grammar.objectField_iff.1 hr <;>
        simp only [argument, name_eq, punctuator_eq, value_eq, pure_bind, *] <;> rfl

theorem arguments_eq (constant : Bool) (level : Nat) (c : Cursor) :
    arguments constant level c = pure (Grammar.arguments constant level c) :=
  nonEmpty_eq (Grammar.argument_orderly constant) (argument_eq constant) _ level c

theorem directivesFrom_eq (constant : Bool) (level : Nat) {steps : List Token} {c : Cursor}
    (hsteps : c.ahead.length ≤ steps.length) (directives : List Directive) (faults : List Fault) :
    directivesFrom constant level c directives faults =
      pure (Grammar.directivesFrom constant level steps c directives faults) := by
  induction steps generalizing c directives faults with
  | nil =>
      obtain ⟨_ | ⟨t, rest⟩, behind⟩ := c
      · exact loop_of_ends rfl
      · cases hsteps
  | cons step steps ih =>
      generalize hr : Grammar.directivesFrom constant level (step :: steps) c directives faults = r
      cases Grammar.directivesFrom_iff.1 hr with
      | absent hsign => exact loop_of_ends (peek_of_error hsign)
      | noName hsign hname =>
          obtain ⟨t, rfl, htake, hpeek⟩ := peek_of_ok hsign
          refine loop_of_ends ((hpeek _ _).trans ?_)
          simp only [htake, pure_bind, name_eq, hname]
          rfl
      | @more _ _ sign n c₁ c₂ r hsign hname harguments =>
          obtain ⟨t, rfl, htake, hpeek⟩ := peek_of_ok hsign
          have horderly :=
            Grammar.whenNext_orderly (Grammar.arguments_orderly constant level) .lparen
          have hle := (horderly.length_add_behind c₂).1.length_le
          have hlength := length_of_name hname
          have hsign' := length_of_punctuator hsign
          rw [List.length_cons] at hsteps
          refine (loop_of_goesOn ?_).trans (ih ?_ _ _)
          · refine (hpeek _ _).trans ?_
            simp only [htake, pure_bind, name_eq, hname, whenNext_eq (arguments_eq constant level),
              harguments]
            rfl
          · rw [← harguments]
            omega

theorem directives_eq (constant : Bool) (level : Nat) (c : Cursor) :
    directives constant level c = pure (Grammar.directives constant level c) := by
  cases level with
  | zero => rfl
  | succ level => exact directivesFrom_eq constant level (Nat.le_refl _) [] []

/-! ## Type references -/

def bang (c : Cursor) : Option (Option Nat × Cursor) :=
  c.peek (return (none, c)) fun t =>
    if t.kind = .bang then do
      let (t, c) ← c.take?
      return (some t.start, c)
    else return (none, c)

def listTypeRest (opening : Nat) (element : Reading TypeRef) : Option (Reading TypeRef) := do
  match ← punctuator .rbracket element.next with
  | .error fault =>
    return ⟨.list opening element.value none none,
      withinAll (.rule .listType) (element.faults ++ [fault]), element.next⟩
  | .ok (closing, c) =>
    match element.faults with
    | [] =>
      let mark ← bang c
      return ⟨.list opening element.value (some closing) mark.1, [], mark.2⟩
    | faults =>
      return ⟨.list opening element.value (some closing) none,
        withinAll (.rule .listType) faults, c⟩

def typeRef : (level : Nat) → Cursor → Option (Reading TypeRef)
  | level, c =>
    c.peek (return .refuse .missing ((Fault.expected .typeStart none).within (.rule .type)) c)
      fun t =>
        match level with
        | 0 => return .refuse .missing .tooDeep c
        | level + 1 =>
          if t.kind = .name then do
            let (t, c) ← c.take?
            let mark ← bang c
            return ⟨.named ⟨t.text, t.start⟩ mark.1, [], mark.2⟩
          else if t.kind = .lbracket then do
            let (t, c) ← c.take?
            listTypeRest t.start (← typeRef level c)
          else return .refuse .missing ((Fault.expected .typeStart (some t)).within (.rule .type)) c

theorem bang_eq (c : Cursor) : bang c = pure (Grammar.bang c) := by
  generalize hr : Grammar.bang c = r
  cases Grammar.bang_iff.1 hr with
  | absent hbang => exact peek_of_error hbang
  | found hbang =>
      obtain ⟨t, rfl, htake, hpeek⟩ := peek_of_ok hbang
      rw [bang, hpeek, htake]
      rfl

theorem listTypeRest_eq (opening : Nat) (element : Reading TypeRef) :
    listTypeRest opening element = pure (Grammar.listTypeRest opening element) := by
  generalize hr : Grammar.listTypeRest opening element = r
  cases Grammar.listTypeRest_iff.1 hr <;>
    simp only [listTypeRest, punctuator_eq, bang_eq, pure_bind, *]

theorem typeRef_eq (level : Nat) (c : Cursor) :
    typeRef level c = pure (Grammar.typeRef level c) := by
  generalize hr : Grammar.typeRef level c = r
  induction Grammar.typeRef_iff.1 hr with
  | @ended level c hahead =>
      obtain ⟨ahead, behind⟩ := c
      cases hahead
      rw [typeRef]
      rfl
  | @tooDeep c hahead =>
      obtain ⟨_ | ⟨t, rest⟩, behind⟩ := c
      · exact absurd rfl hahead
      · rw [typeRef]
        rfl
  | @noType level t rest c hahead hname hlbracket =>
      obtain ⟨ahead, behind⟩ := c
      cases hahead
      rw [typeRef]
      simp [peek_cons, hname, hlbracket]
  | @named level t rest c hahead hname =>
      obtain ⟨ahead, behind⟩ := c
      cases hahead
      rw [typeRef]
      simp only [peek_cons, take?_cons, pure_bind, bang_eq, if_pos hname]
      rfl
  | @list level t rest element c hahead hlbracket helement ih =>
      obtain ⟨ahead, behind⟩ := c
      cases hahead
      have hread : typeRef level ⟨rest, behind + 1⟩ = pure element :=
        ih (Grammar.typeRef_iff.2 helement)
      rw [typeRef]
      simp [peek_cons, take?_cons, hlbracket, hread, listTypeRest_eq]

end

end SelectionCheck.Unguarded
