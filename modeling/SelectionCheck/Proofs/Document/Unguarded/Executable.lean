import SelectionCheck.Proofs.Document.Faults.Executable
import SelectionCheck.Proofs.Document.Unguarded.Operand

/-!
# Operations and fragments read without looking

Some rules check once more what their callers checked before, and others rely on their callers:
an operation is read where there is a token. What a rule says about a token that no caller leads it
to is of no account.
-/

namespace SelectionCheck.Unguarded

noncomputable section

variable {α : Type}

/-- Reads what follows a token that must come first. There is no rule for what follows if the
nesting limit is reached. -/
def led (wanted : Wanted) (rule : Rule) (leads : Token → Bool)
    (next : Option (Token → Cursor → Option (Reading (Option α)))) (c : Cursor) :
    Option (Reading (Option α)) :=
  c.peek (return .refuse none ((Fault.expected wanted none).within (.rule rule)) c) fun t =>
    match next with
    | none => return .refuse none .tooDeep c
    | some next =>
      if leads t then do
        let (t, c) ← c.take?
        next t c
      else return .refuse none ((Fault.expected wanted (some t)).within (.rule rule)) c

theorem led_eq {wanted : Wanted} {rule : Rule} {leads : Token → Bool} {t : Token}
    (h : leads t = true) (next : Token → Cursor → Option (Reading (Option α)))
    (rest : List Token) (behind : Nat) :
    led wanted rule leads (some next) ⟨t :: rest, behind⟩ = next t ⟨rest, behind + 1⟩ := by
  simp only [led, peek_cons, h, if_true, take?_cons, pure_bind]

/-! ## Selections -/

def typeCondition (level : Nat) (c : Cursor) :
    Option (Except (Fault × Cursor) (TypeCondition × Cursor)) :=
  c.peek (return .error ((Fault.expected .typeCondition none).within (.rule .typeCondition), c))
    fun t =>
      match level with
      | 0 => return .error (.tooDeep, c)
      | _ + 1 =>
        if t.isWord "on" then do
          let (t, c) ← c.take?
          match ← name c with
          | .error fault => return .error (fault, c)
          | .ok (name, c) => return .ok (⟨t.start, name⟩, c)
        else
          return .error ((Fault.expected .typeCondition (some t)).within (.rule .typeCondition), c)

def fragmentSpread : (level : Nat) → Cursor → Option (Reading (Option Selection))
  | 0 => led (.punctuator .ellipsis) .fragmentSpread (·.kind = .ellipsis) none
  | level + 1 =>
    led (.punctuator .ellipsis) .fragmentSpread (·.kind = .ellipsis) <| some fun t c => do
      match ← name c with
      | .error fault => return .refuse none (fault.within (.rule .fragmentSpread)) c
      | .ok (name, c) =>
        let d := (← directives false level c).within (.named .fragmentSpread name.value)
        return d.map fun directives => some (.spread t.start name directives)

section

variable (level : Nat) (selections : Cursor → Option (Reading (Option SelectionSet)))

def fieldRest (aliasName : Option Name) (name : Name) (c : Cursor) :
    Option (Reading (Option Selection)) :=
  c.peek (return ⟨some (.field aliasName name none [] none), [], c⟩) fun _ => do
    let a ← ifNext .lparen (arguments false level) c
    let d ← directives false level a.next
    let s ← whenNext .lbrace selections d.next
    return ⟨some (.field aliasName name a.value d.value s.value),
      withinAll (.named .field name.value) (a.faults ++ d.faults ++ s.faults), s.next⟩

/-- Reads a field. A name with a colon behind it is an alias. -/
def field (c : Cursor) : Option (Reading (Option Selection)) := do
  match ← name c with
  | .error fault => return .refuse none (fault.within (.rule .field)) c
  | .ok (first, c) =>
    c.peek (fieldRest level selections none first c) fun t =>
      if t.kind = .colon then do
        let (_, c) ← c.take?
        match ← name c with
        | .error fault => return .refuse none (fault.within (.named .field first.value)) c
        | .ok (second, c) => fieldRest level selections (some first) second c
      else fieldRest level selections none first c

def inlineRest (ellipsis : Nat) (condition : Option TypeCondition) (c : Cursor) :
    Option (Reading (Option Selection)) := do
  let d := (← directives false level c).within (.rule .inlineFragment)
  let body := do
    let s := (← selections d.next).within (.rule .inlineFragment)
    return ⟨s.value.map (.inline ellipsis condition d.value), d.faults ++ s.faults, s.next⟩
  d.next.peek body fun t =>
    if t.kind = .lbrace then body
    else
      return ⟨none,
        d.faults ++ [(Fault.expected .inlineFragmentStart (some t)).within (.rule .inlineFragment)],
        d.next⟩

def inlineTail (ellipsis : Nat) (c : Cursor) : Option (Reading (Option Selection)) :=
  c.peek
    (return .refuse none
      ((Fault.expected .inlineFragmentStart none).within (.rule .inlineFragment)) c)
    fun t =>
      if t.isWord "on" then do
        match ← typeCondition level c with
        | .error (fault, c) => return .refuse none (fault.within (.rule .inlineFragment)) c
        | .ok (condition, c) => inlineRest level selections ellipsis (some condition) c
      else inlineRest level selections ellipsis none c

end

theorem typeCondition_eq (level : Nat) (c : Cursor) :
    typeCondition level c = pure (Grammar.typeCondition level c) := by
  generalize hr : Grammar.typeCondition level c = r
  obtain ⟨ahead, behind⟩ := c
  cases Grammar.typeCondition_iff.1 hr with
  | ended hahead =>
      cases hahead
      rfl
  | tooDeep hahead =>
      obtain ⟨t, rest, hcons⟩ := List.exists_cons_of_ne_nil hahead
      cases hcons
      rfl
  | noWord hahead hword =>
      cases hahead
      simp [typeCondition, peek_cons, hword]
  | noName hahead hword hname =>
      cases hahead
      simp only [Cursor.past] at hname
      simp [typeCondition, peek_cons, take?_cons, hword, name_eq, hname, Cursor.past]
  | whole hahead hword hname =>
      cases hahead
      simp only [Cursor.past] at hname
      simp [typeCondition, peek_cons, take?_cons, hword, name_eq, hname]

theorem fragmentSpread_eq (level : Nat) {t : Token} (ht : t.kind = .ellipsis) (rest : List Token)
    (behind : Nat) :
    fragmentSpread level ⟨t :: rest, behind⟩ =
      pure (Grammar.fragmentSpread level t rest ⟨t :: rest, behind⟩) := by
  generalize hr : Grammar.fragmentSpread level t rest ⟨t :: rest, behind⟩ = r
  cases Grammar.fragmentSpread_iff.1 hr with
  | tooDeep => rfl
  | noName hname | whole hname =>
      rw [fragmentSpread, led_eq (by simp [ht]), name_eq]
      simp only [Cursor.past] at hname
      simp only [hname, pure_bind, directives_eq, Cursor.past]

section

variable {level : Nat} {selections? : Cursor → Option (Reading (Option SelectionSet))}
  {selections : Cursor → Reading (Option SelectionSet)}
  (h : ∀ c, selections? c = pure (selections c))
include h

theorem fieldRest_eq (aliasName : Option Name) (name : Name) (c : Cursor) :
    fieldRest level selections? aliasName name c =
      pure (Grammar.fieldRest level selections aliasName name c) := by
  generalize hr : Grammar.fieldRest level selections aliasName name c = r
  obtain ⟨ahead, behind⟩ := c
  cases Grammar.fieldRest_iff.1 hr with
  | ended hahead =>
      cases hahead
      rfl
  | whole hahead ha hd hs =>
      obtain ⟨t, rest, hcons⟩ := List.exists_cons_of_ne_nil hahead
      cases hcons
      simp only [fieldRest, peek_cons, pure_bind, directives_eq,
        ifNext_eq (arguments_eq false level), whenNext_eq h, ha, hd, hs]

theorem field_eq (c : Cursor) :
    field level selections? c = pure (Grammar.field level selections c) := by
  generalize hr : Grammar.fieldName c = r
  rw [field, name_eq]
  cases Grammar.fieldName_iff.1 hr with
  | noName hname =>
      rw [hname, Grammar.field_iff.2 (.noName hr)]
      rfl
  | plain hname hcolon =>
      rw [hname, Grammar.field_iff.2 (.whole hr), pure_bind]
      simp only
      rw [peek_of_error hcolon, fieldRest_eq h]
  | onlyAlias hfirst hcolon hsecond =>
      obtain ⟨t, -, htake, hpeek⟩ := peek_of_ok hcolon
      rw [hfirst, Grammar.field_iff.2 (.noName hr), pure_bind]
      simp only [hpeek, htake, pure_bind, name_eq, hsecond]
  | aliased hfirst hcolon hsecond =>
      obtain ⟨t, -, htake, hpeek⟩ := peek_of_ok hcolon
      rw [hfirst, Grammar.field_iff.2 (.whole hr), pure_bind]
      simp only [hpeek, htake, pure_bind, name_eq, hsecond, fieldRest_eq h]

theorem inlineRest_eq (ellipsis : Nat) (condition : Option TypeCondition) (c : Cursor) :
    inlineRest level selections? ellipsis condition c =
      pure (Grammar.inlineRest level selections ellipsis condition c) := by
  generalize hr : Grammar.inlineRest level selections ellipsis condition c = r
  rw [inlineRest, directives_eq]
  cases Grammar.inlineRest_iff.1 hr with
  | @noSet t rest d hd hahead hkind =>
      obtain ⟨ds, faults, ahead, behind⟩ := d
      cases hahead
      simp [hd, Reading.within, peek_cons, hkind, withinAll]
  | @whole d s hd hkind hs =>
      obtain ⟨ds, faults, _ | ⟨t, rest⟩, behind⟩ := d
      · simp [hd, Reading.within, Cursor.peek, Cursor.isAtEnd, h, hs, withinAll]
      · have ht : t.kind = .lbrace := hkind t rfl
        simp [hd, Reading.within, peek_cons, ht, h, hs, withinAll]

omit h in
theorem inlineTail_of_error {ellipsis behind : Nat} {t : Token} {rest : List Token} {fault : Fault}
    {c' : Cursor}
    (hcondition : Grammar.inlineCondition level ⟨t :: rest, behind⟩ = .error (fault, c')) :
    inlineTail level selections? ellipsis ⟨t :: rest, behind⟩ = pure (.refuse none fault c') := by
  cases Grammar.inlineCondition_iff.1 hcondition with
  | noCondition hahead hword htype =>
      cases hahead
      simp [inlineTail, peek_cons, hword, typeCondition_eq, htype]

theorem inlineTail_of_ok {ellipsis behind : Nat} {t : Token} {rest : List Token}
    {condition : Option TypeCondition} {c' : Cursor}
    (hcondition : Grammar.inlineCondition level ⟨t :: rest, behind⟩ = .ok (condition, c')) :
    inlineTail level selections? ellipsis ⟨t :: rest, behind⟩ =
      pure (Grammar.inlineRest level selections ellipsis condition c') := by
  cases Grammar.inlineCondition_iff.1 hcondition with
  | absent hword =>
      have ht : t.isWord "on" = false := hword t rfl
      simp [inlineTail, peek_cons, ht, inlineRest_eq h]
  | whole hahead hword htype =>
      cases hahead
      simp [inlineTail, peek_cons, hword, typeCondition_eq, htype, inlineRest_eq h]

end

/-- Reads a fragment whose ellipsis is next, given the rules for the two sorts of fragment. What
follows the ellipsis tells them apart. -/
def fragment (spread inline : Cursor → Option (Reading (Option Selection))) (c : Cursor) :
    Option (Reading (Option Selection)) := do
  if c.ahead.length = 1 then
    return .refuse none (.expected .fragmentStart none) (← c.take?).2
  else
    let next ← c.second?
    if next.kind = .name then
      if next.isWord "on" then inline c else spread c
    else if next.kind = .lbrace || next.kind = .atSign then inline c
    else
      let (_, c) ← c.take?
      return .refuse none (.expected .fragmentStartOrDirective (some (← c.first?))) c

mutual

def selectionSet : (level : Nat) → Cursor → Option (Reading (Option SelectionSet))
  | 0, c => return .refuse none .tooDeep c
  | level + 1, c => do
    return (← bracketed .lbrace .rbrace .selection (selection level) c).within (.rule .selectionSet)

def selection : (level : Nat) → Cursor → Option (Reading (Option Selection))
  | 0, c => return .refuse none .tooDeep c
  | level + 1, c =>
    c.peek (field level (selectionSet level) c) fun t =>
      if t.kind = .ellipsis then fragment (fragmentSpread level) (inlineFragment level) c
      else field level (selectionSet level) c

def inlineFragment : (level : Nat) → Cursor → Option (Reading (Option Selection))
  | 0 => led (.punctuator .ellipsis) .inlineFragment (·.kind = .ellipsis) none
  | level + 1 =>
    led (.punctuator .ellipsis) .inlineFragment (·.kind = .ellipsis) <| some fun t c =>
      inlineTail level (selectionSet level) t.start c

end

/-- Selections and selection sets on a level are read without looking. An inline fragment is read
only where its ellipsis and one more token are ahead. -/
structure SelectionsSame (level : Nat) : Prop where
  set : ∀ c, selectionSet level c = pure (Grammar.selectionSet level c)
  selection : ∀ c, selection level c = pure (Grammar.selection level c)
  inline : ∀ t next rest behind, t.kind = .ellipsis →
    inlineFragment level ⟨t :: next :: rest, behind⟩ =
      pure (Grammar.inlineFragment level t (next :: rest) ⟨t :: next :: rest, behind⟩)

theorem selection_succ_eq {level : Nat} (h : SelectionsSame level) (c : Cursor) :
    selection (level + 1) c = pure (Grammar.selection (level + 1) c) := by
  generalize hr : Grammar.selection (level + 1) c = r
  have hfield : ∀ c, field level (selectionSet level) c = _ := field_eq h.set
  rw [selection]
  obtain ⟨ahead, behind⟩ := c
  cases Grammar.selection_iff.1 hr with
  | field hkind =>
      cases ahead with
      | nil => exact hfield _
      | cons t rest =>
          have ht : t.kind ≠ .ellipsis := by simpa [Cursor.kind?] using hkind
          rw [peek_cons, if_neg ht, hfield]
  | ended hahead hkind =>
      cases hahead
      rw [peek_cons, if_pos hkind]
      rfl
  | noFragment hahead hkind hname hlbrace hatSign =>
      cases hahead
      rw [peek_cons, if_pos hkind, fragment]
      simp [second?_cons, take?_cons, first?_cons, hname, hlbrace, hatSign, Cursor.past]
  | spread hahead hkind hname hword =>
      cases hahead
      rw [peek_cons, if_pos hkind, fragment]
      simp [second?_cons, hname, hword, fragmentSpread_eq level hkind]
  | inline hahead hkind hstart =>
      cases hahead
      rw [peek_cons, if_pos hkind, fragment]
      rcases hstart with hword | hlbrace | hatSign
      · simp [second?_cons, (Token.isWord_iff.1 hword).1, hword, h.inline _ _ _ behind hkind]
      · simp [second?_cons, hlbrace, h.inline _ _ _ behind hkind]
      · simp [second?_cons, hatSign, h.inline _ _ _ behind hkind]

theorem selectionsSame (level : Nat) : SelectionsSame level := by
  induction level with
  | zero =>
      refine ⟨fun c => ?_, fun c => ?_, fun t next rest behind _ => ?_⟩
      · rw [selectionSet, Grammar.selectionSet]
      · rw [selection, Grammar.selection]
      · rw [inlineFragment, Grammar.inlineFragment]
        rfl
  | succ level ih =>
      refine ⟨fun c => ?_, selection_succ_eq ih, fun t next rest behind ht => ?_⟩
      · have horderly := (Grammar.selectionsOrderly level).selection
        rw [selectionSet, Grammar.selectionSet, bracketed_eq horderly fun c _ => ih.selection c]
        rfl
      · generalize hr : Grammar.inlineFragment (level + 1) t (next :: rest)
          ⟨t :: next :: rest, behind⟩ = r
        rw [inlineFragment, led_eq (by simp [ht])]
        cases Grammar.inlineFragment_iff.1 hr with
        | noCondition hcondition => exact inlineTail_of_error hcondition
        | whole hcondition => exact inlineTail_of_ok ih.set hcondition

theorem selectionSet_eq (level : Nat) (c : Cursor) :
    selectionSet level c = pure (Grammar.selectionSet level c) :=
  (selectionsSame level).set c

/-! ## Operations -/

def variableDefinition : (level : Nat) → Cursor → Option (Reading (Option VariableDefinition))
  | 0, c => return .refuse none .tooDeep c
  | level + 1, c => do
    match ← variableRef c with
    | .error (fault, c) => return .refuse none fault c
    | .ok (var, c) =>
      match ← punctuator .colon c with
      | .error fault => return .refuse (some ⟨var, none, .missing, none⟩) fault c
      | .ok (colon, c) =>
        let t ← typeRef level c
        match t.faults with
        | [] =>
          return (← defaultValue level t.next).map fun d => some ⟨var, some colon, t.value, d⟩
        | faults => return ⟨some ⟨var, some colon, t.value, none⟩, faults, t.next⟩

def variableDefinitions (level : Nat) :
    Cursor → Option (Reading (Option (Bracketed VariableDefinition))) :=
  nonEmpty .lparen .rparen .variableDefinitions .variableDefinition variableDefinition level

def operationRest (level start : Nat) (type : OperationType) (name : Option Name) (c : Cursor) :
    Option (Reading (Option Operation)) := do
  let v ← ifNext .lparen (variableDefinitions level) c
  let d ← directives false level v.next
  let s ← selectionSet level d.next
  return ⟨s.value.map (⟨start, type, name, v.value, d.value, ·⟩),
    withinAll (Grammar.operationContext name) (v.faults ++ d.faults ++ s.faults), s.next⟩

def operationTail (level start : Nat) (type : OperationType) (c : Cursor) :
    Option (Reading (Option Operation)) :=
  c.peek (return .refuse none ((Fault.expected .operationRest none).within (.rule .operation)) c)
    fun t =>
      if t.kind = .name then do
        match ← name c with
        | .error fault => return .refuse none (fault.within (.rule .operation)) c
        | .ok (name, c) =>
          c.peek
            (return .refuse none ((Fault.expected .operationBody none).within (.rule .operation)) c)
            fun _ => operationRest level start type (some name) c
      else operationRest level start type none c

def operation : (level : Nat) → Cursor → Option (Reading (Option Operation))
  | 0, c => return .refuse none .tooDeep c
  | level + 1, c => do
    let t ← c.first?
    let refused : Reading (Option Operation) :=
      .refuse none ((Fault.expected .operationType (some t)).within (.rule .operation)) c
    if t.kind = .name then
      match Grammar.operationType? t with
      | none => return refused
      | some type => operationTail level t.start type (← c.take?).2
    else if t.kind = .lbrace then
      return ((← selectionSet level c).within (.rule .operation)).map fun s =>
        s.map (⟨t.start, .query, none, none, [], ·⟩)
    else return refused

theorem variableDefinition_eq (level : Nat) (c : Cursor) :
    variableDefinition level c = pure (Grammar.variableDefinition level c) := by
  generalize hr : Grammar.variableDefinition level c = r
  cases Grammar.variableDefinition_iff.1 hr with
  | tooDeep => rfl
  | noVariable hvariable => simp [variableDefinition, variableRef_eq, hvariable]
  | noColon hvariable hcolon =>
      simp [variableDefinition, variableRef_eq, hvariable, punctuator_eq, hcolon]
  | typed hvariable hcolon htype =>
      rw [variableDefinition]
      simp only [variableRef_eq, hvariable, punctuator_eq, hcolon, typeRef_eq, pure_bind]
      cases htype with
      | badType ht hfaults =>
          rw [ht]
          split
          · contradiction
          · rfl
      | whole ht hfaults => simp only [ht, hfaults, defaultValue_eq, pure_bind]

theorem variableDefinitions_eq (level : Nat) (c : Cursor) :
    variableDefinitions level c = pure (Grammar.variableDefinitions level c) :=
  nonEmpty_eq Grammar.variableDefinition_orderly variableDefinition_eq _ level c

theorem operationRest_eq (level start : Nat) (type : OperationType) (name : Option Name)
    (t : Token) (rest : List Token) (behind : Nat) :
    operationRest level start type name ⟨t :: rest, behind⟩ =
      pure (Grammar.operationRest level start type name ⟨t :: rest, behind⟩) := by
  rw [operationRest, ifNext_eq (variableDefinitions_eq level)]
  simp only [pure_bind, directives_eq, selectionSet_eq]
  rfl

theorem operationTail_eq (level start : Nat) (type : OperationType) (c : Cursor) :
    operationTail level start type c = pure (Grammar.operation level start type c) := by
  generalize hr : Grammar.operation level start type c = r
  obtain ⟨ahead, behind⟩ := c
  cases Grammar.operation_iff.1 hr with
  | ended hahead =>
      cases hahead
      rfl
  | noBody hahead hkind =>
      have hname := Grammar.name_iff.2 (.found hahead hkind)
      cases hahead
      rw [operationTail, peek_cons, if_pos hkind, name_eq, hname]
      rfl
  | named hahead hkind =>
      have hname := Grammar.name_iff.2 (.found hahead hkind)
      cases hahead
      rw [operationTail, peek_cons, if_pos hkind, name_eq, hname]
      exact operationRest_eq ..
  | anonymous hahead hkind =>
      cases hahead
      simp [operationTail, peek_cons, hkind, operationRest_eq]

theorem operation_eq_of_operationType? {t : Token} {type : OperationType}
    (h : Grammar.operationType? t = some type) (level : Nat) (rest : List Token) (behind : Nat) :
    operation (level + 1) ⟨t :: rest, behind⟩ =
      pure (Grammar.operation level t.start type ⟨rest, behind + 1⟩) := by
  have hkind : t.kind = .name := by
    rw [Grammar.operationType?] at h
    split at h
    · assumption
    · cases h
  rw [operation]
  simp only [first?_cons, take?_cons, pure_bind, hkind, if_true, h, operationTail_eq]

theorem operation_eq_of_lbrace {t : Token} (h : t.kind = .lbrace) (level : Nat) (rest : List Token)
    (behind : Nat) :
    operation (level + 1) ⟨t :: rest, behind⟩ =
      pure (Grammar.shorthandQuery level t.start ⟨t :: rest, behind⟩) := by
  rw [operation]
  simp only [first?_cons, pure_bind, h, selectionSet_eq]
  rfl

/-! ## Fragments -/

def fragmentDefinition : (level : Nat) → Cursor → Option (Reading (Option Fragment))
  | 0 => led .keyword .fragmentDefinition (·.isWord "fragment") none
  | level + 1 =>
    led .keyword .fragmentDefinition (·.isWord "fragment") <| some fun t c => do
      match ← name c with
      | .error fault => return .refuse none (fault.within (.rule .fragmentDefinition)) c
      | .ok (name, c) =>
        if name.value = ("on" : Text) then
          return .refuse none
            ((Fault.bare (.fragmentNamedOn name.start)).within (.rule .fragmentDefinition)) c
        else
          match ← typeCondition level c with
          | .error (fault, c) =>
            return .refuse none (fault.within (.named .fragmentDefinition name.value)) c
          | .ok (condition, c) =>
            let d ← directives false level c
            let s ← selectionSet level d.next
            return ⟨s.value.map (⟨t.start, name, condition, d.value, ·⟩),
              withinAll (.named .fragmentDefinition name.value) (d.faults ++ s.faults), s.next⟩

theorem fragmentDefinition_eq {t : Token} (h : t.isWord "fragment" = true) (level : Nat)
    (rest : List Token) (behind : Nat) :
    fragmentDefinition (level + 1) ⟨t :: rest, behind⟩ =
      pure (Grammar.fragmentDefinition level t.start ⟨rest, behind + 1⟩) := by
  generalize hr : Grammar.fragmentDefinition level t.start ⟨rest, behind + 1⟩ = r
  rw [fragmentDefinition, led_eq h, name_eq]
  cases Grammar.fragmentDefinition_iff.1 hr <;>
    simp [typeCondition_eq, directives_eq, selectionSet_eq, *]

end

end SelectionCheck.Unguarded
