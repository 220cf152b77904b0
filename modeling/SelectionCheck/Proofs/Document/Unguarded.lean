import Mathlib.Data.PFun
import SelectionCheck.Proofs.Document.Faults

/-!
# Tokens read without looking

The readers of documents take lists of tokens apart, so none of them can ask for a token where
there is none, and their loops are bounded by a copy of the tokens. Here the rules are written the
other way round. A rule asks for the next token, the one behind it or the step past it, and looks
beforehand only where the language makes it look; a loop goes on for as long as it must. There is
no reading if a token is asked for where there is none, and none if a loop does not end.

The statements say that the readings are there all the same, and that they are those of the
readers. This module has names, punctuators and bracketed lists, of which the other rules are made.
-/

namespace SelectionCheck

variable {α β : Type}

/-! ## Tokens -/

namespace Cursor

def isAtEnd (c : Cursor) : Bool := c.ahead.isEmpty

/-- The next token, without a look whether there is one. -/
def first? (c : Cursor) : Option Token := c.ahead.head?

def second? (c : Cursor) : Option Token := c.ahead.tail.head?

def take? (c : Cursor) : Option (Token × Cursor) :=
  match c.ahead with
  | [] => none
  | t :: rest => some (t, c.past rest)

/-- Goes by the next token if there is one. -/
def peek (c : Cursor) (atEnd : Option α) (next : Token → Option α) : Option α :=
  if c.isAtEnd then atEnd else c.first? >>= next

end Cursor

theorem Cursor.exists_on (c : Cursor) : ∃ ts, c.On ts := by
  refine ⟨List.replicate c.behind ⟨.unknown, [], 0⟩ ++ c.ahead, ?_, ?_⟩
  · simp
  · simp

section

variable {ts : List Token} {c c' : Cursor}

theorem Cursor.On.length (h : c.On ts) : c.ahead.length = ts.length - c.behind := by
  rw [h.ahead, List.length_drop]

/-- What is ahead of a cursor further on ends what is ahead of a cursor before it. -/
theorem Cursor.Reaches.isSuffix (h : c.Reaches ts c') (hc : c.On ts) : c'.ahead <:+ c.ahead := by
  rw [h.on.ahead, hc.ahead, ← Nat.add_sub_cancel' h.le, ← List.drop_drop]
  exact List.drop_suffix _ _

/-- An orderly reader leaves a part of the tokens ahead, and counts those that it took. -/
theorem Grammar.Orderly.length_add_behind {reader : Cursor → Reading α} (h : Orderly reader)
    (c : Cursor) :
    (reader c).next.ahead <:+ c.ahead ∧
      (reader c).next.ahead.length + (reader c).next.behind = c.ahead.length + c.behind := by
  obtain ⟨ts, hc⟩ := c.exists_on
  have hreaches := (h hc).reaches
  have hlength := hc.length
  have hlength' := hreaches.on.length
  have hle := hc.behind
  have hle' := hreaches.on.behind
  exact ⟨hreaches.isSuffix hc, by omega⟩

end

/-! ## Names and punctuators -/

namespace Unguarded

section

variable {t : Token} {rest : List Token} {behind : Nat}

theorem first?_cons : (⟨t :: rest, behind⟩ : Cursor).first? = pure t := rfl

theorem second?_cons {next : Token} :
    (⟨t :: next :: rest, behind⟩ : Cursor).second? = pure next := rfl

theorem take?_cons : (⟨t :: rest, behind⟩ : Cursor).take? = pure (t, ⟨rest, behind + 1⟩) := rfl

theorem peek_cons {atEnd : Option α} {next : Token → Option α} :
    (⟨t :: rest, behind⟩ : Cursor).peek atEnd next = next t := rfl

end

def token (kind : Token.Kind) (wanted : Wanted) (c : Cursor) :
    Option (Except Fault (Token × Cursor)) :=
  c.peek (return .error (.expected wanted none)) fun t =>
    if t.kind = kind then return .ok (← c.take?)
    else return .error (.expected wanted (some t))

def name (c : Cursor) : Option (Except Fault (Name × Cursor)) := do
  return (← token .name .name c).map fun (t, c) => (⟨t.text, t.start⟩, c)

def punctuator (kind : Token.Kind) (c : Cursor) : Option (Except Fault (Nat × Cursor)) := do
  return (← token kind (.punctuator kind) c).map fun (t, c) => (t.start, c)

/-- Applies a rule if the next token has the given kind. -/
def ifNext (kind : Token.Kind) (rule : Cursor → Option (Reading (Option α))) (c : Cursor) :
    Option (Reading (Option α)) := do
  if (← c.first?).kind = kind then rule c else return ⟨none, [], c⟩

/-- Applies a rule if there is a next token and it has the given kind. -/
def whenNext (kind : Token.Kind) (rule : Cursor → Option (Reading (Option α))) (c : Cursor) :
    Option (Reading (Option α)) :=
  c.peek (return ⟨none, [], c⟩) fun t => if t.kind = kind then rule c else return ⟨none, [], c⟩

theorem name_eq (c : Cursor) : name c = pure (Grammar.name c) := by
  obtain ⟨_ | ⟨t, rest⟩, behind⟩ := c
  · rfl
  · simp only [name, token, Grammar.name, peek_cons, take?_cons]
    split <;> rfl

theorem punctuator_eq (kind : Token.Kind) (c : Cursor) :
    punctuator kind c = pure (Grammar.punctuator kind c) := by
  obtain ⟨_ | ⟨t, rest⟩, behind⟩ := c
  · rfl
  · simp only [punctuator, token, Grammar.punctuator, peek_cons, take?_cons]
    split <;> rfl

section

variable {rule : Cursor → Option (Reading (Option α))} {reader : Cursor → Reading (Option α)}
  (h : ∀ c, rule c = pure (reader c)) (kind : Token.Kind)
include h

theorem ifNext_eq (t : Token) (rest : List Token) (behind : Nat) :
    ifNext kind rule ⟨t :: rest, behind⟩ =
      pure (Grammar.whenNext kind reader ⟨t :: rest, behind⟩) := by
  by_cases hkind : t.kind = kind
  · simp [ifNext, first?_cons, Grammar.whenNext, Cursor.kind?, hkind, h]
  · simp [ifNext, first?_cons, Grammar.whenNext, Cursor.kind?, hkind]

theorem whenNext_eq (c : Cursor) :
    whenNext kind rule c = pure (Grammar.whenNext kind reader c) := by
  obtain ⟨_ | ⟨t, rest⟩, behind⟩ := c
  · rfl
  · exact ifNext_eq h kind t rest behind

end

section

variable {c c' : Cursor} {kind : Token.Kind} {atEnd : Option α} {found : Token → Option α}

theorem peek_of_error {fault : Fault} (h : Grammar.punctuator kind c = .error fault) :
    (c.peek atEnd fun t => if t.kind = kind then found t else atEnd) = atEnd := by
  cases Grammar.punctuator_iff.1 h with
  | absent hkind =>
      obtain ⟨_ | ⟨t, rest⟩, behind⟩ := c
      · rfl
      · exact if_neg fun ht => hkind (congrArg some ht)

theorem peek_of_ok {offset : Nat} (h : Grammar.punctuator kind c = .ok (offset, c')) :
    ∃ t : Token, t.start = offset ∧ c.take? = pure (t, c') ∧
      ∀ {α : Type} (atEnd : Option α) (found : Token → Option α),
        (c.peek atEnd fun t => if t.kind = kind then found t else atEnd) = found t := by
  obtain ⟨ahead, behind⟩ := c
  cases Grammar.punctuator_iff.1 h with
  | @found t rest hahead hkind =>
      cases hahead
      exact ⟨t, rfl, rfl, fun _ _ => if_pos hkind⟩

end

theorem length_of_name {c c' : Cursor} {n : Name} (h : Grammar.name c = .ok (n, c')) :
    c'.ahead.length + 1 = c.ahead.length := by
  cases Grammar.name_iff.1 h with
  | found hahead => rw [hahead, List.length_cons]; rfl

theorem length_of_punctuator {c c' : Cursor} {kind : Token.Kind} {offset : Nat}
    (h : Grammar.punctuator kind c = .ok (offset, c')) : c'.ahead.length + 1 = c.ahead.length := by
  cases Grammar.punctuator_iff.1 h with
  | found hahead => rw [hahead, List.length_cons]; rfl

/-! ## Loops -/

/-- Goes from round to round until one has a result. There is none if a round has neither a result
nor a next round, and none if the rounds do not end. -/
noncomputable def loop (s : α) (round : α → Option (β ⊕ α)) : Option β :=
  open Classical in (PFun.fix (fun s => Part.ofOption (round s)) s).toOption

section

variable {round : α → Option (β ⊕ α)} {s : α}

theorem loop_of_ends {b : β} (h : round s = some (.inl b)) : loop s round = some b := by
  classical exact Part.toOption_eq_some_iff.2 (PFun.fix_stop (Part.mem_ofOption.2 h))

theorem loop_of_goesOn {s' : α} (h : round s = some (.inr s')) : loop s round = loop s' round := by
  have hfix : PFun.fix (fun s => Part.ofOption (round s)) s = PFun.fix _ s' :=
    PFun.fix_fwd_eq (Part.mem_ofOption.2 h)
  rw [loop, hfix, loop]

end

/-! ## Bracketed lists -/

noncomputable section

def skipTo (pending : List Token.Kind) (c : Cursor) : Option (Option Nat × Cursor) :=
  loop (pending, c) fun (pending, c) =>
    if c.isAtEnd || pending.isEmpty then return .inl (none, c)
    else do
      let t ← c.first?
      let pending := Grammar.await pending t
      if t.kind.isCloser && pending.length = 1 then return .inl (some t.start, c)
      else return .inr (pending, (← c.take?).2)

/-- Reads the items up to a closing bracket. An item that leaves as many tokens ahead as there were
ends the list. -/
def itemsFrom (closer : Token.Kind) (rule : Rule) (item : Cursor → Option (Reading (Option α)))
    (number : Nat) (c : Cursor) (items : List α) (faults : List Fault) :
    Option (Reading (List α × Option Nat)) :=
  loop (number, c, items, faults) fun (number, c, items, faults) => do
    if c.isAtEnd then
      return .inl
        ⟨(items.reverse, none), (.expected (.itemOr rule closer) none :: faults).reverse, c⟩
    else if (← c.first?).kind = closer then
      let (t, c) ← c.take?
      return .inl ⟨(items.reverse, some t.start), faults.reverse, c⟩
    else
      let r ← item c
      let items := r.value.toList ++ items
      let faults := (withinAll (.item rule number) r.faults).reverse ++ faults
      if r.next.ahead.length = c.ahead.length then
        let skipped ← skipTo [closer] r.next
        return .inl ⟨(items.reverse, skipped.1), faults.reverse, skipped.2⟩
      else return .inr (number + 1, r.next, items, faults)

def bracketed (opener closer : Token.Kind) (rule : Rule)
    (item : Cursor → Option (Reading (Option α))) (c : Cursor) :
    Option (Reading (Option (Bracketed α))) := do
  match ← punctuator opener c with
  | .error fault => return .refuse none fault c
  | .ok (opening, c) =>
    return (← itemsFrom closer rule item 1 c [] []).map fun (items, closing) =>
      some ⟨opening, items, closing⟩

def nonEmpty (opener closer : Token.Kind) (list rule : Rule)
    (item : Nat → Cursor → Option (Reading (Option α))) :
    (level : Nat) → Cursor → Option (Reading (Option (Bracketed α)))
  | 0, c => return .refuse none .tooDeep c
  | level + 1, c => do
    let r := (← bracketed opener closer rule (item level) c).within (.rule list)
    return ⟨r.value, r.faults ++ Grammar.emptyFaults list r.value, r.next⟩

theorem skipTo_eq (pending : List Token.Kind) (c : Cursor) :
    skipTo pending c = pure (Grammar.skipTo pending c.behind c.ahead) := by
  obtain ⟨ahead, behind⟩ := c
  induction ahead generalizing pending behind with
  | nil => cases pending <;> exact loop_of_ends rfl
  | cons t rest ih =>
      by_cases hpending : pending = []
      · subst hpending
        exact loop_of_ends rfl
      · rw [Grammar.skipTo_cons hpending]
        split
        · next hends =>
            exact loop_of_ends (by simp [Cursor.isAtEnd, Cursor.first?, hpending, hends])
        · next hends =>
            exact (loop_of_goesOn (by
              simp [Cursor.isAtEnd, first?_cons, take?_cons, hpending, hends])).trans (ih _ _)

section

variable {opener closer : Token.Kind} {rule : Rule} {item? : Cursor → Option (Reading (Option α))}
  {item : Cursor → Reading (Option α)}

/-- One round of reading a list: it goes on behind an item that took a token, and ends with the
search for the closing bracket otherwise. -/
theorem itemsFrom_of_item {c : Cursor} {t : Token} {rest : List Token} {r : Reading (Option α)}
    (hahead : c.ahead = t :: rest) (hkind : t.kind ≠ closer) (h : item? c = pure r)
    (number : Nat) (items : List α) (faults : List Fault) :
    itemsFrom closer rule item? number c items faults =
      if r.next.ahead.length = c.ahead.length then
        pure ⟨((r.value.toList ++ items).reverse,
            (Grammar.skipTo [closer] r.next.behind r.next.ahead).1),
          ((withinAll (.item rule number) r.faults).reverse ++ faults).reverse,
          (Grammar.skipTo [closer] r.next.behind r.next.ahead).2⟩
      else itemsFrom closer rule item? (number + 1) r.next (r.value.toList ++ items)
        ((withinAll (.item rule number) r.faults).reverse ++ faults) := by
  rw [hahead, List.length_cons]
  split
  · next hstill =>
      exact loop_of_ends (by
        simp [Cursor.isAtEnd, Cursor.first?, hahead, hkind, h, hstill, skipTo_eq])
  · next hmoved =>
      exact loop_of_goesOn (by simp [Cursor.isAtEnd, Cursor.first?, hahead, hkind, h, hmoved])

/-- A list is read without looking if its items are. An item is read only where there is a token,
so an item need not look for the first. -/
theorem itemsFrom_eq (hitem : Grammar.Orderly item)
    (h : ∀ c, c.ahead ≠ [] → item? c = pure (item c)) {steps : List Token} {c : Cursor}
    (hsteps : c.ahead.length ≤ steps.length) (number : Nat) (items : List α)
    (faults : List Fault) :
    itemsFrom closer rule item? number c items faults =
      pure (Grammar.itemsFrom closer rule item steps number c items faults) := by
  -- The bound on the steps holds, since every round but the last leaves fewer tokens ahead.
  fun_induction Grammar.itemsFrom closer rule item steps number c items faults with
  | case1 steps number c items faults hahead =>
      exact loop_of_ends (by simp [Cursor.isAtEnd, hahead])
  | case2 steps number c items faults t rest hahead hkind =>
      exact loop_of_ends (by simp [Cursor.isAtEnd, Cursor.first?, Cursor.take?, hahead, hkind])
  | case3 steps number c items faults t rest hahead hkind r items' faults' hstill skipped =>
      have hread : item? c = pure r := h c (by simp [hahead])
      have hlength : r.next.ahead.length + r.next.behind = _ := (hitem.length_add_behind c).2
      rw [itemsFrom_of_item hahead hkind hread, if_pos (by omega)]
  | case4 number c items faults t rest hahead hkind r items' faults' hmoved =>
      simp [hahead] at hsteps
  | case5 number c items faults t rest hahead hkind r items' faults' hmoved step steps ih =>
      have hread : item? c = pure r := h c (by simp [hahead])
      have hlength : r.next.ahead.length + r.next.behind = _ := (hitem.length_add_behind c).2
      have hle : r.next.ahead.length ≤ _ := (hitem.length_add_behind c).1.length_le
      rw [List.length_cons] at hsteps
      rw [itemsFrom_of_item hahead hkind hread, if_neg (by omega)]
      exact ih (by omega)

theorem bracketed_eq (hitem : Grammar.Orderly item)
    (h : ∀ c, c.ahead ≠ [] → item? c = pure (item c)) (c : Cursor) :
    bracketed opener closer rule item? c =
      pure (Grammar.bracketed opener closer rule item c) := by
  generalize hr : Grammar.bracketed opener closer rule item c = r
  cases Grammar.bracketed_iff.1 hr with
  | unopened hopening => simp only [bracketed, punctuator_eq, pure_bind, hopening]
  | opened hopening =>
      simp only [bracketed, punctuator_eq, pure_bind, hopening,
        itemsFrom_eq hitem h (Nat.le_refl _)]

theorem nonEmpty_eq {item? : Nat → Cursor → Option (Reading (Option α))}
    {item : Nat → Cursor → Reading (Option α)} (hitem : ∀ level, Grammar.Orderly (item level))
    (h : ∀ level c, item? level c = pure (item level c)) (list : Rule) (level : Nat) (c : Cursor) :
    nonEmpty opener closer list rule item? level c =
      pure (Grammar.nonEmpty opener closer list rule item level c) := by
  cases level with
  | zero => rfl
  | succ level =>
      rw [nonEmpty, bracketed_eq (hitem level) fun c _ => h level c]
      rfl

end

end

end Unguarded

end SelectionCheck
