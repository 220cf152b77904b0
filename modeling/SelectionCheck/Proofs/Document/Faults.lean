import SelectionCheck.Proofs.Document.Reads
import SelectionCheck.Proofs.Document.Recovery

/-!
# Where faults are met

What readers do on arbitrary tokens: a cursor never moves back, and the faults of a reading are met
one after the other between the cursor before it and the cursor behind it. Each fault is about the
token at its place, or about the end of the document, and the names it shows are those of tokens.
A place is the number of tokens in front of it, so the order of faults is an order of numbers and
nothing is assumed about the offsets of tokens.
-/

namespace SelectionCheck

variable {α β : Type} {ts : List Token} {c c' c'' : Cursor}

/-! ## Cursors -/

structure Cursor.On (ts : List Token) (c : Cursor) : Prop where
  ahead : c.ahead = ts.drop c.behind
  behind : c.behind ≤ ts.length

/-- The second cursor stands where the first does, or further on. -/
structure Cursor.Reaches (ts : List Token) (c c' : Cursor) : Prop where
  on : c'.On ts
  le : c.behind ≤ c'.behind

namespace Cursor

theorem on_ofTokens (ts : List Token) : (ofTokens ts).On ts :=
  ⟨rfl, Nat.zero_le _⟩

theorem On.getElem? (h : c.On ts) : ts[c.behind]? = c.ahead.head? := by
  rw [h.ahead, List.head?_drop]

theorem On.refl (h : c.On ts) : c.Reaches ts c :=
  ⟨h, Nat.le_refl _⟩

theorem On.past {t : Token} {rest : List Token} (h : c.On ts) (hahead : c.ahead = t :: rest) :
    c.Reaches ts (c.past rest) := by
  have hdrop := h.ahead.symm.trans hahead
  refine ⟨⟨?_, ?_⟩, Nat.le_succ _⟩
  · rw [Cursor.past, ← List.tail_drop, hdrop, List.tail_cons]
  · have hlength := congrArg List.length hdrop
    rw [List.length_drop, List.length_cons] at hlength
    change c.behind + 1 ≤ ts.length
    omega

theorem Reaches.trans (h : c.Reaches ts c') (h' : c'.Reaches ts c'') : c.Reaches ts c'' :=
  ⟨h'.on, Nat.le_trans h.le h'.le⟩

theorem On.past_past {t s : Token} {rest : List Token} {behind : Nat}
    (h : On ts ⟨t :: s :: rest, behind⟩) :
    Reaches ts ⟨t :: s :: rest, behind⟩ ⟨rest, behind + 2⟩ :=
  (h.past rfl).trans ((h.past rfl).on.past rfl)

end Cursor

/-! ## Faults -/

def Name.At (ts : List Token) (place : Nat) (n : Name) : Prop :=
  ∃ t, ts[place]? = some t ∧ t.kind = .name ∧ t.text = n.value ∧ t.start = n.start

/-- The cause is about the token at the place or, behind the last token, about the end of the
document. A tree that is too deep is about no token. -/
def Cause.At (ts : List Token) (place : Nat) : Cause → Prop
  | .expected _ found | .noValue found => ts[place]? = found
  | .variableInConstant offset | .fragmentNamedOn offset | .empty offset =>
    ts[place]?.map Token.start = some offset
  | .reservedEnumValue name => name.At ts place
  | .tooDeep => True

def Context.name? : Context → Option Text
  | .named _ name | .directive name => some name
  | .rule _ | .item _ _ => none

/-- What the context shows is the name of a token. -/
def Context.From (ts : List Token) (context : Context) : Prop :=
  ∀ name ∈ context.name?, ∃ t ∈ ts, t.kind = .name ∧ t.text = name

/-- The fault is about the token at the place and shows names of tokens. -/
structure Fault.At (ts : List Token) (place : Nat) (fault : Fault) : Prop where
  cause : fault.cause.At ts place
  context : ∀ context ∈ fault.context, context.From ts

theorem Name.At.mem {place : Nat} {n : Name} (h : n.At ts place) :
    ∃ t ∈ ts, t.kind = .name ∧ t.text = n.value := by
  obtain ⟨t, hget, hkind, htext, -⟩ := h
  exact ⟨t, List.mem_of_getElem? hget, hkind, htext⟩

namespace Context

theorem from_rule (ts : List Token) (r : Rule) : (Context.rule r).From ts := by
  simp [From, name?]

theorem from_item (ts : List Token) (r : Rule) (number : Nat) : (item r number).From ts := by
  simp [From, name?]

theorem from_named (r : Rule) {place : Nat} {n : Name} (h : n.At ts place) :
    (named r n.value).From ts := by
  rintro _ ⟨⟩
  exact h.mem

theorem from_directive {place : Nat} {n : Name} (h : n.At ts place) :
    (directive n.value).From ts := by
  rintro _ ⟨⟩
  exact h.mem

end Context

namespace Fault

theorem at_bare {place : Nat} {cause : Cause} (h : cause.At ts place) : (bare cause).At ts place :=
  ⟨h, by simp [bare]⟩

theorem at_tooDeep (ts : List Token) (place : Nat) : tooDeep.At ts place :=
  at_bare trivial

theorem at_expected (hc : c.On ts) (wanted : Wanted) :
    (expected wanted c.ahead.head?).At ts c.behind :=
  at_bare hc.getElem?

theorem At.within {place : Nat} {fault : Fault} (h : fault.At ts place) {context : Context}
    (hcontext : context.From ts) : (fault.within context).At ts place :=
  ⟨h.cause, List.forall_mem_cons.2 ⟨hcontext, h.context⟩⟩

end Fault

/-- The faults are met in order between two places. -/
inductive FaultsBetween (ts : List Token) : Nat → Nat → List Fault → Prop
  | nil {first last : Nat} (h : first ≤ last) : FaultsBetween ts first last []
  | cons {first place last : Nat} {fault : Fault} {faults : List Fault} (hle : first ≤ place)
      (hat : fault.At ts place) (h : FaultsBetween ts place last faults) :
      FaultsBetween ts first last (fault :: faults)

namespace FaultsBetween

variable {first first' middle last last' place : Nat} {fault : Fault} {faults faults' : List Fault}

theorem le (h : FaultsBetween ts first last faults) : first ≤ last := by
  induction h with
  | nil h => exact h
  | cons hle _ _ ih => exact Nat.le_trans hle ih

theorem append (h : FaultsBetween ts first middle faults)
    (h' : FaultsBetween ts middle last faults') :
    FaultsBetween ts first last (faults ++ faults') := by
  induction h with
  | nil hle =>
      cases h' with
      | nil hle' => exact .nil (Nat.le_trans hle hle')
      | cons hle' hat h => exact .cons (Nat.le_trans hle hle') hat h
  | cons hle hat _ ih => exact .cons hle hat (ih h')

theorem mono (h : FaultsBetween ts first last faults) (hfirst : first' ≤ first)
    (hlast : last ≤ last') : FaultsBetween ts first' last' faults := by
  have hbefore : FaultsBetween ts first' first [] := .nil hfirst
  simpa using (hbefore.append h).append (.nil hlast)

theorem one (hfirst : first ≤ place) (hlast : place ≤ last) (h : fault.At ts place) :
    FaultsBetween ts first last [fault] :=
  .cons hfirst h (.nil hlast)

theorem withinAll (h : FaultsBetween ts first last faults) {context : Context}
    (hcontext : context.From ts) :
    FaultsBetween ts first last (withinAll context faults) := by
  induction h with
  | nil hle => exact .nil hle
  | cons hle hat _ ih => exact .cons hle (hat.within hcontext) ih

theorem exists_at (h : FaultsBetween ts first last faults) :
    ∀ fault ∈ faults, ∃ place, fault.At ts place := by
  induction h with
  | nil _ => simp
  | cons _ hat _ ih => exact List.forall_mem_cons.2 ⟨⟨_, hat⟩, ih⟩

end FaultsBetween

/-! ## Readings -/

/-- The reading goes forward and meets its faults on the way, in order. -/
structure Reading.Orderly (ts : List Token) (c : Cursor) (r : Reading α) : Prop where
  on : r.next.On ts
  faults : FaultsBetween ts c.behind r.next.behind r.faults

namespace Reading.Orderly

variable {r : Reading α}

theorem reaches (h : r.Orderly ts c) : c.Reaches ts r.next :=
  ⟨h.on, h.faults.le⟩

theorem of_reaches {value : α} (h : c.Reaches ts c') :
    (⟨value, [], c'⟩ : Reading α).Orderly ts c :=
  ⟨h.on, .nil h.le⟩

theorem of_refuse {value : α} {fault : Fault} (h : c.Reaches ts c')
    (hat : fault.At ts c'.behind) : (Reading.refuse value fault c').Orderly ts c :=
  ⟨h.on, .one h.le (Nat.le_refl _) hat⟩

theorem after (h : r.Orderly ts c') (hreaches : c.Reaches ts c') : r.Orderly ts c :=
  ⟨h.on, h.faults.mono hreaches.le (Nat.le_refl _)⟩

theorem map (h : r.Orderly ts c) (f : α → β) : (r.map f).Orderly ts c :=
  ⟨h.on, h.faults⟩

theorem within (h : r.Orderly ts c) {context : Context} (hcontext : context.From ts) :
    (r.within context).Orderly ts c :=
  ⟨h.on, h.faults.withinAll hcontext⟩

end Reading.Orderly

namespace Grammar

def Orderly (reader : Cursor → Reading α) : Prop :=
  ∀ ⦃ts : List Token⦄ ⦃c : Cursor⦄, c.On ts → (reader c).Orderly ts c

variable {n : Name} {fault : Fault} {kind : Token.Kind} {offset : Nat}

theorem reaches_of_name (hc : c.On ts) (h : name c = .ok (n, c')) :
    c.Reaches ts c' ∧ n.At ts c.behind := by
  cases name_iff.1 h with
  | found hahead hkind =>
      refine ⟨hc.past hahead, _, ?_, hkind, rfl, rfl⟩
      rw [hc.getElem?, hahead, List.head?_cons]

theorem at_of_name (hc : c.On ts) (h : name c = .error fault) : fault.At ts c.behind := by
  cases name_iff.1 h with
  | absent => exact Fault.at_expected hc .name

theorem reaches_of_punctuator (hc : c.On ts) (h : punctuator kind c = .ok (offset, c')) :
    c.Reaches ts c' ∧ ts[c.behind]?.map Token.start = some offset := by
  cases punctuator_iff.1 h with
  | found hahead =>
      refine ⟨hc.past hahead, ?_⟩
      rw [hc.getElem?, hahead, List.head?_cons, Option.map_some]

theorem at_of_punctuator (hc : c.On ts) (h : punctuator kind c = .error fault) :
    fault.At ts c.behind := by
  cases punctuator_iff.1 h with
  | absent => exact Fault.at_expected hc (.punctuator kind)

theorem whenNext_orderly {reader : Cursor → Reading (Option α)} (h : Orderly reader)
    (kind : Token.Kind) : Orderly (whenNext kind reader) := by
  intro ts c hc
  rw [whenNext]
  split
  · exact h hc
  · exact .of_reaches hc.refl

/-! ## Bracketed lists -/

/-- The search for a closing bracket goes forward, and a bracket that it finds is the next token. -/
theorem skipTo_reaches (pending : List Token.Kind) {behind : Nat} {ahead : List Token}
    (hc : (⟨ahead, behind⟩ : Cursor).On ts) :
    (⟨ahead, behind⟩ : Cursor).Reaches ts (skipTo pending behind ahead).2 ∧
      ∀ closing ∈ (skipTo pending behind ahead).1,
        ts[(skipTo pending behind ahead).2.behind]?.map Token.start = some closing := by
  induction ahead generalizing pending behind with
  | nil =>
      cases pending <;> exact ⟨hc.refl, by simp [skipTo]⟩
  | cons t rest ih =>
      have hpast : (⟨t :: rest, behind⟩ : Cursor).Reaches ts ⟨rest, behind + 1⟩ := hc.past rfl
      by_cases hpending : pending = []
      · subst hpending
        exact ⟨hc.refl, by simp [skipTo]⟩
      · rw [skipTo_cons hpending]
        split
        · refine ⟨hc.refl, ?_⟩
          rintro _ ⟨⟩
          rw [hc.getElem?, List.head?_cons, Option.map_some]
        · exact ⟨hpast.trans (ih _ hpast.on).1, (ih _ hpast.on).2⟩

/-- The reading of a list meets its faults in front of the place where the closing bracket stands,
and goes on there or behind it. -/
structure Ends (ts : List Token) (first place : Nat) (closing : Option Nat) (r : Reading α) :
    Prop where
  on : r.next.On ts
  le : place ≤ r.next.behind
  faults : FaultsBetween ts first place r.faults
  closing : ∀ offset ∈ closing, ts[place]?.map Token.start = some offset

theorem itemsFrom_ends {item : Cursor → Reading (Option α)} (hitem : Orderly item)
    (closer : Token.Kind) (rule : Rule) (steps : List Token) (number : Nat) (items : List α)
    (faults : List Fault) {first : Nat} (hc : c.On ts)
    (hfaults : FaultsBetween ts first c.behind faults.reverse) :
    ∃ place, Ends ts first place (itemsFrom closer rule item steps number c items faults).value.2
      (itemsFrom closer rule item steps number c items faults) := by
  -- The faults of an item are met behind those met before it.
  have hmore : ∀ {c : Cursor} {faults : List Fault} (number : Nat), c.On ts →
      FaultsBetween ts first c.behind faults.reverse → FaultsBetween ts first (item c).next.behind
        ((withinAll (.item rule number) (item c).faults).reverse ++ faults).reverse := by
    intro c faults number hc hfaults
    rw [List.reverse_append, List.reverse_reverse]
    exact hfaults.append ((hitem hc).faults.withinAll (Context.from_item ts rule number))
  fun_induction itemsFrom closer rule item steps number c items faults with
  | case1 steps number c items faults hahead =>
      have hexpected := Fault.at_expected hc (.itemOr rule closer)
      rw [hahead] at hexpected
      refine ⟨c.behind, hc, Nat.le_refl _, ?_, by simp⟩
      rw [List.reverse_cons]
      exact hfaults.append (.one (Nat.le_refl _) (Nat.le_refl _) hexpected)
  | case2 steps number c items faults t rest hahead hkind =>
      refine ⟨c.behind, (hc.past hahead).on, Nat.le_succ _, hfaults, ?_⟩
      rintro _ ⟨⟩
      rw [hc.getElem?, hahead, List.head?_cons, Option.map_some]
  | case3 steps number c items faults t rest hahead hkind r items' faults' hstill skipped =>
      obtain ⟨hreaches, hclosing⟩ := skipTo_reaches [closer] (hitem hc).on
      exact ⟨skipped.2.behind, hreaches.on, Nat.le_refl _,
        (hmore number hc hfaults).mono (Nat.le_refl _) hreaches.le, hclosing⟩
  | case4 number c items faults t rest hahead hkind r items' faults' hmoved =>
      exact ⟨r.next.behind, (hitem hc).on, Nat.le_refl _, hmore number hc hfaults, by simp⟩
  | case5 number c items faults t rest hahead hkind r items' faults' hmoved step steps ih =>
      exact ih (hitem hc).on (hmore number hc hfaults)

theorem bracketed_ends {item : Cursor → Reading (Option α)} (hitem : Orderly item)
    (opener closer : Token.Kind) (rule : Rule) (hc : c.On ts) :
    ∃ place, Ends ts c.behind place ((bracketed opener closer rule item c).value.bind (·.closing))
      (bracketed opener closer rule item c) := by
  generalize hr : bracketed opener closer rule item c = r
  cases bracketed_iff.1 hr with
  | unopened hopening =>
      exact ⟨c.behind, hc, Nat.le_refl _,
        .one (Nat.le_refl _) (Nat.le_refl _) (at_of_punctuator hc hopening), nofun⟩
  | @opened opening c₁ hopening =>
      obtain ⟨hreaches, -⟩ := reaches_of_punctuator hc hopening
      obtain ⟨place, hends⟩ := itemsFrom_ends hitem closer rule c₁.ahead 1 [] [] hreaches.on
        (.nil hreaches.le)
      exact ⟨place, hends.on, hends.le, hends.faults, hends.closing⟩

theorem bracketed_orderly {item : Cursor → Reading (Option α)} (hitem : Orderly item)
    (opener closer : Token.Kind) (rule : Rule) : Orderly (bracketed opener closer rule item) := by
  intro ts c hc
  obtain ⟨place, hends⟩ := bracketed_ends hitem opener closer rule hc
  exact ⟨hends.on, hends.faults.mono (Nat.le_refl _) hends.le⟩

/-- At level zero a rule refuses to read anything. -/
theorem tooDeep_orderly {ts : List Token} {c : Cursor} (value : α) (hc : c.On ts) :
    (Reading.refuse value .tooDeep c).Orderly ts c :=
  .of_refuse hc.refl (Fault.at_tooDeep ts _)

/-- A list without an item is reported at its closing bracket, behind the faults of its items. -/
theorem nonEmpty_orderly {item : Nat → Cursor → Reading (Option α)}
    (hitem : ∀ level, Orderly (item level)) (opener closer : Token.Kind) (list rule : Rule)
    (level : Nat) : Orderly (nonEmpty opener closer list rule item level) := by
  intro ts c hc
  cases level with
  | zero => exact tooDeep_orderly _ hc
  | succ level =>
      obtain ⟨place, hends⟩ := bracketed_ends (hitem level) opener closer rule hc
      have hlist := Context.from_rule ts list
      refine ⟨hends.on, (hends.faults.withinAll hlist).append ?_⟩
      change FaultsBetween ts place (bracketed opener closer rule (item level) c).next.behind
        (emptyFaults list (bracketed opener closer rule (item level) c).value)
      unfold emptyFaults
      split
      · next opening closing hvalue =>
          have hat : (Cause.empty closing).At ts place :=
            hends.closing closing (by rw [hvalue]; rfl)
          exact .one (Nat.le_refl _) hends.le ((Fault.at_bare hat).within hlist)
      · exact .nil hends.le

end Grammar

end SelectionCheck
