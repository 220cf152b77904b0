import SelectionCheck.Proofs.Document.Cases
import SelectionCheck.Proofs.Document.Piece
import SelectionCheck.Proofs.Token.Lexer

/-!
# What a reader takes

`Reads pieces c c'` says that on the way from the cursor `c` to the cursor `c'` the tokens taken
spell the pieces. It holds of tokens as the splitting of a text gives them: punctuators with their
own spelling, offsets that grow. The condition is kept inside the relation and speaks of the tokens
taken only, so readings one after the other compose without carrying it along.

Readers recover from what they refuse, and some pass over tokens while they do. The statements
below are about readings without faults: such a reading of an item takes a token, so the search for
a closing bracket never begins, and the count of steps never runs out.
-/

namespace SelectionCheck

variable {α β : Type}

theorem Spells.exists_denotes {ps : List Piece} {ts : List Token} (h : Spells ps ts) {p : Piece}
    (hp : p ∈ ps) (hoptional : p.optional = false) : ∃ t ∈ ts, p.Denotes t := by
  induction h with
  | nil => cases hp
  | @take q t qs us hq _ ih =>
      rcases List.mem_cons.1 hp with rfl | hmem
      · exact ⟨t, List.mem_cons_self, hq⟩
      · obtain ⟨u, hu, hdenotes⟩ := ih hmem
        exact ⟨u, List.mem_cons_of_mem t hu, hdenotes⟩
  | @skip q qs us hq _ ih =>
      rcases List.mem_cons.1 hp with rfl | hmem
      · rw [hq] at hoptional
        cases hoptional
      · exact ih hmem

/-- An offset that a piece keeps is the offset of one of the tokens spelled. -/
theorem Spells.exists_start {ps : List Piece} {ts : List Token} (h : Spells ps ts) {p : Piece}
    {offset : Nat} (hp : p ∈ ps) (hplace : p.place = .recorded (some offset))
    (hoptional : p.optional = false) : ∃ t ∈ ts, t.start = offset := by
  obtain ⟨t, ht, hdenotes⟩ := h.exists_denotes hp hoptional
  have hagrees := hdenotes.agrees
  rw [hplace] at hagrees
  exact ⟨t, ht, (Option.some.inj hagrees).symm⟩

/-! ## Readings one after the other -/

/-- The tokens between two cursors spell the pieces. -/
def Reads (ps : List Piece) (c c' : Cursor) : Prop :=
  ∃ taken, c.ahead = taken ++ c'.ahead ∧ c'.behind = c.behind + taken.length ∧
    (Lexed taken → Spells ps taken)

/-- The tokens between two cursors spell the pieces, and there is at least one. -/
def Takes (ps : List Piece) (c c' : Cursor) : Prop :=
  Reads ps c c' ∧ c.behind < c'.behind

namespace Reads

variable {ps qs : List Piece} {c c' c'' : Cursor}

theorem refl (c : Cursor) : Reads [] c c :=
  ⟨[], rfl, rfl, fun _ => .nil⟩

theorem trans (h : Reads ps c c') (h' : Reads qs c' c'') : Reads (ps ++ qs) c c'' := by
  obtain ⟨ts, hahead, hbehind, hspells⟩ := h
  obtain ⟨us, hahead', hbehind', hspells'⟩ := h'
  refine ⟨ts ++ us, ?_, ?_, ?_⟩
  · rw [hahead, hahead', List.append_assoc]
  · rw [hbehind', hbehind, List.length_append, Nat.add_assoc]
  · intro hlexed
    exact (hspells hlexed.left).append (hspells' hlexed.right)

theorem behind_le (h : Reads ps c c') : c.behind ≤ c'.behind := by
  obtain ⟨ts, -, hbehind, -⟩ := h
  omega

/-- A cursor moves forward by the tokens that it leaves behind. -/
theorem length_add_behind (h : Reads ps c c') :
    c'.ahead.length + c'.behind = c.ahead.length + c.behind := by
  obtain ⟨ts, hahead, hbehind, -⟩ := h
  rw [hahead, hbehind, List.length_append]
  omega

theorem trans_takes (h : Reads ps c c') (h' : Takes qs c' c'') : Takes (ps ++ qs) c c'' :=
  ⟨h.trans h'.1, Nat.lt_of_le_of_lt h.behind_le h'.2⟩

end Reads

namespace Takes

variable {ps qs : List Piece} {c c' c'' : Cursor}

theorem trans (h : Takes ps c c') (h' : Reads qs c' c'') : Takes (ps ++ qs) c c'' :=
  ⟨h.1.trans h', Nat.lt_of_lt_of_le h.2 h'.behind_le⟩

theorem one {t : Token} {rest : List Token} {p : Piece} (h : c.ahead = t :: rest)
    (hp : Lexed [t] → p.Denotes t) : Takes [p] c (c.past rest) :=
  ⟨⟨[t], h, rfl, fun hlexed => .singleton (hp hlexed)⟩, Nat.lt_succ_self _⟩

theorem lexeme {t : Token} {rest : List Token} {text : Text} (h : c.ahead = t :: rest)
    (htext : t.text = text) : Takes [.lexeme t.kind text t.start] c (c.past rest) :=
  one h fun _ => ⟨rfl, htext, rfl⟩

end Takes

namespace Reading

variable (f : α → β) (context : Context) (r : Reading α)

@[simp]
theorem value_map : (r.map f).value = f r.value := rfl

@[simp]
theorem faults_map : (r.map f).faults = r.faults := rfl

@[simp]
theorem next_map : (r.map f).next = r.next := rfl

@[simp]
theorem value_within : (r.within context).value = r.value := rfl

@[simp]
theorem next_within : (r.within context).next = r.next := rfl

@[simp]
theorem faults_within : (r.within context).faults = [] ↔ r.faults = [] := by
  simp [within, withinAll]

variable {r}

theorem eq_of_faults {a : α} (hfaults : r.faults = []) (hvalue : r.value = a) :
    r = ⟨a, [], r.next⟩ := by
  rw [← hfaults, ← hvalue]

end Reading

namespace Grammar

variable {c c' : Cursor}

theorem name_of_kind {t : Token} {rest : List Token} (hahead : c.ahead = t :: rest)
    (ht : t.kind = .name) : name c = .ok (⟨t.text, t.start⟩, c.past rest) :=
  name_iff.2 (.found hahead ht)

theorem punctuator_of_kind {kind : Token.Kind} {t : Token} {rest : List Token}
    (hahead : c.ahead = t :: rest) (ht : t.kind = kind) :
    punctuator kind c = .ok (t.start, c.past rest) :=
  punctuator_iff.2 (.found hahead ht)

theorem takes_of_name {n : Name} (h : name c = .ok (n, c')) : Takes [n.piece] c c' := by
  cases name_iff.1 h with
  | found hahead hkind =>
      rw [Name.piece, ← hkind]
      exact Takes.lexeme hahead rfl

/-- A punctuator is taken, whatever the tree keeps of it. -/
theorem takes_of_punctuator {kind : Token.Kind} {offset : Nat} {p : Piece}
    (h : punctuator kind c = .ok (offset, c')) (hkind : p.kind = kind)
    (htext : p.text = kind.spelling) (hplace : p.place.Agrees offset)
    (hspelling : kind.spelling ≠ "") : Takes [p] c c' := by
  cases punctuator_iff.1 h with
  | @found t rest hahead ht =>
      refine Takes.one hahead fun hlexed => ⟨ht.trans hkind.symm, ?_, hplace⟩
      rw [hlexed.spelled t List.mem_cons_self (by rw [ht]; exact hspelling), ht, htext]

theorem takes_of_mark {kind : Token.Kind} {offset : Nat}
    (h : punctuator kind c = .ok (offset, c')) (hspelling : kind.spelling ≠ "" := by decide) :
    Takes [.mark kind (some offset)] c c' :=
  takes_of_punctuator h rfl rfl rfl hspelling

/-! ## Readers of optional values -/

/-- A reading without faults gives a value, and takes the tokens that spell it. -/
def Sound (reader : Cursor → Reading (Option α)) (pieces : α → List Piece) : Prop :=
  ∀ c, (reader c).faults = [] →
    ∃ a, (reader c).value = some a ∧ Takes (pieces a) c (reader c).next

/-- A reading without faults takes the tokens that spell its value. -/
def Faithful (reader : Cursor → Reading α) (pieces : α → List Piece) : Prop :=
  ∀ c, (reader c).faults = [] → Takes (pieces (reader c).value) c (reader c).next

theorem Faithful.some {reader : Cursor → Reading α} {pieces : α → List Piece}
    (h : Faithful reader pieces) : Sound (fun c => (reader c).map some) pieces :=
  fun c hfaults => ⟨(reader c).value, rfl, h c hfaults⟩

@[simp]
theorem withinAll_eq_nil {context : Context} {faults : List Fault} :
    withinAll context faults = [] ↔ faults = [] := by
  simp [withinAll]

theorem Sound.within {reader : Cursor → Reading (Option α)} {pieces : α → List Piece}
    (h : Sound reader pieces) (context : Context) :
    Sound (fun c => (reader c).within context) pieces :=
  fun c hfaults => h c ((Reading.faults_within context (reader c)).1 hfaults)

theorem Sound.whenNext {reader : Cursor → Reading (Option α)} {pieces : α → List Piece}
    (h : Sound reader pieces) (kind : Token.Kind) {c : Cursor}
    (hfaults : (whenNext kind reader c).faults = []) :
    Reads ((whenNext kind reader c).value.elim [] pieces) c (whenNext kind reader c).next := by
  rw [Grammar.whenNext] at hfaults ⊢
  split at hfaults
  · next hkind =>
      rw [if_pos hkind]
      obtain ⟨a, hvalue, htakes⟩ := h c hfaults
      rw [hvalue]
      exact htakes.1
  · next hkind =>
      rw [if_neg hkind]
      exact Reads.refl c

/-- A value that the reader gives without faults is spelled by the tokens taken. -/
def Taking (reader : Cursor → Reading (Option α)) (pieces : α → List Piece) : Prop :=
  ∀ ⦃c c' a⦄, reader c = ⟨some a, [], c'⟩ → Takes (pieces a) c c'

theorem Sound.taking {reader : Cursor → Reading (Option α)} {pieces : α → List Piece}
    (hsound : Sound reader pieces) : Taking reader pieces := by
  intro c c' a h
  obtain ⟨a', hvalue, htakes⟩ := hsound c (by rw [h])
  rw [h] at hvalue htakes
  cases hvalue
  exact htakes

/-! ## Rows of items -/

/-- The reader gives the items one after the other, without faults. -/
inductive Row (item : Cursor → Reading (Option α)) : Cursor → List α → Cursor → Prop
  | nil (c : Cursor) : Row item c [] c
  | cons {c c' c'' : Cursor} {a : α} {items : List α} (hitem : item c = ⟨some a, [], c'⟩)
      (hrow : Row item c' items c'') : Row item c (a :: items) c''

/-- The tokens of a row are those of its items, one item after the other. -/
theorem Row.reads {item : Cursor → Reading (Option α)} {pieces : α → List Piece} {items : List α}
    (hitem : Taking item pieces) (h : Row item c items c') :
    Reads (items.flatMap pieces) c c' := by
  induction h with
  | nil c => exact .refl c
  | cons hread _ ih => exact (hitem hread).1.trans ih

/-! ## Bracketed lists -/

section Bracketed

variable {opener closer : Token.Kind} {rule list : Rule} {item : Cursor → Reading (Option α)}
  {pieces : α → List Piece}

theorem itemsFrom_of_closer {steps : List Token} {number : Nat} {c : Cursor} {items : List α}
    {faults : List Fault} {t : Token} {rest : List Token} (hahead : c.ahead = t :: rest)
    (ht : t.kind = closer) :
    itemsFrom closer rule item steps number c items faults =
      ⟨(items.reverse, some t.start), faults.reverse, c.past rest⟩ := by
  rw [itemsFrom, hahead]
  exact if_pos ht

/-- One item more, when reading it moves the cursor. -/
theorem itemsFrom_of_moves {step : Token} {steps : List Token} {number : Nat} {c : Cursor}
    {items : List α} {faults : List Fault} {t : Token} {rest : List Token}
    (hahead : c.ahead = t :: rest) (ht : t.kind ≠ closer)
    (hmoves : (item c).next.behind ≠ c.behind) :
    itemsFrom closer rule item (step :: steps) number c items faults =
      itemsFrom closer rule item steps (number + 1) (item c).next
        ((item c).value.toList ++ items)
        ((withinAll (.item rule number) (item c).faults).reverse ++ faults) := by
  rw [itemsFrom, hahead]
  simp only [if_neg ht, if_neg hmoves]

/-- Faults are never dropped: neither those met before nor those of the item that comes next. -/
theorem faults_eq_nil_of_itemsFrom {steps : List Token} {number : Nat} {c : Cursor}
    {items : List α} {faults : List Fault}
    (hfaults : (itemsFrom closer rule item steps number c items faults).faults = []) :
    faults = [] ∧
      ∀ t rest, c.ahead = t :: rest → t.kind ≠ closer → (item c).faults = [] := by
  induction steps generalizing number c items faults with
  | nil =>
      rw [itemsFrom] at hfaults
      split at hfaults
      · simp at hfaults
      · next t rest hahead =>
          by_cases ht : t.kind = closer
          · simp_all
          · simp only [if_neg ht] at hfaults
            split at hfaults <;> simp_all
  | cons step steps ih =>
      match hahead : c.ahead with
      | [] =>
          rw [itemsFrom, hahead] at hfaults
          simp at hfaults
      | t :: rest =>
          by_cases ht : t.kind = closer
          · rw [itemsFrom_of_closer hahead ht] at hfaults
            simp_all
          · by_cases hmoves : (item c).next.behind = c.behind
            · rw [itemsFrom, hahead] at hfaults
              simp only [if_neg ht, if_pos hmoves] at hfaults
              simp_all
            · rw [itemsFrom_of_moves hahead ht hmoves] at hfaults
              have hboth := List.append_eq_nil_iff.1 (ih hfaults).1
              refine ⟨hboth.2, fun _ _ _ _ => ?_⟩
              simpa using hboth.1

/-- Without faults the items up to a closing bracket are a row, and the bracket stands behind it.
Every item takes a token, so the tokens ahead never outnumber the steps left. -/
theorem itemsFrom_row (hitem : Sound item pieces) {steps : List Token} {number : Nat}
    {c : Cursor} {items : List α} {faults : List Fault} (hsteps : c.ahead.length ≤ steps.length)
    (hfaults : (itemsFrom closer rule item steps number c items faults).faults = []) :
    ∃ more closing c₁,
      (itemsFrom closer rule item steps number c items faults).value =
        (items.reverse ++ more, some closing) ∧ Row item c more c₁ ∧
      punctuator closer c₁ =
        .ok (closing, (itemsFrom closer rule item steps number c items faults).next) := by
  induction steps generalizing number c items faults with
  | nil =>
      have hahead : c.ahead = [] := List.length_eq_zero_iff.1 (Nat.le_zero.1 hsteps)
      rw [itemsFrom, hahead] at hfaults
      simp at hfaults
  | cons step steps ih =>
      cases hahead : c.ahead with
      | nil =>
          rw [itemsFrom, hahead] at hfaults
          simp at hfaults
      | cons t rest =>
          by_cases ht : t.kind = closer
          · rw [itemsFrom_of_closer hahead ht]
            exact ⟨[], t.start, c, by simp, .nil c, punctuator_of_kind hahead ht⟩
          · have hnone := (faults_eq_nil_of_itemsFrom hfaults).2 t rest hahead ht
            obtain ⟨a, hvalue, htakes⟩ := hitem c hnone
            rw [itemsFrom_of_moves hahead ht (Nat.ne_of_gt htakes.2)] at hfaults ⊢
            have hlength := htakes.1.length_add_behind
            have hmoves := htakes.2
            obtain ⟨more, closing, c₁, hmore, hrow, hclosing⟩ :=
              ih (by rw [List.length_cons] at hsteps; omega) hfaults
            refine ⟨a :: more, closing, c₁, ?_, .cons ?_ hrow, hclosing⟩
            · rw [hmore, hvalue]
              simp
            · exact Reading.eq_of_faults hnone hvalue

theorem bracketed_sound (hitem : Sound item pieces) (hopener : opener.spelling ≠ "")
    (hcloser : closer.spelling ≠ "") :
    Sound (bracketed opener closer rule item) (Bracketed.pieces opener closer pieces) := by
  intro c hfaults
  generalize hr : bracketed opener closer rule item c = r at hfaults ⊢
  cases bracketed_iff.1 hr with
  | unopened => cases hfaults
  | @opened opening c₁ hopening =>
      obtain ⟨items, closing, c₂, hvalue, hrow, hclosing⟩ :=
        itemsFrom_row hitem (Nat.le_refl _) hfaults
      refine ⟨⟨opening, items, some closing⟩, ?_, ?_⟩
      · rw [Reading.value_map, hvalue]
        rfl
      · exact (takes_of_mark hopening hopener).trans
          ((hrow.reads hitem.taking).trans (takes_of_mark hclosing hcloser).1)

theorem nonEmpty_sound {item : Nat → Cursor → Reading (Option α)}
    (hitem : ∀ level, Sound (item level) pieces) (hopener : opener.spelling ≠ "")
    (hcloser : closer.spelling ≠ "") (level : Nat) :
    Sound (nonEmpty opener closer list rule item level)
      (Bracketed.pieces opener closer pieces) := by
  intro c hfaults
  cases level with
  | zero => cases hfaults
  | succ level =>
      exact (bracketed_sound (hitem level) hopener hcloser).within _ c
        (List.append_eq_nil_iff.1 hfaults).1

end Bracketed

end Grammar

end SelectionCheck
