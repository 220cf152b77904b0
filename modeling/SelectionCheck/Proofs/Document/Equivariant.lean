import SelectionCheck.Proofs.Document.Cases
import SelectionCheck.Proofs.Document.Relocation

/-!
# Readers hand offsets on

The tokens, cursors, faults and readings that readers work with have offsets too. For every reader
there is a lemma that it is equivariant; those about the readers of one rule rest on those about
the readers of its parts. A reader that is given another one, such as the reader of a bracketed
list, is equivariant if the other one is.
-/

namespace SelectionCheck

open Placed (relocate)

variable {α β : Type} [Placed α] [Placed β] (f : Nat → Nat)

/-! ## Tokens, faults and readings -/

instance : Placed Token := ⟨fun f t => ⟨t.kind, t.text, f t.start⟩⟩

instance : Placed Cursor := ⟨fun f c => ⟨relocate f c.ahead, c.behind⟩⟩

instance : Placed Cause :=
  ⟨fun f => fun
    | .expected wanted found => .expected wanted (relocate f found)
    | .noValue found => .noValue (relocate f found)
    | .variableInConstant dollar => .variableInConstant (f dollar)
    | .fragmentNamedOn start => .fragmentNamedOn (f start)
    | .reservedEnumValue name => .reservedEnumValue (relocate f name)
    | .empty closing => .empty (f closing)
    | .tooDeep => .tooDeep⟩

instance : Placed Fault := ⟨fun f fault => ⟨fault.context, relocate f fault.cause⟩⟩

instance : Placed (Reading α) :=
  ⟨fun f r => ⟨relocate f r.value, relocate f r.faults, relocate f r.next⟩⟩

@[simp]
theorem Token.kind_relocate (t : Token) : (relocate f t).kind = t.kind := rfl

@[simp]
theorem Token.text_relocate (t : Token) : (relocate f t).text = t.text := rfl

@[simp]
theorem Token.start_relocate (t : Token) : (relocate f t).start = f t.start := rfl

@[simp]
theorem Cursor.relocate_mk (ahead : List Token) (behind : Nat) :
    relocate f (⟨ahead, behind⟩ : Cursor) = ⟨relocate f ahead, behind⟩ := rfl

@[simp]
theorem Cursor.behind_relocate (c : Cursor) : (relocate f c).behind = c.behind := rfl

@[simp]
theorem Cursor.ahead_relocate (c : Cursor) : (relocate f c).ahead = relocate f c.ahead := rfl

theorem Cursor.ahead_relocate_of_cons {c : Cursor} {t : Token} {rest : List Token}
    (h : c.ahead = t :: rest) : (relocate f c).ahead = relocate f t :: relocate f rest := by
  rw [ahead_relocate, h, relocate_cons]

theorem Cursor.head?_relocate (c : Cursor) :
    (relocate f c).ahead.head? = relocate f c.ahead.head? :=
  (relocate_head? f c.ahead).symm

theorem Cursor.forall_head?_relocate {c : Cursor} {p : Token → Prop}
    (hp : ∀ t, p t → p (relocate f t)) (h : ∀ t ∈ c.ahead.head?, p t) :
    ∀ t ∈ (relocate f c).ahead.head?, p t := by
  rw [head?_relocate]
  intro _ ht
  obtain ⟨t, hhead, rfl⟩ := Option.map_eq_some_iff.1 ht
  exact hp t (h t hhead)

@[simp]
theorem Cursor.relocate_past (c : Cursor) (rest : List Token) :
    relocate f (c.past rest) = (relocate f c).past (relocate f rest) := rfl

@[simp]
theorem Cursor.kind?_relocate (c : Cursor) : (relocate f c).kind? = c.kind? := by
  obtain ⟨ahead, behind⟩ := c
  cases ahead <;> rfl

@[simp]
theorem Fault.relocate_within (context : Context) (fault : Fault) :
    relocate f (fault.within context) = (relocate f fault).within context := rfl

@[simp]
theorem Fault.relocate_expected (wanted : Wanted) (found : Option Token) :
    relocate f (Fault.expected wanted found) = .expected wanted (relocate f found) := rfl

@[simp]
theorem relocate_withinAll (context : Context) (faults : List Fault) :
    relocate f (withinAll context faults) = withinAll context (relocate f faults) := by
  induction faults with
  | nil => rfl
  | cons fault faults ih => exact congrArg (_ :: ·) ih

namespace Reading

@[simp]
theorem relocate_mk (value : α) (faults : List Fault) (next : Cursor) :
    relocate f (⟨value, faults, next⟩ : Reading α) =
      ⟨relocate f value, relocate f faults, relocate f next⟩ := rfl

@[simp]
theorem relocate_refuse (value : α) (fault : Fault) (c : Cursor) :
    relocate f (refuse value fault c) =
      refuse (relocate f value) (relocate f fault) (relocate f c) := rfl

@[simp]
theorem value_relocate (r : Reading α) : (relocate f r).value = relocate f r.value := rfl

@[simp]
theorem faults_relocate (r : Reading α) : (relocate f r).faults = relocate f r.faults := rfl

@[simp]
theorem next_relocate (r : Reading α) : (relocate f r).next = relocate f r.next := rfl

@[simp]
theorem relocate_within (context : Context) (r : Reading α) :
    relocate f (r.within context) = (relocate f r).within context := by
  obtain ⟨value, faults, next⟩ := r
  rw [within, relocate_mk, relocate_withinAll]
  rfl

/-- The value may be changed before or after it is moved. -/
theorem map_relocate {r r' : Reading α} {g g' : α → β} (hr : r' = relocate f r)
    (h : ∀ a, g' (relocate f a) = relocate f (g a)) : r'.map g' = relocate f (r.map g) := by
  rw [hr, map, value_relocate, h, map]
  rfl

end Reading

theorem Equivariant.eq {g : α → β} (h : Equivariant g) (f : Nat → Nat) {a : α} {b : β}
    (hab : g a = b) : g (relocate f a) = relocate f b :=
  hab ▸ h f a

theorem Equivariant.map {reader : Cursor → Reading α} (h : Equivariant reader) {g : α → β}
    (hg : Equivariant g) : Equivariant fun c => (reader c).map g :=
  fun f c => Reading.map_relocate f (h f c) (hg f)

theorem Equivariant.within {reader : Cursor → Reading α} (h : Equivariant reader)
    (context : Context) : Equivariant fun c => (reader c).within context :=
  fun f c => (congrArg (Reading.within context) (h f c)).trans
    (Reading.relocate_within f context _).symm

theorem equivariant_some : Equivariant (some : α → Option α) :=
  fun _ _ => rfl

namespace Grammar

variable {item : Cursor → Reading (Option α)}

/-! ## Names and punctuators -/

theorem name_equivariant : Equivariant name := by
  intro f c
  generalize hr : name c = r
  cases name_iff.1 hr with
  | absent hkind =>
      rw [name_iff.2 (.absent (Cursor.kind?_relocate f c ▸ hkind)), Cursor.head?_relocate]
      rfl
  | found hahead hkind => exact name_iff.2 (.found (Cursor.ahead_relocate_of_cons f hahead) hkind)

theorem punctuator_equivariant (kind : Token.Kind) : Equivariant (punctuator kind) := by
  intro f c
  generalize hr : punctuator kind c = r
  cases punctuator_iff.1 hr with
  | absent hkind =>
      rw [punctuator_iff.2 (.absent (Cursor.kind?_relocate f c ▸ hkind)), Cursor.head?_relocate]
      rfl
  | found hahead hkind =>
      exact punctuator_iff.2 (.found (Cursor.ahead_relocate_of_cons f hahead) hkind)

section

variable {c : Cursor}

theorem name_relocate {r : Except Fault (Name × Cursor)} (h : name c = r) :
    name (relocate f c) = relocate f r :=
  name_equivariant.eq f h

theorem punctuator_relocate {kind : Token.Kind} {r : Except Fault (Nat × Cursor)}
    (h : punctuator kind c = r) : punctuator kind (relocate f c) = relocate f r :=
  (punctuator_equivariant kind).eq f h

end

theorem whenNext_equivariant (kind : Token.Kind) (h : Equivariant item) :
    Equivariant (whenNext kind item) := by
  intro f c
  simp only [whenNext, Cursor.kind?_relocate]
  split
  · exact h f c
  · rfl

/-! ## Bracketed lists -/

theorem skipTo_relocate (pending : List Token.Kind) (behind : Nat) (ahead : List Token) :
    skipTo pending behind (relocate f ahead) = relocate f (skipTo pending behind ahead) := by
  induction ahead generalizing pending behind with
  | nil => cases pending <;> rfl
  | cons t rest ih =>
      match pending with
      | [] => rfl
      | k :: ks =>
          rw [relocate_cons, skipTo, skipTo, Token.kind_relocate]
          split
          · exact ih _ _
          · split
            · split
              · rfl
              · exact ih _ _
            · exact ih _ _

theorem itemsFrom_relocate (closer : Token.Kind) (rule : Rule) (h : Equivariant item)
    (steps : List Token) (number : Nat) (c : Cursor) (items : List α) (faults : List Fault) :
    itemsFrom closer rule item (relocate f steps) number (relocate f c) (relocate f items)
        (relocate f faults) =
      relocate f (itemsFrom closer rule item steps number c items faults) := by
  induction steps generalizing number c items faults with
  | nil =>
      rw [itemsFrom, itemsFrom, Cursor.ahead_relocate]
      match c.ahead with
      | [] => simp
      | t :: rest =>
          simp only [relocate_cons, Token.kind_relocate]
          split
          · simp
          · rw [h f c]
            simp only [Reading.next_relocate, Cursor.behind_relocate]
            split <;> simp [skipTo_relocate]
  | cons step steps ih =>
      rw [itemsFrom, itemsFrom, Cursor.ahead_relocate]
      match c.ahead with
      | [] => simp
      | t :: rest =>
          simp only [relocate_cons, Token.kind_relocate]
          split
          · simp
          · rw [h f c]
            simp only [Reading.next_relocate, Cursor.behind_relocate]
            split
            · simp [skipTo_relocate]
            · simp [← ih]

theorem bracketed_equivariant (opener closer : Token.Kind) (rule : Rule) (h : Equivariant item) :
    Equivariant (bracketed opener closer rule item) := by
  intro f c
  generalize hr : bracketed opener closer rule item c = r
  cases bracketed_iff.1 hr with
  | unopened hopening =>
      exact bracketed_iff.2 (.unopened (punctuator_relocate f hopening))
  | @opened opening c₁ hopening =>
      have hitems := itemsFrom_relocate f closer rule h c₁.ahead 1 c₁ [] []
      rw [bracketed_iff.2 (.opened (punctuator_relocate f hopening))]
      exact Reading.map_relocate f hitems fun _ => rfl

theorem emptyFaults_relocate (list : Rule) (b : Option (Bracketed α)) :
    emptyFaults list (relocate f b) = relocate f (emptyFaults list b) := by
  match b with
  | none => rfl
  | some ⟨_, [], none⟩ => rfl
  | some ⟨_, [], some _⟩ => rfl
  | some ⟨_, _ :: _, _⟩ => rfl

theorem nonEmpty_equivariant {item : Nat → Cursor → Reading (Option α)}
    (opener closer : Token.Kind) (list rule : Rule) (h : ∀ level, Equivariant (item level))
    (level : Nat) : Equivariant (nonEmpty opener closer list rule item level) := by
  intro f c
  cases level with
  | zero => rfl
  | succ level =>
      rw [nonEmpty, bracketed_equivariant opener closer rule (h level)]
      simp [nonEmpty, Reading.within, emptyFaults_relocate]

end Grammar

end SelectionCheck
