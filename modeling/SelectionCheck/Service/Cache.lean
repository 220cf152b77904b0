/-!
# A store of limited size

The store keeps the entries used last. Looking an entry up and adding one both count as use; when
there are more entries than the capacity allows, the one not used for the longest time goes.
-/

namespace SelectionCheck

/-- Entries under keys, those used last first; at most `capacity` of them. -/
structure Cache (κ α : Type) where
  capacity : Nat
  entries : List (κ × α)
deriving Repr

namespace Cache

variable {κ α : Type} [DecidableEq κ]

def empty (capacity : Nat) : Cache κ α := ⟨capacity, []⟩

def without (key : κ) (entries : List (κ × α)) : List (κ × α) :=
  entries.filter (·.1 ≠ key)

def find? (cache : Cache κ α) (key : κ) : Option α :=
  (cache.entries.find? (·.1 = key)).map (·.2)

def touch (cache : Cache κ α) (key : κ) : Cache κ α :=
  match cache.find? key with
  | some a => { cache with entries := (key, a) :: without key cache.entries }
  | none => cache

/-- The store with an entry under a key, in place of any other under this key. -/
def add (cache : Cache κ α) (key : κ) (a : α) : Cache κ α :=
  { cache with entries := ((key, a) :: without key cache.entries).take cache.capacity }

/-- What was added last is found, if anything is kept at all. -/
theorem find?_add_self (cache : Cache κ α) (key : κ) (a : α) (h : 0 < cache.capacity) :
    (cache.add key a).find? key = some a := by
  obtain ⟨n, hn⟩ := Nat.exists_eq_succ_of_ne_zero (Nat.pos_iff_ne_zero.1 h)
  simp [add, find?, hn]

/-- The store never holds more than its capacity. -/
theorem length_entries_add_le (cache : Cache κ α) (key : κ) (a : α) :
    (cache.add key a).entries.length ≤ cache.capacity := by
  simp only [add, List.length_take]
  exact Nat.min_le_left _ _

theorem find?_without {key other : κ} (h : other ≠ key) (entries : List (κ × α)) :
    (without key entries).find? (·.1 = other) = entries.find? (·.1 = other) := by
  rw [without, List.find?_filter]
  congr 1
  funext entry
  by_cases hentry : entry.1 = other <;> simp [hentry, h]

/-- Using an entry does not change what is found. -/
theorem find?_touch (cache : Cache κ α) (key other : κ) :
    (cache.touch key).find? other = cache.find? other := by
  cases h : cache.find? key with
  | none => simp [touch, h]
  | some a =>
    simp only [touch, h]
    by_cases hother : other = key
    · rw [hother, h]
      simp [find?]
    · have hne : ¬ key = other := fun heq => hother heq.symm
      simp [find?, hne, find?_without hother]

/-- After an entry was added, what is found under a key is what was added there last, or nothing. -/
theorem find?_add (cache : Cache κ α) (key other : κ) (a : α) :
    (cache.add key a).find? other = none ∨
      (cache.add key a).find? other = if other = key then some a else cache.find? other := by
  cases h : (cache.add key a).find? other with
  | none => exact .inl rfl
  | some found =>
    obtain ⟨entry, hentry, rfl⟩ := Option.map_eq_some_iff.1 h
    have hwhole := (List.take_prefix _ _).find?_eq_some hentry
    right
    by_cases hother : other = key
    · rw [if_pos hother]
      rw [List.find?_cons_of_pos (by simp [hother])] at hwhole
      rw [← Option.some.inj hwhole]
    · have hne : ¬ key = other := fun heq => hother heq.symm
      rw [List.find?_cons_of_neg (by simp [hne]), find?_without hother] at hwhole
      rw [if_neg hother, find?, hwhole]
      rfl

def oldestFirst (cache : Cache κ α) : List α :=
  cache.entries.reverse.map (·.2)

end Cache

end SelectionCheck
