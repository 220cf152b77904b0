import SelectionCheck.Text.Quoted

/-!
# Texts on one line

A text is on one line if it has neither a line feed nor a carriage return. Numbers and quoted texts
are, whatever they stand for, and so is the encoding of every character but the two. Texts on one
line can be told apart again after they were joined with line feeds.
-/

namespace SelectionCheck.Text

/-- The text has no line feed and no carriage return. -/
def OneLine (text : Text) : Prop :=
  ∀ b ∈ text, b ≠ 0x0A ∧ b ≠ 0x0D

instance (text : Text) : Decidable (OneLine text) :=
  List.decidableBAll (fun b => b ≠ 0x0A ∧ b ≠ 0x0D) text

@[simp]
theorem oneLine_nil : OneLine [] := by simp [OneLine]

@[simp]
theorem oneLine_cons {b : UInt8} {text : Text} :
    OneLine (b :: text) ↔ (b ≠ 0x0A ∧ b ≠ 0x0D) ∧ OneLine text := by
  simp [OneLine]

@[simp]
theorem oneLine_append {text more : Text} :
    OneLine (text ++ more) ↔ OneLine text ∧ OneLine more := by
  simp only [OneLine, List.forall_mem_append]

theorem OneLine.append {text more : Text} (h : OneLine text) (h' : OneLine more) :
    OneLine (text ++ more) :=
  oneLine_append.2 ⟨h, h'⟩

theorem oneLine_flatMap {α : Type} {parts : List α} {spell : α → Text}
    (h : ∀ part ∈ parts, OneLine (spell part)) : OneLine (parts.flatMap spell) := by
  intro b hb
  obtain ⟨part, hpart, hmem⟩ := List.mem_flatMap.1 hb
  exact h part hpart b hmem

theorem oneLine_join {separator : Text} {parts : List Text} (hseparator : OneLine separator)
    (h : ∀ part ∈ parts, OneLine part) : OneLine (join separator parts) := by
  induction parts with
  | nil => exact oneLine_nil
  | cons part parts ih =>
      cases parts with
      | nil => simpa using h
      | cons next parts =>
          rw [join_cons_cons]
          have hrest := ih fun part hpart => h part (List.mem_cons_of_mem _ hpart)
          simp [h part List.mem_cons_self, hseparator, hrest]

/-! ## Characters -/

/-- All bytes of a longer encoding are above the controls. -/
theorem ofNat_add_ne {n m : Nat} (hn : n < 128) (hm : 128 ≤ m) (hsum : n + m < 256) :
    UInt8.ofNat (n + m) ≠ 0x0A ∧ UInt8.ofNat (n + m) ≠ 0x0D := by
  constructor <;> intro h <;> have := congrArg UInt8.toNat h <;>
    simp [UInt8.toNat_ofNat'] at this <;> omega

theorem oneLine_utf8EncodeChar_iff (c : Char) :
    OneLine (String.utf8EncodeChar c) ↔ c.toNat ≠ 0x0A ∧ c.toNat ≠ 0x0D := by
  change OneLine (String.utf8EncodeChar c) ↔ c.val.toNat ≠ 0x0A ∧ c.val.toNat ≠ 0x0D
  have hc : c.val.toNat < 1114112 := by
    have := c.valid
    rcases this with h | h <;> omega
  unfold String.utf8EncodeChar
  generalize c.val.toNat = v at hc ⊢
  simp only
  split
  · next hle =>
      simp only [oneLine_cons, oneLine_nil, and_true]
      have heq : ∀ n < 128, (UInt8.ofNat n ≠ 0x0A ∧ UInt8.ofNat n ≠ 0x0D) ↔ n ≠ 0x0A ∧ n ≠ 0x0D := by
        decide +kernel
      exact heq _ (by omega)
  · next hlt =>
      refine iff_of_true ?_ ⟨by omega, by omega⟩
      split
      · simp only [oneLine_cons, oneLine_nil, and_true]
        exact ⟨ofNat_add_ne (by omega) (by omega) (by omega),
          ofNat_add_ne (by omega) (by omega) (by omega)⟩
      · split
        · simp only [oneLine_cons, oneLine_nil, and_true]
          exact ⟨ofNat_add_ne (by omega) (by omega) (by omega),
            ofNat_add_ne (by omega) (by omega) (by omega),
            ofNat_add_ne (by omega) (by omega) (by omega)⟩
        · simp only [oneLine_cons, oneLine_nil, and_true]
          exact ⟨ofNat_add_ne (by omega) (by omega) (by omega),
            ofNat_add_ne (by omega) (by omega) (by omega),
            ofNat_add_ne (by omega) (by omega) (by omega),
            ofNat_add_ne (by omega) (by omega) (by omega)⟩

theorem oneLine_ofString {s : String} (h : ∀ c ∈ s.toList, c.toNat ≠ 0x0A ∧ c.toNat ≠ 0x0D) :
    OneLine (ofString s) :=
  oneLine_flatMap fun c hc => (oneLine_utf8EncodeChar_iff c).2 (h c hc)

theorem OneLine.literal {characters : List Char}
    (h : characters.all (fun c => c.toNat ≠ 0x0A ∧ c.toNat ≠ 0x0D) = true) :
    OneLine (ofString (String.ofList characters)) := by
  refine oneLine_ofString fun c hc => ?_
  rw [String.toList_ofList] at hc
  exact of_decide_eq_true (List.all_eq_true.1 h c hc)

/-- A number that is no character is encoded like zero. -/
theorem oneLine_encode_iff (code : Nat) : OneLine (encode code) ↔ code ≠ 0x0A ∧ code ≠ 0x0D := by
  rw [encode, oneLine_utf8EncodeChar_iff]
  by_cases h : code.isValidChar
  · have hcode : (Char.ofNat code).toNat = code := by
      rw [Char.ofNat, dif_pos h]
      rfl
    rw [hcode]
  · have hcode : (Char.ofNat code).toNat = 0 := by
      rw [Char.ofNat, dif_neg h]
      rfl
    rw [hcode]
    refine iff_of_true ⟨by decide, by decide⟩ ⟨?_, ?_⟩
    · rintro rfl
      exact h (by decide)
    · rintro rfl
      exact h (by decide)

/-! ## Numbers -/

theorem oneLine_ofNat (n : Nat) : OneLine (ofNat n) := by
  refine oneLine_ofString fun c hc => ?_
  rw [Nat.toList_repr] at hc
  have hdigit := Nat.isDigit_of_mem_toDigits (by decide) (by decide) hc
  have hle : 48 ≤ c.toNat := (Char.isDigit_iff_toNat.1 hdigit).1
  omega

theorem oneLine_ofInt (n : Int) : OneLine (ofInt n) := by
  cases n with
  | ofNat n => exact oneLine_ofNat n
  | negSucc n => exact oneLine_cons.2 ⟨by decide, oneLine_ofNat (n + 1)⟩

theorem oneLine_hex (width n : Nat) : OneLine (hex width n) := by
  induction width generalizing n with
  | zero => exact oneLine_nil
  | succ width ih =>
      have hdigit : ∀ m < 16, OneLine [hexDigit m] := by decide
      exact .append (ih _) (hdigit _ (Nat.mod_lt n (by decide)))

/-! ## Quoted texts -/

theorem oneLine_quotedChar (code : Nat) : OneLine (quotedChar code) := by
  have hline : ∀ n, n = 0x0A ∨ n = 0x0D → isPrintable n = false := by
    rintro n (rfl | rfl) <;> decide +kernel
  rw [quotedChar]
  split
  · next hquoted =>
      refine oneLine_cons.2 ⟨by decide, (oneLine_encode_iff code).2 ?_⟩
      simp only [Bool.or_eq_true, decide_eq_true_eq] at hquoted
      omega
  · split
    · next hprintable =>
        refine (oneLine_encode_iff code).2 ⟨?_, ?_⟩
        · intro heq; simp [hline code (.inl heq)] at hprintable
        · intro heq; simp [hline code (.inr heq)] at hprintable
    · split
      · next letter hletter =>
          unfold controlLetter? at hletter
          split at hletter <;> cases hletter <;> decide
      · split
        · exact .append (by decide) (oneLine_hex 2 code)
        · split
          · exact .append (by decide) (oneLine_hex 4 code)
          · exact .append (by decide) (oneLine_hex 8 code)

theorem oneLine_quote (text : Text) : OneLine (quote text) := by
  have hrune : ∀ rune : Rune, OneLine rune.quoted := by
    rintro (code | b)
    · exact oneLine_quotedChar code
    · exact .append (by decide) (oneLine_hex 2 b.toNat)
  refine .append (.append (by decide) ?_) (by decide)
  exact oneLine_flatMap fun rune _ => hrune rune

/-! ## Lines -/

theorem OneLine.feed_not_mem {text : Text} (h : OneLine text) : 0x0A ∉ text :=
  fun hmem => (h _ hmem).1 rfl

/-- Lines that are joined with line feeds can be told apart again. -/
theorem splitOn_join {parts : List Text} (hne : parts ≠ []) (h : ∀ part ∈ parts, OneLine part) :
    (join "\n" parts).splitOn 0x0A = parts :=
  List.splitOn_intercalate 0x0A (fun part hpart => (h part hpart).feed_not_mem) hne

/-- Lines that each end with a line feed can be told apart, and nothing stands behind the last. -/
theorem splitOn_flatMap_feed {parts : List Text} (h : ∀ part ∈ parts, OneLine part) :
    (parts.flatMap fun part => part ++ ofString "\n").splitOn 0x0A = parts ++ [[]] := by
  have hjoin : (parts.flatMap fun part => part ++ ofString "\n") = join "\n" (parts ++ [[]]) := by
    induction parts with
    | nil => rfl
    | cons part parts ih =>
        have hrest := ih fun part hpart => h part (List.mem_cons_of_mem _ hpart)
        rw [List.flatMap_cons, hrest]
        cases parts with
        | nil => simp [join]
        | cons next parts => simp [join_cons_cons]
  rw [hjoin]
  refine splitOn_join (by simp) fun part hpart => ?_
  rcases List.mem_append.1 hpart with hpart | hpart
  · exact h part hpart
  · rw [List.mem_singleton.1 hpart]
    exact oneLine_nil

end SelectionCheck.Text
