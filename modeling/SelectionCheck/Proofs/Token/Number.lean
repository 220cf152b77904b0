import SelectionCheck.Proofs.Token.Gaps

/-!
# Numbers

The grammar of numbers is written down part by part: `Whole`, `IntValue`, `Fraction`, `Exponent`,
and `FloatValue` for what has a fraction or an exponent. Each part has a scanner that gives its
length, and two facts tie a scanner to its part. What the scanner takes is such a part; and in front
of a text that begins with a part it takes at least this part, and more than it only as far as
digits go on. The next part begins with no digit, so of a number with several parts each scanner
takes its own, and no number at the head of a text is longer than the one that is taken.
-/

namespace SelectionCheck

namespace Token

open Text (byte isDigit runLength)

/-! ## The grammar -/

def Digits (text : Text) : Prop := ∀ d ∈ text, 0x30 ≤ d ∧ d ≤ 0x39

/-- A whole number without a sign: a zero alone, or digits of which the first is no zero. -/
inductive Whole : Text → Prop
  | zero : Whole [0x30]
  | digits {d : UInt8} {ds : Text} (hd : 0x31 ≤ d ∧ d ≤ 0x39) (hds : Digits ds) : Whole (d :: ds)

inductive IntValue : Text → Prop
  | plain {whole : Text} (h : Whole whole) : IntValue whole
  | minus {whole : Text} (h : Whole whole) : IntValue (0x2D :: whole)

inductive Fraction : Text → Prop
  | mk {ds : Text} (hds : Digits ds) (hne : ds ≠ []) : Fraction (0x2E :: ds)

/-- A letter `e` of either case, an optional sign and at least one digit. -/
inductive Exponent : Text → Prop
  | mk {mark : UInt8} {sign ds : Text} (hmark : mark ∈ [0x65, 0x45])
      (hsign : sign ∈ [[], [0x2B], [0x2D]]) (hds : Digits ds) (hne : ds ≠ []) :
      Exponent (mark :: (sign ++ ds))

/-- What may follow a whole number: a fraction, an exponent, or both. -/
inductive Decimals : Text → Prop
  | fraction {f : Text} (hf : Fraction f) : Decimals f
  | exponent {e : Text} (he : Exponent e) : Decimals e
  | both {f e : Text} (hf : Fraction f) (he : Exponent e) : Decimals (f ++ e)

inductive FloatValue : Text → Prop
  | mk {whole tail : Text} (hwhole : IntValue whole) (htail : Decimals tail) :
      FloatValue (whole ++ tail)

def IsNumber (text : Text) : Prop := IntValue text ∨ FloatValue text

/-! ## Digits -/

theorem isDigit_iff {b : UInt8} : isDigit b = true ↔ 0x30 ≤ b ∧ b ≤ 0x39 := by
  simp [isDigit, show byte '0' = 0x30 from rfl, show byte '9' = 0x39 from rfl]

theorem nonzero_of_isDigit (b : UInt8) :
    isDigit b = true → b ≠ byte '0' → 0x31 ≤ b ∧ b ≤ 0x39 := by
  revert b
  exact forall_byte (by decide +kernel)

theorem isDigit_of_nonzero (b : UInt8) :
    0x31 ≤ b ∧ b ≤ 0x39 → isDigit b = true ∧ b ≠ byte '0' := by
  revert b
  exact forall_byte (by decide +kernel)

theorem ne_sign_of_isDigit (b : UInt8) : isDigit b = true → b ≠ byte '+' ∧ b ≠ byte '-' := by
  revert b
  exact forall_byte (by decide +kernel)

theorem digits_take_runLength (text : Text) : Digits (text.take (runLength isDigit text)) := by
  have htake : text.take (runLength isDigit text) = text.takeWhile isDigit :=
    (List.prefix_iff_eq_take.1 (List.takeWhile_prefix isDigit)).symm
  intro d hd
  rw [htake] at hd
  exact isDigit_iff.1 (List.all_eq_true.1 List.all_takeWhile d hd)

/-- A row of digits goes on as far as there are digits behind it. -/
theorem runLength_digits {ds : Text} (hds : Digits ds) (behind : Text) :
    runLength isDigit (ds ++ behind) = ds.length + runLength isDigit behind := by
  have hall : ∀ d ∈ ds, isDigit d = true := fun d hd => isDigit_iff.2 (hds d hd)
  rw [runLength, List.takeWhile_append_of_pos hall, List.length_append, runLength]

theorem runLength_cons {p : UInt8 → Bool} {b : UInt8} (hb : p b = true) (text : Text) :
    runLength p (b :: text) = runLength p text + 1 := by
  rw [runLength, List.takeWhile_cons_of_pos hb, List.length_cons, runLength]

theorem runLength_eq_zero {p : UInt8 → Bool} {b : UInt8} (hb : p b = false) (text : Text) :
    runLength p (b :: text) = 0 := by
  rw [runLength, List.takeWhile_cons_of_neg (by simp [hb])]
  rfl

/-! ## Whole numbers -/

theorem whole_take {text : Text} (h : wholeLength text ≠ 0) :
    Whole (text.take (wholeLength text)) := by
  cases text with
  | nil => exact absurd rfl h
  | cons b rest =>
      rw [wholeLength] at h ⊢
      split at h
      · next hb =>
          rw [if_pos hb, hb]
          exact .zero
      · next hb =>
          split at h
          · next hdigit =>
              rw [if_neg hb, if_pos hdigit, Nat.add_comm, List.take_succ_cons]
              exact .digits (nonzero_of_isDigit b hdigit hb) (digits_take_runLength rest)
          · exact absurd rfl h

/-- Behind a whole number the scanner goes on over digits at most. -/
theorem wholeLength_append_of_whole {whole : Text} (h : Whole whole) (behind : Text) :
    ∃ n ≤ runLength isDigit behind, wholeLength (whole ++ behind) = whole.length + n := by
  cases h with
  | zero => exact ⟨0, Nat.zero_le _, rfl⟩
  | @digits d ds hd hds =>
      obtain ⟨hdigit, hzero⟩ := isDigit_of_nonzero d hd
      refine ⟨runLength isDigit behind, Nat.le_refl _, ?_⟩
      rw [List.cons_append, wholeLength, if_neg hzero, if_pos hdigit, runLength_digits hds,
        List.length_cons]
      omega

theorem Whole.head {whole : Text} (h : Whole whole) :
    ∃ d ds, whole = d :: ds ∧ isDigit d = true := by
  cases h with
  | zero => exact ⟨0x30, [], rfl, rfl⟩
  | @digits d ds hd hds => exact ⟨d, ds, rfl, (isDigit_of_nonzero d hd).1⟩

theorem integerLength_minus {text : Text} (h : wholeLength text ≠ 0) :
    integerLength (byte '-' :: text) = wholeLength text + 1 := by
  obtain ⟨n, hn⟩ := Nat.exists_eq_succ_of_ne_zero h
  rw [integerLength, if_pos rfl, hn]

theorem integerLength_plain {b : UInt8} (hb : b ≠ byte '-') (rest : Text) :
    integerLength (b :: rest) = wholeLength (b :: rest) := by
  rw [integerLength, if_neg hb]

theorem intValue_take {text : Text} (h : integerLength text ≠ 0) :
    IntValue (text.take (integerLength text)) := by
  cases text with
  | nil => exact absurd rfl h
  | cons b rest =>
      by_cases hb : b = byte '-'
      · subst hb
        have hwhole : wholeLength rest ≠ 0 := by
          intro hzero
          rw [integerLength, if_pos rfl, hzero] at h
          exact h rfl
        rw [integerLength_minus hwhole, List.take_succ_cons]
        exact .minus (whole_take hwhole)
      · rw [integerLength_plain hb] at h ⊢
        exact .plain (whole_take h)

/-- Behind an integer the scanner goes on over digits at most. -/
theorem integerLength_append_of_intValue {whole : Text} (h : IntValue whole) (behind : Text) :
    ∃ n ≤ runLength isDigit behind, integerLength (whole ++ behind) = whole.length + n := by
  cases h with
  | plain h =>
      obtain ⟨n, hn, hlength⟩ := wholeLength_append_of_whole h behind
      obtain ⟨d, ds, rfl, hd⟩ := h.head
      refine ⟨n, hn, ?_⟩
      rw [List.cons_append] at hlength ⊢
      rw [integerLength_plain (ne_sign_of_isDigit d hd).2, hlength]
  | @minus whole h =>
      obtain ⟨n, hn, hlength⟩ := wholeLength_append_of_whole h behind
      obtain ⟨d, ds, rfl, hd⟩ := h.head
      rw [List.length_cons] at hlength
      refine ⟨n, hn, ?_⟩
      show integerLength (byte '-' :: (d :: ds ++ behind)) = ds.length + 1 + 1 + n
      rw [integerLength_minus (by omega), hlength]
      omega

theorem IntValue.ne_nil {whole : Text} (h : IntValue whole) : whole ≠ [] := by
  cases h with
  | plain h =>
      obtain ⟨d, ds, rfl, -⟩ := h.head
      exact List.cons_ne_nil d ds
  | minus h => exact List.cons_ne_nil _ _

/-! ## Fractions and exponents -/

theorem fraction_take {text : Text} (h : fractionLength text ≠ 0) :
    Fraction (text.take (fractionLength text)) := by
  cases text with
  | nil => exact absurd rfl h
  | cons b rest =>
      rw [fractionLength] at h ⊢
      split at h
      · next hb =>
          rw [if_pos hb, hb]
          have hdigits := digits_take_runLength rest
          cases hrun : runLength isDigit rest with
          | zero => simp [hrun] at h
          | succ n =>
              rw [hrun] at hdigits
              refine .mk hdigits ?_
              cases rest with
              | nil => cases hrun
              | cons d ds => exact List.cons_ne_nil _ _
      · exact absurd rfl h

theorem fractionLength_append_of_fraction {f : Text} (h : Fraction f) (behind : Text) :
    fractionLength (f ++ behind) = f.length + runLength isDigit behind := by
  cases h with
  | @mk ds hds hne =>
      have hpos := List.length_pos_iff.2 hne
      have hrun := runLength_digits hds behind
      show fractionLength (byte '.' :: (ds ++ behind)) = _
      rw [fractionLength, if_pos rfl, List.length_cons]
      cases hn : runLength isDigit (ds ++ behind) with
      | zero => omega
      | succ n =>
          show n + 2 = ds.length + 1 + runLength isDigit behind
          omega

/-- The length of an exponent by the digits behind its sign, which is there or not. -/
theorem exponentLength_mark {mark : UInt8} (hmark : mark ∈ [0x65, 0x45]) {sign ds : Text}
    (hsign : sign ∈ [[], [0x2B], [0x2D]])
    (hplain : sign = [] → ∀ d ∈ ds.head?, d ≠ byte '+' ∧ d ≠ byte '-') :
    exponentLength (mark :: (sign ++ ds)) =
      if runLength isDigit ds = 0 then 0 else 1 + sign.length + runLength isDigit ds := by
  have hbyte : (mark = byte 'e' || mark = byte 'E') = true := by
    simpa [show byte 'e' = 0x65 from rfl, show byte 'E' = 0x45 from rfl] using hmark
  have hdrop : (if (sign ++ ds).head? = some (byte '+') || (sign ++ ds).head? = some (byte '-')
      then 1 else 0) = sign.length := by
    simp only [List.mem_cons, List.not_mem_nil, or_false] at hsign
    rcases hsign with rfl | rfl | rfl
    · cases ds with
      | nil => rfl
      | cons d ds =>
          obtain ⟨hplus, hminus⟩ := hplain rfl d rfl
          simp [hplus, hminus]
    · rfl
    · rfl
  rw [exponentLength, if_pos hbyte]
  simp only [hdrop, List.drop_left]
  cases hrun : runLength isDigit ds with
  | zero => rfl
  | succ n => rfl

/-- What stands behind the mark of an exponent, parted into a sign and the rest. -/
theorem exists_sign (text : Text) : ∃ sign ds, text = sign ++ ds ∧
    sign ∈ [[], [0x2B], [0x2D]] ∧ (sign = [] → ∀ d ∈ ds.head?, d ≠ byte '+' ∧ d ≠ byte '-') := by
  cases text with
  | nil => exact ⟨[], [], rfl, by simp, by simp⟩
  | cons b rest =>
      by_cases hplus : b = 0x2B
      · exact ⟨[b], rest, rfl, by simp [hplus], by simp⟩
      · by_cases hminus : b = 0x2D
        · exact ⟨[b], rest, rfl, by simp [hminus], by simp⟩
        · refine ⟨[], b :: rest, rfl, by simp, ?_⟩
          rintro - _ ⟨⟩
          exact ⟨hplus, hminus⟩

theorem exponent_take {text : Text} (h : exponentLength text ≠ 0) :
    Exponent (text.take (exponentLength text)) := by
  cases text with
  | nil => exact absurd rfl h
  | cons mark rest =>
      have hmark : mark ∈ [0x65, 0x45] := by
        rw [exponentLength] at h
        split at h
        · next hbyte =>
            simpa [show byte 'e' = 0x65 from rfl, show byte 'E' = 0x45 from rfl] using hbyte
        · exact absurd rfl h
      obtain ⟨sign, ds, rfl, hsign, hplain⟩ := exists_sign rest
      rw [exponentLength_mark hmark hsign hplain] at h ⊢
      have hrun : runLength isDigit ds ≠ 0 := fun hrun => h (if_pos hrun)
      have htake : (mark :: (sign ++ ds)).take (1 + sign.length + runLength isDigit ds) =
          mark :: (sign ++ ds.take (runLength isDigit ds)) := by
        rw [Nat.add_assoc, Nat.add_comm 1, List.take_succ_cons, List.take_length_add_append]
      rw [if_neg hrun, htake]
      refine .mk hmark hsign (digits_take_runLength ds) ?_
      cases ds with
      | nil => exact absurd rfl hrun
      | cons d ds =>
          obtain ⟨n, hn⟩ := Nat.exists_eq_succ_of_ne_zero hrun
          rw [hn]
          exact List.cons_ne_nil _ _

theorem exponentLength_append_of_exponent {e : Text} (h : Exponent e) (behind : Text) :
    exponentLength (e ++ behind) = e.length + runLength isDigit behind := by
  cases h with
  | @mk mark sign ds hmark hsign hds hne =>
      have hrun := runLength_digits hds behind
      have hpos := List.length_pos_iff.2 hne
      have hplain : sign = [] → ∀ d ∈ (ds ++ behind).head?, d ≠ byte '+' ∧ d ≠ byte '-' := by
        intro _ d hd
        obtain ⟨d', ds', rfl⟩ := List.exists_cons_of_ne_nil hne
        cases hd
        exact ne_sign_of_isDigit d (isDigit_iff.2 (hds d List.mem_cons_self))
      rw [List.cons_append, List.append_assoc, exponentLength_mark hmark hsign hplain, hrun,
        if_neg (by omega), List.length_cons, List.length_append]
      omega

/-- An exponent begins with its mark, which is neither a digit nor a point. -/
theorem Exponent.head {e : Text} (h : Exponent e) :
    ∃ mark rest, e = mark :: rest ∧ isDigit mark = false ∧ mark ≠ byte '.' := by
  cases h with
  | @mk mark sign ds hmark hsign hds hne =>
      have hmarks : ∀ b ∈ [(0x65 : UInt8), 0x45], isDigit b = false ∧ b ≠ byte '.' :=
        List.forall_mem_cons.2 ⟨by decide, List.forall_mem_singleton.2 (by decide)⟩
      exact ⟨mark, sign ++ ds, rfl, hmarks mark hmark⟩

/-! ## What follows a whole number -/

def decimalsLength (text : Text) : Nat :=
  fractionLength text + exponentLength (text.drop (fractionLength text))

/-- A number is a whole number and what may follow it. -/
theorem numberLexeme_eq (text : Text) :
    numberLexeme text =
      if integerLength text = 0 then (.unknown, 1)
      else (if decimalsLength (text.drop (integerLength text)) = 0 then .int else .float,
        integerLength text + decimalsLength (text.drop (integerLength text))) := by
  rw [numberLexeme, decimalsLength, List.drop_drop]
  split
  · rfl
  · split
    · next hzero => rw [hzero, Nat.add_zero]
    · rw [Nat.add_assoc]

theorem decimals_take {text : Text} (h : decimalsLength text ≠ 0) :
    Decimals (text.take (decimalsLength text)) := by
  rw [decimalsLength] at h ⊢
  by_cases hf : fractionLength text = 0
  · rw [hf, Nat.zero_add, List.drop_zero] at h ⊢
    exact .exponent (exponent_take h)
  · rw [List.take_add]
    by_cases he : exponentLength (text.drop (fractionLength text)) = 0
    · rw [he, List.take_zero, List.append_nil]
      exact .fraction (fraction_take hf)
    · exact .both (fraction_take hf) (exponent_take he)

/-- The scanner takes at least the fraction and the exponent that a text begins with. -/
theorem le_decimalsLength {tail : Text} (h : Decimals tail) (behind : Text) :
    tail.length ≤ decimalsLength (tail ++ behind) := by
  rw [decimalsLength]
  cases h with
  | fraction hf =>
      rw [fractionLength_append_of_fraction hf]
      omega
  | exponent he =>
      have hlength := exponentLength_append_of_exponent he behind
      obtain ⟨mark, rest, rfl, -, hpoint⟩ := he.head
      have hf : fractionLength (mark :: rest ++ behind) = 0 := by
        rw [List.cons_append, fractionLength, if_neg hpoint]
      rw [hf, List.drop_zero, hlength]
      omega
  | @both f e hf he =>
      have hfraction := fractionLength_append_of_fraction hf (e ++ behind)
      have hexponent := exponentLength_append_of_exponent he behind
      obtain ⟨mark, rest, rfl, hdigit, -⟩ := he.head
      have hrun : runLength isDigit (mark :: rest ++ behind) = 0 := runLength_eq_zero hdigit _
      rw [hrun, Nat.add_zero] at hfraction
      rw [List.append_assoc, hfraction, List.drop_left, hexponent, List.length_append]
      omega

theorem Decimals.head {tail : Text} (h : Decimals tail) :
    ∃ b rest, tail = b :: rest ∧ isDigit b = false := by
  cases h with
  | fraction hf =>
      cases hf with
      | mk => exact ⟨_, _, rfl, rfl⟩
  | exponent he =>
      obtain ⟨mark, rest, rfl, hdigit, -⟩ := he.head
      exact ⟨mark, rest, rfl, hdigit⟩
  | both hf he =>
      cases hf with
      | mk => exact ⟨_, _, rfl, rfl⟩

/-! ## The longest number -/

/-- What a number at the head of a text says about the number that is taken: it is as long at least,
and it has decimals if the former has. -/
theorem le_numberLexeme {p : Text} (h : IsNumber p) (behind : Text) :
    integerLength (p ++ behind) ≠ 0 ∧ p.length ≤ (numberLexeme (p ++ behind)).2 ∧
      (FloatValue p → (numberLexeme (p ++ behind)).1 = .float) := by
  have hfloat : FloatValue p → integerLength (p ++ behind) ≠ 0 ∧
      p.length ≤ (numberLexeme (p ++ behind)).2 ∧ (numberLexeme (p ++ behind)).1 = .float := by
    rintro ⟨hwhole, htail⟩
    next whole tail =>
      have hdecimals := le_decimalsLength htail behind
      have hpos := List.length_pos_iff.2 hwhole.ne_nil
      obtain ⟨b, rest, rfl, hb⟩ := htail.head
      obtain ⟨n, hn, hinteger⟩ := integerLength_append_of_intValue hwhole (b :: rest ++ behind)
      rw [List.cons_append, runLength_eq_zero hb, Nat.le_zero] at hn
      rw [hn, Nat.add_zero] at hinteger
      rw [List.length_cons] at hdecimals
      rw [List.append_assoc, numberLexeme_eq, hinteger, List.drop_left, if_neg (by omega),
        if_neg (by omega), List.length_append, List.length_cons]
      exact ⟨by omega, by simp only; omega, rfl⟩
  rcases h with hint | hfloating
  · obtain ⟨n, -, hinteger⟩ := integerLength_append_of_intValue hint behind
    have hpos := List.length_pos_iff.2 hint.ne_nil
    have hne : integerLength (p ++ behind) ≠ 0 := by omega
    refine ⟨hne, ?_, fun h => (hfloat h).2.2⟩
    rw [numberLexeme_eq, if_neg hne]
    simp only
    omega
  · exact ⟨(hfloat hfloating).1, (hfloat hfloating).2.1, fun _ => (hfloat hfloating).2.2⟩

/-- What is taken is a number of the kind that is told. -/
theorem numberLexeme_take {text : Text} (h : integerLength text ≠ 0) :
    (numberLexeme text).1 = .int ∧ IntValue (text.take (numberLexeme text).2) ∨
      (numberLexeme text).1 = .float ∧ FloatValue (text.take (numberLexeme text).2) := by
  rw [numberLexeme_eq, if_neg h]
  by_cases hdecimals : decimalsLength (text.drop (integerLength text)) = 0
  · rw [if_pos hdecimals, hdecimals]
    exact .inl ⟨rfl, intValue_take h⟩
  · rw [if_neg hdecimals]
    refine .inr ⟨rfl, ?_⟩
    show FloatValue (text.take _)
    rw [List.take_add]
    exact .mk (intValue_take h) (decimals_take hdecimals)

end Token

end SelectionCheck
