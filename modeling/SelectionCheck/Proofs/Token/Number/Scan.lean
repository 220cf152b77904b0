import SelectionCheck.Proofs.Token.Number

/-!
# Scanning a number by indices

The scanners of numbers walk over the text ahead and have no index that could be wrong. `scanNumber`
is the same walk by indices into the whole text: it looks one byte ahead of a point, goes back where
a fraction or an exponent lacks its digits, and fails if it reads at or past the end of the text.
`scanNumber_eq` says that it never fails and that both walks find the same. With it,
`lexFrom_longest_number` collects what is known about the token that begins with a digit or a minus
sign.
-/

namespace SelectionCheck

namespace Token

open Text (byte isDigit runLength)

/-! ## The walk by indices -/

/-- The end of the row of digits that begins at the index `n`. -/
def digitsEnd (text : Text) (n : Nat) : Option Nat :=
  if n < text.length then do
    let b ← text[n]?
    if isDigit b then digitsEnd text (n + 1) else some n
  else some n
termination_by text.length - n

def exponentDigitsEnd (text : Text) (n : Nat) : Option (Option Nat) := do
  let d ← text[n]?
  if isDigit d then (digitsEnd text (n + 1)).map some else some none

def exponentEnd (text : Text) (n : Nat) : Option (Option Nat) :=
  if n + 1 < text.length then do
    let sign ← text[n + 1]?
    if sign = byte '+' || sign = byte '-' then
      if n + 2 < text.length then exponentDigitsEnd text (n + 2) else some none
    else exponentDigitsEnd text (n + 1)
  else some none

def scanFraction (text : Text) (n : Nat) : Option (Kind × Nat) := do
  let stop ← digitsEnd text (n + 2)
  if stop < text.length then do
    let mark ← text[stop]?
    if mark = byte 'e' || mark = byte 'E' then
      (exponentEnd text stop).map fun last => (.float, last.getD stop)
    else some (.float, stop)
  else some (.float, stop)

def scanDecimals (text : Text) (n : Nat) : Option (Kind × Nat) :=
  if n + 1 < text.length then do
    let b ← text[n]?
    if b = byte '.' then do
      let d ← text[n + 1]?
      if isDigit d then scanFraction text n else some (.int, n)
    else if b = byte 'e' || b = byte 'E' then
      (exponentEnd text n).map fun last => (last.map (Kind.float, ·)).getD (.int, n)
    else some (.int, n)
  else some (.int, n)

def scanUnsigned (text : Text) (n : Nat) : Option (Kind × Nat) :=
  if n < text.length then do
    let d ← text[n]?
    if isDigit d then do
      let stop ← if d = byte '0' then some (n + 1) else digitsEnd text (n + 1)
      scanDecimals text stop
    else some (.unknown, n)
  else some (.unknown, n)

/-- The kind and the end of what begins with a digit or a minus sign. A read past the end of the
text would give nothing. -/
def scanNumber (text : Text) : Option (Kind × Nat) := do
  let b ← text[0]?
  scanUnsigned text (if b = byte '-' then 1 else 0)

/-- What stands at an index, and the texts ahead of it and behind it. -/
theorem getElem?_of_drop {text rest : Text} {b : UInt8} {n : Nat} (h : text.drop n = b :: rest) :
    n < text.length ∧ text[n]? = some b ∧ text.drop (n + 1) = rest := by
  refine ⟨?_, ?_, ?_⟩
  · refine Nat.lt_of_not_le fun hle => ?_
    rw [List.drop_eq_nil_iff.2 hle] at h
    cases h
  · rw [← List.head?_drop, h, List.head?_cons]
  · rw [← List.tail_drop, h, List.tail_cons]

theorem digitsEnd_eq (text : Text) (n : Nat) :
    digitsEnd text n = some (n + runLength isDigit (text.drop n)) := by
  fun_induction digitsEnd text n with
  | case1 n hn ih =>
      obtain ⟨b, rest, hdrop⟩ :=
        List.exists_cons_of_ne_nil (mt List.drop_eq_nil_iff.1 (Nat.not_le.2 hn))
      obtain ⟨-, hget, hrest⟩ := getElem?_of_drop hdrop
      rw [hget, hdrop, ← hrest]
      cases hb : isDigit b with
      | true =>
          show (if isDigit b then _ else _) = _
          rw [if_pos hb, ih, runLength_cons hb]
          exact congrArg some (by omega)
      | false =>
          show (if isDigit b then _ else _) = _
          rw [if_neg (by simp [hb]), runLength_eq_zero hb]
          rfl
  | case2 n hn =>
      rw [List.drop_eq_nil_iff.2 (Nat.le_of_not_lt hn)]
      rfl

theorem drop_ne_nil_iff {text : Text} {n : Nat} : text.drop n ≠ [] ↔ n < text.length := by
  rw [Ne, List.drop_eq_nil_iff, Nat.not_le]

theorem exponentDigitsEnd_eq {text : Text} {n : Nat} (hn : n < text.length) :
    exponentDigitsEnd text n =
      some (if runLength isDigit (text.drop n) = 0 then none
        else some (n + runLength isDigit (text.drop n))) := by
  obtain ⟨d, rest, hdrop⟩ := List.exists_cons_of_ne_nil (drop_ne_nil_iff.2 hn)
  obtain ⟨-, hget, hrest⟩ := getElem?_of_drop hdrop
  rw [exponentDigitsEnd, hget, hdrop, Option.bind_eq_bind, Option.bind_some]
  cases hd : isDigit d with
  | true =>
      rw [if_pos rfl, digitsEnd_eq, hrest, runLength_cons hd, if_neg (Nat.succ_ne_zero _),
        Nat.add_right_comm]
      rfl
  | false =>
      rw [runLength_eq_zero hd]
      rfl

/-- An exponent ends behind its mark and its sign where its digits end. -/
theorem exponentEnd_sign {text sign ds : Text} {n : Nat} (hdrop : text.drop (n + 1) = sign ++ ds)
    (hsign : sign ∈ [[], [0x2B], [0x2D]])
    (hplain : sign = [] → ∀ d ∈ ds.head?, d ≠ byte '+' ∧ d ≠ byte '-') :
    exponentEnd text n =
      if ds = [] then some none else exponentDigitsEnd text (n + 1 + sign.length) := by
  rw [exponentEnd]
  cases sign with
  | nil =>
      cases ds with
      | nil => rw [if_neg (mt drop_ne_nil_iff.2 (not_not_intro hdrop)), if_pos rfl]
      | cons d ds =>
          obtain ⟨hlt, hget, -⟩ := getElem?_of_drop hdrop
          obtain ⟨hplus, hminus⟩ := hplain rfl d rfl
          rw [if_pos hlt, hget, Option.bind_eq_bind, Option.bind_some,
            if_neg (by simp [hplus, hminus]), if_neg (List.cons_ne_nil d ds)]
          rfl
  | cons b sign =>
      obtain ⟨hb, rfl⟩ : (b = byte '+' || b = byte '-') = true ∧ sign = [] := by
        simp only [List.mem_cons, List.cons.injEq, List.not_mem_nil, or_false] at hsign
        rcases hsign with h | ⟨rfl, rfl⟩ | ⟨rfl, rfl⟩
        · cases h
        · exact ⟨rfl, rfl⟩
        · exact ⟨rfl, rfl⟩
      obtain ⟨hlt, hget, hrest⟩ := getElem?_of_drop hdrop
      rw [if_pos hlt, hget, Option.bind_eq_bind, Option.bind_some, if_pos hb]
      by_cases hds : ds = []
      · rw [if_pos hds, if_neg (mt drop_ne_nil_iff.2 (not_not_intro (hrest.trans hds)))]
      · rw [if_neg hds, if_pos (drop_ne_nil_iff.1 (hrest ▸ hds))]
        rfl

theorem exponentEnd_eq {text rest : Text} {mark : UInt8} {n : Nat}
    (hdrop : text.drop n = mark :: rest) (hmark : mark ∈ [0x65, 0x45]) :
    exponentEnd text n =
      some (if exponentLength (mark :: rest) = 0 then none
        else some (n + exponentLength (mark :: rest))) := by
  obtain ⟨-, -, hrest⟩ := getElem?_of_drop hdrop
  obtain ⟨sign, ds, rfl, hsign, hplain⟩ := exists_sign rest
  rw [exponentLength_mark hmark hsign hplain, exponentEnd_sign hrest hsign hplain]
  by_cases hds : ds = []
  · rw [if_pos hds, hds]
    rfl
  · have hdigits : text.drop (n + 1 + sign.length) = ds := by
      rw [← List.drop_drop, hrest, List.drop_left]
    rw [if_neg hds, exponentDigitsEnd_eq (drop_ne_nil_iff.1 (hdigits ▸ hds)), hdigits]
    by_cases hrun : runLength isDigit ds = 0
    · rw [hrun]
      rfl
    · rw [if_neg hrun, if_neg hrun, if_neg (by omega), Nat.add_assoc, Nat.add_assoc, Nat.add_assoc]

theorem mark_iff {b : UInt8} : (b = byte 'e' || b = byte 'E') = true ↔ b ∈ [0x65, 0x45] := by
  simp [show byte 'e' = 0x65 from rfl, show byte 'E' = 0x45 from rfl]

theorem exponentLength_of_not_mark {b : UInt8} (hb : b ∉ [0x65, 0x45]) (rest : Text) :
    exponentLength (b :: rest) = 0 := by
  rw [exponentLength, if_neg (mt mark_iff.1 hb)]

theorem fractionLength_point {d : UInt8} (hd : isDigit d = true) (rest : Text) :
    fractionLength (byte '.' :: d :: rest) = runLength isDigit rest + 2 := by
  rw [fractionLength, if_pos rfl, runLength_cons hd]

theorem scanFraction_eq {text rest : Text} {d : UInt8} {n : Nat}
    (hdrop : text.drop n = byte '.' :: d :: rest) (hd : isDigit d = true) :
    scanFraction text n = some (.float, n + decimalsLength (byte '.' :: d :: rest)) := by
  obtain ⟨-, -, hpoint⟩ := getElem?_of_drop hdrop
  obtain ⟨-, -, hrest⟩ := getElem?_of_drop hpoint
  rw [scanFraction, decimalsLength, fractionLength_point hd, digitsEnd_eq, hrest,
    Option.bind_eq_bind, Option.bind_some, List.drop_succ_cons, List.drop_succ_cons]
  have hstop : text.drop (n + 2 + runLength isDigit rest) = rest.drop (runLength isDigit rest) := by
    rw [← List.drop_drop]
    exact congrArg (List.drop _) hrest
  cases hbehind : rest.drop (runLength isDigit rest) with
  | nil =>
      rw [if_neg (mt drop_ne_nil_iff.2 (not_not_intro (hstop.trans hbehind)))]
      exact congrArg (fun stop => some (Kind.float, stop)) (by simp only [exponentLength]; omega)
  | cons mark more =>
      obtain ⟨hlt, hget, -⟩ := getElem?_of_drop (hstop.trans hbehind)
      rw [if_pos hlt, hget, Option.bind_eq_bind, Option.bind_some]
      by_cases hmark : mark ∈ [0x65, 0x45]
      · rw [if_pos (mark_iff.2 hmark), exponentEnd_eq (hstop.trans hbehind) hmark, Option.map_some]
        split
        · next hzero => exact congrArg (fun stop => some (Kind.float, stop)) (by simp; omega)
        · exact congrArg (fun stop => some (Kind.float, stop)) (by simp; omega)
      · rw [if_neg (mt mark_iff.1 hmark), exponentLength_of_not_mark hmark]
        exact congrArg (fun stop => some (Kind.float, stop)) (by omega)

theorem decimalsLength_singleton (b : UInt8) : decimalsLength [b] = 0 := by
  have hf : fractionLength [b] = 0 := by
    rw [fractionLength]
    split <;> rfl
  rw [decimalsLength, hf, List.drop_zero, exponentLength]
  split <;> rfl

theorem scanDecimals_eq (text : Text) (n : Nat) :
    scanDecimals text n =
      some (if decimalsLength (text.drop n) = 0 then .int else .float,
        n + decimalsLength (text.drop n)) := by
  rw [scanDecimals]
  cases hdrop : text.drop n with
  | nil =>
      have hle := List.drop_eq_nil_iff.1 hdrop
      rw [if_neg (by omega)]
      rfl
  | cons b rest =>
      obtain ⟨-, hget, hrest⟩ := getElem?_of_drop hdrop
      cases rest with
      | nil =>
          rw [if_neg (mt drop_ne_nil_iff.2 (not_not_intro hrest)), decimalsLength_singleton]
          rfl
      | cons d rest =>
          obtain ⟨hlt, hnext, -⟩ := getElem?_of_drop hrest
          rw [if_pos hlt, hget, Option.bind_eq_bind, Option.bind_some]
          by_cases hpoint : b = byte '.'
          · subst hpoint
            rw [if_pos rfl, hnext, Option.bind_some]
            cases hd : isDigit d with
            | true =>
                have hlength := fractionLength_point hd rest
                rw [if_pos rfl, scanFraction_eq hdrop hd, if_neg]
                rw [decimalsLength]
                omega
            | false =>
                have hzero : decimalsLength (byte '.' :: d :: rest) = 0 := by
                  rw [decimalsLength, fractionLength, if_pos rfl, runLength_eq_zero hd]
                  exact exponentLength_of_not_mark (b := byte '.') (by decide) (d :: rest)
                rw [hzero]
                rfl
          · have hdecimals : decimalsLength (b :: d :: rest) = exponentLength (b :: d :: rest) := by
              rw [decimalsLength, fractionLength, if_neg hpoint, List.drop_zero, Nat.zero_add]
            rw [if_neg hpoint, hdecimals]
            by_cases hmark : b ∈ [0x65, 0x45]
            · rw [if_pos (mark_iff.2 hmark), exponentEnd_eq hdrop hmark, Option.map_some]
              split
              · next hzero => rw [hzero]; rfl
              · rfl
            · rw [if_neg (mt mark_iff.1 hmark), exponentLength_of_not_mark hmark]
              rfl

/-- The walk by indices to the end of the whole part. -/
theorem scanUnsigned_eq (text : Text) (n : Nat) :
    scanUnsigned text n =
      if wholeLength (text.drop n) = 0 then some (.unknown, n)
      else scanDecimals text (n + wholeLength (text.drop n)) := by
  rw [scanUnsigned]
  cases hdrop : text.drop n with
  | nil =>
      rw [if_neg (mt drop_ne_nil_iff.2 (not_not_intro hdrop))]
      rfl
  | cons d rest =>
      obtain ⟨hlt, hget, hrest⟩ := getElem?_of_drop hdrop
      rw [if_pos hlt, hget, wholeLength, digitsEnd_eq, hrest, Option.bind_eq_bind, Option.bind_some]
      by_cases hzero : d = byte '0'
      · subst hzero
        rfl
      · rw [if_neg hzero, if_neg hzero]
        cases hd : isDigit d with
        | true =>
            rw [if_pos rfl, if_pos rfl, if_neg (by omega), Nat.add_assoc]
            rfl
        | false => rfl

/-- The walk by indices never reads past the end, and it finds the same as the walk over the text
ahead. -/
theorem scanNumber_eq {b : UInt8} (hb : b = byte '-' ∨ isDigit b = true) (rest : Text) :
    scanNumber (b :: rest) = some (numberLexeme (b :: rest)) := by
  rw [scanNumber, List.getElem?_cons_zero, Option.bind_eq_bind, Option.bind_some, numberLexeme_eq]
  by_cases hminus : b = byte '-'
  · subst hminus
    rw [if_pos rfl, scanUnsigned_eq, List.drop_succ_cons, List.drop_zero]
    by_cases hwhole : wholeLength rest = 0
    · have hzero : integerLength (byte '-' :: rest) = 0 := by
        rw [integerLength, if_pos rfl, hwhole]
      rw [if_pos hwhole, if_pos hzero]
    · rw [if_neg hwhole, integerLength_minus hwhole, if_neg (by omega), scanDecimals_eq,
        Nat.add_comm 1]
  · have hdigit := hb.resolve_left hminus
    have hwhole : wholeLength (b :: rest) ≠ 0 := by
      rw [wholeLength, if_pos hdigit]
      split <;> omega
    rw [if_neg hminus, scanUnsigned_eq, integerLength_plain hminus, List.drop_zero, if_neg hwhole,
      if_neg hwhole, scanDecimals_eq, Nat.zero_add]

/-! ## The token -/

/-- What a digit or a minus sign is not the beginning of. -/
theorem head_of_number (b : UInt8) : b = 0x2D ∨ 0x30 ≤ b ∧ b ≤ 0x39 →
    isBlank b = false ∧ b ≠ byte '#' ∧ 0xEF ≠ b ∧ Kind.ofByte? b = none ∧ byte '.' ≠ b ∧
      isNameStart b = false ∧ b ≠ 0x22 := by
  revert b
  exact forall_byte (by decide +kernel)

theorem ofHead_number {b : UInt8} (hb : b = 0x2D ∨ 0x30 ≤ b ∧ b ≤ 0x39) (rest : Text) :
    Lexeme.ofHead b rest =
      .token (numberLexeme (b :: rest)).1 (numberLexeme (b :: rest)).2 := by
  obtain ⟨hblank, hcomment, hmark, hpunctuator, hpoint, hname, hquote⟩ := head_of_number b hb
  have hbom : ¬ Text.startsWith Text.byteOrderMark (b :: rest) := fun h =>
    hmark (List.cons_prefix_cons.1 (List.isPrefixOf_iff_prefix.1 h)).1
  have hdots : ¬ Text.startsWith "..." (b :: rest) := fun h =>
    hpoint (List.cons_prefix_cons.1 (List.isPrefixOf_iff_prefix.1 h)).1
  have hnumber : (b = byte '-' || isDigit b) = true := by
    rw [Bool.or_eq_true, isDigit_iff, decide_eq_true_iff]
    exact hb
  have htoken : tokenOfHead b rest = numberLexeme (b :: rest) := by
    simp only [tokenOfHead, hpunctuator, if_neg hdots, hname, Bool.false_eq_true, if_false,
      if_neg hquote, if_pos hnumber]
  rw [Lexeme.ofHead, if_neg (by simp [hblank]), if_neg hcomment, if_neg hbom, htoken]

/-- What begins with a digit or a minus sign is read as the longest number at the head of the text,
with the kind that its parts tell, and no index past the text is read for it. Where there is no
number, the minus sign alone is an unknown token. -/
theorem lexFrom_longest_number {b : UInt8} (hb : b = 0x2D ∨ 0x30 ≤ b ∧ b ≤ 0x39) (rest : Text)
    (offset : Nat) :
    ∃ kind lexeme behind, b :: rest = lexeme ++ behind ∧
      lexFrom 0 offset (b :: rest) [] =
        ⟨kind, lexeme, offset⟩ :: lexFrom 0 (offset + lexeme.length) behind [] ∧
      scanNumber (b :: rest) = some (kind, lexeme.length) ∧
      ((∃ p, p <+: b :: rest ∧ IsNumber p) →
        IsNumber lexeme ∧ (∀ p, p <+: b :: rest → IsNumber p → p <+: lexeme) ∧
          (kind = .float ↔ FloatValue lexeme) ∧ (kind = .int ↔ ¬ FloatValue lexeme)) ∧
      ((¬ ∃ p, p <+: b :: rest ∧ IsNumber p) → kind = .unknown ∧ lexeme = [0x2D]) := by
  have hlength : ((b :: rest).take (numberLexeme (b :: rest)).2).length =
      (numberLexeme (b :: rest)).2 := List.length_take_of_le (numberLexeme_le b rest)
  have hprefix : (b :: rest).take (numberLexeme (b :: rest)).2 <+: b :: rest :=
    List.take_prefix _ _
  refine ⟨(numberLexeme (b :: rest)).1, (b :: rest).take (numberLexeme (b :: rest)).2,
    (b :: rest).drop (numberLexeme (b :: rest)).2, (List.take_append_drop _ _).symm, ?_, ?_, ?_, ?_⟩
  · obtain ⟨n, hn⟩ := Nat.exists_eq_add_of_lt (numberLexeme_pos (b :: rest))
    have hhead := ofHead_number hb rest
    rw [hlength]
    rw [hn, Nat.zero_add] at hhead ⊢
    exact lexFrom_of_token hhead offset
  · rw [hlength]
    exact scanNumber_eq (hb.imp_right isDigit_iff.2) rest
  · rintro ⟨p, ⟨behind, hp⟩, hnumber⟩
    have hne := (le_numberLexeme hnumber behind).1
    rw [hp] at hne
    -- A number with decimals at the head of the text tells the kind of what is taken.
    have hfloat : FloatValue ((b :: rest).take (numberLexeme (b :: rest)).2) →
        (numberLexeme (b :: rest)).1 = .float := by
      intro h
      have hkind := (le_numberLexeme (.inr h) ((b :: rest).drop (numberLexeme (b :: rest)).2)).2.2 h
      rwa [List.take_append_drop] at hkind
    refine ⟨?_, ?_, ?_⟩
    · exact (numberLexeme_take hne).imp And.right And.right
    · rintro p ⟨behind, hp⟩ hnumber
      have hle := (le_numberLexeme hnumber behind).2.1
      rw [hp, ← hlength] at hle
      exact List.prefix_of_prefix_length_le ⟨behind, hp⟩ hprefix hle
    · rcases numberLexeme_take hne with ⟨hkind, -⟩ | ⟨hkind, hvalue⟩
      · have hno : ¬ FloatValue ((b :: rest).take (numberLexeme (b :: rest)).2) := by
          intro h
          rw [hfloat h] at hkind
          cases hkind
        rw [hkind]
        exact ⟨⟨fun h => absurd h (by decide), fun h => absurd h hno⟩, ⟨fun _ => hno, fun _ => rfl⟩⟩
      · rw [hkind]
        exact ⟨⟨fun _ => hvalue, fun _ => rfl⟩,
          ⟨fun h => absurd h (by decide), fun h => absurd hvalue h⟩⟩
  · intro hnone
    have hzero : integerLength (b :: rest) = 0 := by
      refine Classical.not_not.1 fun hne => hnone ⟨_, hprefix, ?_⟩
      exact (numberLexeme_take hne).imp And.right And.right
    have hminus : b = 0x2D := by
      refine hb.resolve_right fun hdigit => hnone ⟨[b], ⟨rest, rfl⟩, .inl (.plain ?_)⟩
      by_cases hb0 : b = byte '0'
      · rw [hb0]
        exact .zero
      · exact .digits (nonzero_of_isDigit b (isDigit_iff.2 hdigit) hb0) (by simp [Digits])
    rw [numberLexeme_eq, if_pos hzero, hminus]
    exact ⟨rfl, rfl⟩

/-- A number with a fraction, in front of an exponent that lacks its digits. -/
def cutExponent : Text := "-1.5e+]"

theorem lexFrom_longest_number_cutExponent :
    lexFrom 0 7 cutExponent [] =
        [⟨.float, "-1.5", 7⟩, ⟨.name, "e", 11⟩, ⟨.unknown, "+", 12⟩, ⟨.rbracket, "]", 13⟩] ∧
      FloatValue "-1.5" ∧ (∀ p, p <+: cutExponent → IsNumber p → p <+: Text.ofString "-1.5") ∧
      scanNumber cutExponent = some (.float, 4) := by
  have htokens : lexFrom 0 7 cutExponent [] =
      [⟨.float, "-1.5", 7⟩, ⟨.name, "e", 11⟩, ⟨.unknown, "+", 12⟩, ⟨.rbracket, "]", 13⟩] := by
    decide +kernel
  have hnumber : IsNumber [0x2D, 0x31] := .inl (.minus (.digits (by decide) (by simp [Digits])))
  obtain ⟨kind, lexeme, behind, -, hlex, hscan, hlongest, -⟩ :=
    lexFrom_longest_number (.inl rfl) [0x31, 0x2E, 0x35, 0x65, 0x2B, 0x5D] 7
  obtain ⟨rfl, rfl⟩ : Kind.float = kind ∧ Text.ofString "-1.5" = lexeme := by
    have hhead := (List.cons.inj (htokens.symm.trans hlex)).1
    exact ⟨congrArg Token.kind hhead, congrArg Token.text hhead⟩
  obtain ⟨-, hprefix, hfloat, -⟩ := hlongest ⟨_, ⟨[0x2E, 0x35, 0x65, 0x2B, 0x5D], rfl⟩, hnumber⟩
  exact ⟨htokens, hfloat.1 rfl, hprefix, hscan⟩

end Token

end SelectionCheck
