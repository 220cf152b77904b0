import SelectionCheck.Document.Parse
import SelectionCheck.Proofs.Token.Lexer

/-!
# Lexemes in front of a blank

Most lexemes end where the text ends or a blank follows: what a scanner finds in a text it finds
again in the text with a space or a line feed and more behind it. Strings are different, since a
blank need not end them. A quoted string without faults has its closing quote inside, and goes no
further. A block string counts as closed if it ends with three quotes, and these may be escaped;
`closesBlock` tells whether some three quotes inside it do close it. If none does, it goes on in
front of other text.
-/

namespace SelectionCheck

open Text (runLength byte)

/-- Nothing follows, or a space or a line feed does. -/
def Separated (rest : Text) : Prop := ∀ b ∈ rest.head?, b = 0x20 ∨ b = 0x0A

theorem separated_nil : Separated [] := nofun

theorem separated_space (text : Text) : Separated (0x20 :: text) :=
  fun _ hb => .inl (Option.some.inj hb).symm

theorem separated_feed (text : Text) : Separated (0x0A :: text) :=
  fun _ hb => .inr (Option.some.inj hb).symm

/-- What a blank or a line feed tells is what the end of the text tells. -/
theorem Separated.eq_of_head {β : Type} {f : Text → β} {rest : Text} (h : Separated rest)
    (hspace : ∀ text, f (0x20 :: text) = f []) (hfeed : ∀ text, f (0x0A :: text) = f []) :
    f rest = f [] := by
  cases rest with
  | nil => rfl
  | cons b rest =>
      rcases h b rfl with rfl | rfl
      · exact hspace rest
      · exact hfeed rest

namespace Token

/-! ## Numbers and names before a blank -/

theorem runLength_append {p : UInt8 → Bool} {rest : Text} (hrest : Separated rest)
    (hp : p 0x20 = false ∧ p 0x0A = false) (text : Text) :
    runLength p (text ++ rest) = runLength p text := by
  induction text with
  | nil =>
      exact hrest.eq_of_head (fun _ => by simp [runLength, hp.1]) fun _ => by simp [runLength, hp.2]
  | cons b text ih =>
      rw [runLength, runLength] at ih ⊢
      cases hb : p b with
      | false => simp [hb]
      | true => simpa [hb] using ih

variable {rest : Text}

/-- What has no blank in it does not begin in a text and end in the blank behind it. -/
theorem startsWith_append {start : Text} (hstart : 0x20 ∉ start ∧ 0x0A ∉ start)
    (hrest : Separated rest) (text : Text) :
    Text.startsWith start (text ++ rest) = Text.startsWith start text := by
  induction start generalizing text with
  | nil => rfl
  | cons a start ih =>
      simp only [List.mem_cons, not_or] at hstart
      obtain ⟨⟨hspace, hspaces⟩, hfeed, hfeeds⟩ := hstart
      cases text with
      | nil =>
          exact hrest.eq_of_head (fun _ => startsWith_cons_of_ne hspace)
            fun _ => startsWith_cons_of_ne hfeed
      | cons b text => exact congrArg ((a == b) && ·) (ih ⟨hspaces, hfeeds⟩ text)

theorem wholeLength_append (hrest : Separated rest) (text : Text) :
    wholeLength (text ++ rest) = wholeLength text := by
  cases text with
  | nil => exact hrest.eq_of_head (fun _ => rfl) fun _ => rfl
  | cons b text =>
      rw [List.cons_append, wholeLength, wholeLength, runLength_append hrest (by decide)]

theorem integerLength_append (hrest : Separated rest) (text : Text) :
    integerLength (text ++ rest) = integerLength text := by
  cases text with
  | nil => exact hrest.eq_of_head (fun _ => rfl) fun _ => rfl
  | cons b text =>
      rw [List.cons_append, integerLength, integerLength, ← List.cons_append,
        wholeLength_append hrest, wholeLength_append hrest]

theorem fractionLength_append (hrest : Separated rest) (text : Text) :
    fractionLength (text ++ rest) = fractionLength text := by
  cases text with
  | nil => exact hrest.eq_of_head (fun _ => rfl) fun _ => rfl
  | cons b text =>
      rw [List.cons_append, fractionLength, fractionLength, runLength_append hrest (by decide)]

theorem exponentLength_append (hrest : Separated rest) (text : Text) :
    exponentLength (text ++ rest) = exponentLength text := by
  match text with
  | [] => exact hrest.eq_of_head (fun _ => rfl) fun _ => rfl
  | [b] =>
      exact hrest.eq_of_head (f := fun rest => exponentLength (b :: rest)) (fun _ => rfl) fun _ => rfl
  | b :: s :: text =>
      have hdrop (sign : Nat) (hsign : sign ≤ 1) :
          runLength Text.isDigit ((s :: (text ++ rest)).drop sign) =
            runLength Text.isDigit ((s :: text).drop sign) := by
        rw [← List.cons_append, List.drop_append_of_le_length (by rw [List.length_cons]; omega),
          runLength_append hrest (by decide)]
      by_cases hsign : s = byte '+' ∨ s = byte '-'
      · have hrun := hdrop 1 (Nat.le_refl 1)
        simp_all [exponentLength]
      · have hrun := hdrop 0 (Nat.zero_le 1)
        simp_all [exponentLength]

theorem wholeLength_le (text : Text) : wholeLength text ≤ text.length := by
  cases text with
  | nil => exact Nat.le_refl 0
  | cons b text =>
      rw [wholeLength, List.length_cons]
      have hrun := Text.runLength_le Text.isDigit text
      split
      · omega
      · split <;> omega

theorem integerLength_le (text : Text) : integerLength text ≤ text.length := by
  cases text with
  | nil => exact Nat.le_refl 0
  | cons b text =>
      rw [integerLength]
      split
      · have hwhole := wholeLength_le text
        rw [List.length_cons]
        split <;> omega
      · exact wholeLength_le _

theorem fractionLength_le (text : Text) : fractionLength text ≤ text.length := by
  cases text with
  | nil => exact Nat.le_refl 0
  | cons b text =>
      rw [fractionLength, List.length_cons]
      have hrun := Text.runLength_le Text.isDigit text
      split
      · split <;> omega
      · omega

theorem exponentLength_le (text : Text) : exponentLength text ≤ text.length := by
  cases text with
  | nil => exact Nat.le_refl 0
  | cons b text =>
      rw [exponentLength, List.length_cons]
      simp only
      split
      · have hrun (sign : Nat) := Text.runLength_le Text.isDigit (text.drop sign)
        simp only [List.length_drop] at hrun
        split
        · omega
        · next n hn =>
            have hle := hrun (if text.head? = some (byte '+') || text.head? = some (byte '-')
              then 1 else 0)
            omega
      · omega

/-- A number takes no byte of the blank behind it. -/
theorem numberLexeme_append (hrest : Separated rest) (text : Text) :
    numberLexeme (text ++ rest) = numberLexeme text := by
  have hwhole := integerLength_le text
  have hfraction := fractionLength_le (text.drop (integerLength text))
  rw [List.length_drop] at hfraction
  rw [numberLexeme, numberLexeme]
  simp only [integerLength_append hrest]
  rw [List.drop_append_of_le_length hwhole, fractionLength_append hrest,
    List.drop_append_of_le_length (by omega), exponentLength_append hrest]

theorem numberLexeme_le (b : UInt8) (text : Text) :
    (numberLexeme (b :: text)).2 ≤ text.length + 1 := by
  have hwhole := integerLength_le (b :: text)
  have hfraction := fractionLength_le ((b :: text).drop (integerLength (b :: text)))
  have hexponent := exponentLength_le ((b :: text).drop (integerLength (b :: text) +
    fractionLength ((b :: text).drop (integerLength (b :: text)))))
  rw [List.length_drop, List.length_cons] at hfraction hexponent
  rw [List.length_cons] at hwhole
  rw [numberLexeme]
  split
  · exact Nat.le_add_left 1 _
  · split
    · exact hwhole
    · show integerLength (b :: text) + _ + _ ≤ text.length + 1
      omega

/-! ## Strings before a blank -/

/-- Whether the content of a block string, behind its opening quotes, has three quotes that close
it: the first three that no backslash precedes, where three quotes behind a backslash are passed
over together. -/
def closesBlock : Text → Bool
  | 0x5C :: 0x22 :: 0x22 :: 0x22 :: rest => closesBlock rest
  | 0x22 :: 0x22 :: 0x22 :: _ => true
  | _ :: rest => closesBlock rest
  | [] => false

theorem quotedLength_plain {b : UInt8} (hescape : b ≠ byte '\\') (hfeed : b ≠ 0x0A)
    (hquote : b ≠ 0x22) (n : Nat) (text : Text) :
    quotedLength n (b :: text) = quotedLength (n + 1) text := by
  rw [quotedLength.eq_def]
  simp [hescape, hfeed, hquote]

theorem quotedFaults_plain {b : UInt8} (hescape : b ≠ byte '\\') (hquote : b ≠ 0x22)
    (closed : Bool) (offset : Nat) (text : Text) :
    quotedFaults closed offset (b :: text) = quotedFaults closed (offset + 1) text := by
  rw [quotedFaults.eq_def]
  simp [hescape, hquote]

theorem le_quotedLength (n : Nat) (text : Text) : n ≤ quotedLength n text := by
  fun_induction quotedLength n text <;> omega

theorem quotedLength_le (n : Nat) (text : Text) : quotedLength n text ≤ n + text.length := by
  fun_induction quotedLength n text <;> simp only [List.length_cons, List.length_nil] <;> omega

/-- A quoted string without faults ends with its closing quote, whatever follows. -/
theorem quotedLength_append {offset n : Nat} {text : Text}
    (hfaults : quotedFaults false offset (text.take (quotedLength n text - n)) = []) :
    quotedLength n (text ++ rest) = quotedLength n text := by
  fun_induction quotedLength n text generalizing offset with
  | case1 n => simp [quotedFaults] at hfaults
  | case2 n =>
      rw [Nat.add_sub_cancel_left] at hfaults
      cases hfaults
  | case3 n e text ih =>
      have hle := le_quotedLength (n + 2) text
      obtain ⟨m, hm⟩ := Nat.exists_eq_add_of_le hle
      have htake : quotedLength (n + 2) text - n = m + 2 := by omega
      have htail : quotedLength (n + 2) text - (n + 2) = m := by omega
      rw [htake, List.take_succ_cons, List.take_succ_cons, quotedFaults, if_neg (by decide),
        if_pos rfl] at hfaults
      have hrest : quotedFaults false (offset + 2) (text.take m) = [] := by
        split at hfaults
        · exact hfaults
        · cases hfaults
      exact ih (htail ▸ hrest)
  | case4 n text => simp [quotedFaults] at hfaults
  | case5 n text =>
      rw [List.cons_append, quotedLength.eq_def]
      rfl
  | case6 n b text hescape hfeed hquote ih =>
      have hle := le_quotedLength (n + 1) text
      obtain ⟨m, hm⟩ := Nat.exists_eq_add_of_le hle
      have htake : quotedLength (n + 1) text - n = m + 1 := by omega
      have htail : quotedLength (n + 1) text - (n + 1) = m := by omega
      rw [htake, List.take_succ_cons, quotedFaults_plain hescape hquote, ← htail] at hfaults
      rw [List.cons_append, quotedLength_plain hescape hfeed hquote, ih hfaults]

theorem startsWith_blockQuotes_iff {text : Text} :
    Text.startsWith blockQuotes text = true ↔ ∃ rest, text = 0x22 :: 0x22 :: 0x22 :: rest := by
  rw [Text.startsWith, List.isPrefixOf_iff_prefix]
  constructor
  · rintro ⟨rest, rfl⟩
    exact ⟨rest, rfl⟩
  · rintro ⟨rest, rfl⟩
    exact ⟨rest, rfl⟩

theorem le_blockLength (skip n : Nat) (previous : UInt8) (text : Text) :
    n ≤ blockLength skip n previous text := by
  induction text generalizing skip n previous with
  | nil => simp [blockLength]
  | cons b text ih =>
      cases skip with
      | succ skip => exact Nat.le_of_succ_le (ih skip (n + 1) b)
      | zero =>
          rw [blockLength]
          split
          · split
            · exact Nat.le_of_succ_le (ih 2 (n + 1) b)
            · omega
          · exact Nat.le_of_succ_le (ih 0 (n + 1) b)

theorem blockLength_plain {text : Text} (h : Text.startsWith blockQuotes text = false) {b : UInt8}
    {tail : Text} (htext : text = b :: tail) (n : Nat) (previous : UInt8) :
    blockLength 0 n previous text = blockLength 0 (n + 1) b tail := by
  subst htext
  rw [blockLength, h]
  rfl

theorem blockLength_escaped (n : Nat) (previous : UInt8) (text : Text) :
    blockLength 0 n previous (0x5C :: 0x22 :: 0x22 :: 0x22 :: text) =
      blockLength 0 (n + 4) 0x22 text := rfl

theorem blockLength_closing {previous : UInt8} (h : previous ≠ byte '\\') (n : Nat) (text : Text) :
    blockLength 0 n previous (0x22 :: 0x22 :: 0x22 :: text) = n + 3 := by
  rw [blockLength, if_pos (startsWith_blockQuotes_iff.2 ⟨text, rfl⟩), if_neg h]

/-- Where the content of a block string goes on by one byte: it neither begins with three quotes
nor with three quotes behind a backslash. -/
theorem blockLength_step {b : UInt8} {text : Text}
    (hescaped : ∀ tail, b = 0x5C → text = 0x22 :: 0x22 :: 0x22 :: tail → False)
    (hclosing : ∀ tail, b = 0x22 → text = 0x22 :: 0x22 :: tail → False) (hrest : Separated rest)
    (n : Nat) (previous : UInt8) :
    blockLength 0 n previous (b :: text ++ rest) = blockLength 0 (n + 1) b (text ++ rest) ∧
      (b = byte '\\' → Text.startsWith blockQuotes text = false) := by
  constructor
  · have hplain : Text.startsWith blockQuotes (b :: text ++ rest) = false := by
      rw [startsWith_append (by decide) hrest, ← Bool.not_eq_true, startsWith_blockQuotes_iff]
      rintro ⟨tail, htail⟩
      obtain ⟨rfl, rfl⟩ := List.cons.inj htail
      exact hclosing tail rfl rfl
    exact blockLength_plain hplain rfl n previous
  · intro hb
    rw [← Bool.not_eq_true, startsWith_blockQuotes_iff]
    rintro ⟨tail, htail⟩
    exact hescaped tail hb htail

theorem blockLength_cons {b : UInt8} {text : Text}
    (hescaped : ∀ tail, b = 0x5C → text = 0x22 :: 0x22 :: 0x22 :: tail → False)
    (hclosing : ∀ tail, b = 0x22 → text = 0x22 :: 0x22 :: tail → False) (n : Nat)
    (previous : UInt8) :
    blockLength 0 n previous (b :: text) = blockLength 0 (n + 1) b text := by
  simpa using (blockLength_step hescaped hclosing separated_nil n previous).1

theorem blockLength_le (skip n : Nat) (previous : UInt8) (text : Text) :
    blockLength skip n previous text ≤ n + text.length := by
  induction text generalizing skip n previous with
  | nil => simp [blockLength]
  | cons b text ih =>
      rw [List.length_cons]
      cases skip with
      | succ skip =>
          have hle := ih skip (n + 1) b
          rw [blockLength]
          omega
      | zero =>
          rw [blockLength]
          split
          · next hquotes =>
              split
              · have hle := ih 2 (n + 1) b
                omega
              · obtain ⟨tail, htail⟩ := startsWith_blockQuotes_iff.1 hquotes
                have hlength := congrArg List.length htail
                simp only [List.length_cons] at hlength
                omega
          · have hle := ih 0 (n + 1) b
            omega

/-- A block string that closes ends with its closing quotes, whatever follows. -/
theorem blockLength_append_of_closes (hrest : Separated rest) {n : Nat} {previous : UInt8}
    {text : Text} (hcloses : closesBlock text = true)
    (hprevious : previous = byte '\\' → Text.startsWith blockQuotes text = false) :
    blockLength 0 n previous (text ++ rest) = blockLength 0 n previous text := by
  fun_induction closesBlock text generalizing n previous with
  | case1 text ih =>
      simp only [List.cons_append, blockLength_escaped]
      exact ih hcloses (fun h => absurd h (by decide))
  | case2 text =>
      have hne : previous ≠ byte '\\' := by
        intro h
        exact absurd (startsWith_blockQuotes_iff.2 ⟨text, rfl⟩) (by rw [hprevious h]; decide)
      simp only [List.cons_append, blockLength_closing hne]
  | case3 b text hescaped hclosing ih =>
      obtain ⟨hstep, hnext⟩ := blockLength_step hescaped hclosing hrest n previous
      rw [blockLength_cons hescaped hclosing, hstep, ih hcloses hnext]
  | case4 => cases hcloses

/-- A block string that ends before the text does closes. -/
theorem closesBlock_of_lt {n : Nat} {previous : UInt8} {text : Text}
    (h : blockLength 0 n previous text < n + text.length) : closesBlock text = true := by
  fun_induction closesBlock text generalizing n previous with
  | case1 text ih =>
      simp only [blockLength_escaped, List.length_cons] at h
      have hlt : blockLength 0 (n + 4) 0x22 text < n + 4 + text.length := by omega
      exact ih hlt
  | case2 text => rfl
  | case3 b text hescaped hclosing ih =>
      rw [blockLength_cons hescaped hclosing, List.length_cons] at h
      have hlt : blockLength 0 (n + 1) b text < n + 1 + text.length := by omega
      exact ih hlt
  | case4 => simp [blockLength] at h

/-- A block string that does not close takes the space behind it. -/
theorem lt_blockLength_append (n : Nat) (previous : UInt8) {text : Text}
    (hcloses : closesBlock text = false) (rest : Text) :
    n + text.length < blockLength 0 n previous (text ++ 0x20 :: rest) := by
  fun_induction closesBlock text generalizing n previous with
  | case1 text ih =>
      simp only [List.cons_append, blockLength_escaped, List.length_cons]
      have hlt := ih (n + 4) 0x22 hcloses
      omega
  | case2 text => cases hcloses
  | case3 b text hescaped hclosing ih =>
      rw [(blockLength_step hescaped hclosing (separated_space rest) n previous).1,
        List.length_cons]
      have hlt := ih (n + 1) b hcloses
      omega
  | case4 => exact le_blockLength 0 (n + 1) 0x20 rest

theorem stringLength_le (b : UInt8) (text : Text) :
    stringLength (b :: text) ≤ text.length + 1 := by
  rw [stringLength]
  split
  · next hblock =>
      obtain ⟨content, hcontent⟩ := startsWith_blockQuotes_iff.1 hblock
      have hle := blockLength_le 0 3 0x22 content
      have hlength := congrArg List.length hcontent
      simp only [List.length_cons] at hlength
      rw [hcontent]
      simp only [List.drop_succ_cons, List.drop_zero]
      omega
  · have hle := quotedLength_le 1 text
    simp only [List.drop_succ_cons, List.drop_zero]
    omega

/-- A string without faults takes no byte of the blank behind it, if it closes. -/
theorem stringLength_append (hrest : Separated rest) {text : Text}
    (hfaults : stringFaults ((0x22 :: text).take (stringLength (0x22 :: text))) = [])
    (hcloses : Text.startsWith blockQuotes (0x22 :: text) = true →
      closesBlock (text.drop 2) = true) :
    stringLength (0x22 :: text ++ rest) = stringLength (0x22 :: text) := by
  rw [stringLength, startsWith_append (by decide) hrest]
  split
  · next hblock =>
      have hsame := hcloses hblock
      obtain ⟨content, hcontent⟩ := startsWith_blockQuotes_iff.1 hblock
      obtain ⟨-, rfl⟩ := List.cons.inj hcontent
      rw [stringLength, if_pos hblock]
      exact blockLength_append_of_closes hrest hsame fun h => absurd h (by decide)
  · next hblock =>
      have hlength : stringLength (0x22 :: text) = quotedLength 1 text := by
        rw [stringLength, if_neg hblock]
        rfl
      have hle := le_quotedLength 1 text
      obtain ⟨m, hm⟩ := Nat.exists_eq_add_of_le' hle
      have hopen : ¬ Text.startsWith blockQuotes ((0x22 :: text).take (m + 1)) = true := by
        rw [startsWith_blockQuotes_iff] at hblock ⊢
        rintro ⟨tail, htail⟩
        have hprefix := List.take_append_drop (m + 1) (0x22 :: text)
        rw [htail] at hprefix
        exact hblock ⟨tail ++ (0x22 :: text).drop (m + 1), by simpa using hprefix.symm⟩
      rw [hlength, hm, stringFaults, if_neg hopen] at hfaults
      have htake : quotedFaults false 1 (text.take (quotedLength 1 text - 1)) = [] := by
        rw [hm, Nat.add_sub_cancel]
        exact hfaults
      rw [hlength]
      exact quotedLength_append htake

/-- The token at the head of a text is there too when a blank follows the text. For a string that is
a matter of its own. -/
theorem tokenOfHead_append (hrest : Separated rest) {b : UInt8} {tail : Text}
    (hstring : b = 0x22 → stringLength (b :: tail ++ rest) = stringLength (b :: tail)) :
    tokenOfHead b (tail ++ rest) = tokenOfHead b tail := by
  rw [tokenOfHead, tokenOfHead]
  split
  · rfl
  · rw [← List.cons_append, startsWith_append (by decide) hrest,
      runLength_append hrest (by decide), numberLexeme_append hrest]
    split
    · rfl
    · split
      · rfl
      · split
        · next hquote => rw [hstring hquote]
        · rfl

/-- What a text begins with, unless it is a comment, it begins with also when a blank follows. -/
theorem ofHead_append (hrest : Separated rest) {b : UInt8} {tail : Text} (hcomment : b ≠ byte '#')
    (hstring : b = 0x22 → stringLength (b :: tail ++ rest) = stringLength (b :: tail)) :
    Lexeme.ofHead b (tail ++ rest) = Lexeme.ofHead b tail := by
  rw [Lexeme.ofHead, Lexeme.ofHead, if_neg hcomment, if_neg hcomment, ← List.cons_append,
    startsWith_append (by decide) hrest, tokenOfHead_append hrest hstring]

/-- A token lies within the text at whose head it is. -/
theorem tokenOfHead_le (b : UInt8) (tail : Text) : (tokenOfHead b tail).2 ≤ tail.length + 1 := by
  generalize hr : tokenOfHead b tail = r
  cases tokenOfHead_cases hr with
  | punctuator | unknown => exact Nat.le_add_left 1 _
  | ellipsis hdots =>
      obtain ⟨more, hmore⟩ := List.isPrefixOf_iff_prefix.1 hdots
      have hlength := congrArg List.length hmore
      have hthree : (Text.ofString "...").length = 3 := rfl
      rw [List.length_append, hthree, List.length_cons] at hlength
      show 3 ≤ tail.length + 1
      omega
  | name =>
      have hrun := Text.runLength_le isNameByte tail
      show 1 + runLength isNameByte tail ≤ tail.length + 1
      omega
  | string => exact stringLength_le b tail
  | number => exact numberLexeme_le b tail

end Token

end SelectionCheck
