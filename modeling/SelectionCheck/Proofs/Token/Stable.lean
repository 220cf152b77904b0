import SelectionCheck.Proofs.Token.Block
import SelectionCheck.Proofs.Token.Number
import SelectionCheck.Proofs.Token.Spaced

/-!
# Splitting a text again

The tokens of a text are written in a line, with single spaces between them, and the line is split
again. The main statement is that the tokens are the same, if the strings among them have no faults:
also those that are no lexical form of the language, and numbers in front of what does not continue
them.

A scanner may look behind what it takes. Where it stopped, it stops also if the text ends there
(`tokenOfHead_alone`), so each token is a token when taken alone, and a space behind it changes
nothing. The one exception is a block string that does not close. It runs to the end of its text, so
it is the last token, and it is the last again.
-/

namespace SelectionCheck

open Text (byte isDigit runLength)

namespace Token

/-! ## Texts that end with their first token -/

theorem startsWith_of_take {start text : Text} {n : Nat}
    (h : Text.startsWith start (text.take n) = true) : Text.startsWith start text = true :=
  List.isPrefixOf_iff_prefix.2 ((List.isPrefixOf_iff_prefix.1 h).trans (List.take_prefix n text))

theorem runLength_alone (p : UInt8 → Bool) (text : Text) :
    runLength p (text.take (runLength p text)) = runLength p text := by
  have htake : text.take (runLength p text) = text.takeWhile p :=
    (List.prefix_iff_eq_take.1 (List.takeWhile_prefix p)).symm
  have hself : (text.takeWhile p ++ []).takeWhile p = text.takeWhile p ++ [].takeWhile p :=
    List.takeWhile_append_of_pos (List.all_eq_true.1 List.all_takeWhile)
  rw [List.append_nil, List.takeWhile_nil, List.append_nil] at hself
  rw [htake, runLength, hself, runLength]

theorem integerLength_of_intValue {whole : Text} (h : IntValue whole) :
    integerLength whole = whole.length := by
  obtain ⟨n, hn, hlength⟩ := integerLength_append_of_intValue h []
  rw [List.append_nil] at hlength
  have hzero : n = 0 := Nat.le_zero.1 hn
  omega

/-- A text whose first byte is no whole number does not begin with one. -/
theorem integerLength_singleton {b : UInt8} {rest : Text} (h : integerLength (b :: rest) = 0) :
    integerLength [b] = 0 := by
  by_contra hne
  have hle := integerLength_le [b]
  have hvalue := intValue_take hne
  rw [List.take_of_length_le (by simp only [List.length_singleton] at hle ⊢; omega)] at hvalue
  obtain ⟨n, -, hlength⟩ := integerLength_append_of_intValue hvalue rest
  rw [List.singleton_append, h, List.length_singleton] at hlength
  omega

theorem numberLexeme_alone (b : UInt8) (rest : Text) :
    numberLexeme ((b :: rest).take (numberLexeme (b :: rest)).2) = numberLexeme (b :: rest) := by
  by_cases hzero : integerLength (b :: rest) = 0
  · rw [numberLexeme_eq (b :: rest), if_pos hzero, List.take_succ_cons, List.take_zero,
      numberLexeme_eq, if_pos (integerLength_singleton hzero)]
  · have hle := numberLexeme_le b rest
    have hlength : ((b :: rest).take (numberLexeme (b :: rest)).2).length =
        (numberLexeme (b :: rest)).2 := by
      rw [List.length_take, List.length_cons]
      omega
    rcases numberLexeme_take hzero with ⟨hkind, hint⟩ | ⟨hkind, hfloat⟩
    · have hpos := List.length_pos_iff.2 hint.ne_nil
      have hinteger := integerLength_of_intValue hint
      rw [numberLexeme_eq, hinteger, if_neg (Nat.ne_of_gt hpos), List.drop_length, hlength]
      exact Prod.ext hkind.symm rfl
    · obtain ⟨-, hlong, hfloating⟩ := le_numberLexeme (.inr hfloat) []
      rw [List.append_nil] at hlong hfloating
      refine Prod.ext ((hfloating hfloat).trans hkind.symm) (Nat.le_antisymm ?_ ?_)
      · obtain ⟨n, hn⟩ := Nat.exists_eq_succ_of_ne_zero (Nat.ne_of_gt (numberLexeme_pos _))
        rw [hn, List.take_succ_cons] at hlength ⊢
        rw [List.length_cons] at hlength
        exact hlength ▸ numberLexeme_le b (rest.take n)
      · exact Nat.le_trans (Nat.le_of_eq hlength.symm) hlong

theorem quotedLength_alone (n : Nat) (text : Text) :
    quotedLength n (text.take (quotedLength n text - n)) = quotedLength n text := by
  fun_induction quotedLength n text with
  | case1 n => simp [quotedLength]
  | case2 n =>
      rw [Nat.add_sub_cancel_left]
      rfl
  | case3 n e text ih =>
      rw [quotedLength_sub, List.take_succ_cons, List.take_succ_cons, quotedLength, if_pos rfl]
      exact ih
  | case4 n text =>
      rw [Nat.sub_self]
      rfl
  | case5 n text =>
      rw [Nat.add_sub_cancel_left]
      rfl
  | case6 n b text hescape hfeed hquote ih =>
      rw [quotedLength_sub, List.take_succ_cons, quotedLength_plain hescape hfeed hquote]
      exact ih

theorem blockLength_alone (skip n : Nat) (previous : UInt8) (text : Text) :
    blockLength skip n previous (text.take (blockLength skip n previous text - n)) =
      blockLength skip n previous text := by
  induction text generalizing skip n previous with
  | nil => simp
  | cons b text ih =>
      -- what is taken behind the first byte
      have htake (skip : Nat) : blockLength skip (n + 1) b text - n =
          blockLength skip (n + 1) b text - (n + 1) + 1 := by
        have hle := le_blockLength skip (n + 1) b text
        omega
      cases skip with
      | succ skip =>
          rw [blockLength, htake, List.take_succ_cons, blockLength, ih]
      | zero =>
          rw [blockLength]
          split
          · next hquotes =>
              obtain ⟨rest, hrest⟩ := startsWith_blockQuotes_iff.1 hquotes
              obtain ⟨rfl, rfl⟩ := List.cons.inj hrest
              split
              · next hescaped =>
                  -- the other two quotes are passed over, so they are taken too
                  have hle := le_blockLength 0 (n + 3) 0x22 rest
                  have htwo : blockLength 2 (n + 1) 0x22 (0x22 :: 0x22 :: rest) - (n + 1) =
                      blockLength 0 (n + 3) 0x22 rest - (n + 3) + 2 := by
                    change blockLength 0 (n + 3) 0x22 rest - (n + 1) = _
                    omega
                  have hstep (tail : Text) :
                      blockLength 0 n previous (0x22 :: 0x22 :: 0x22 :: tail) =
                        blockLength 2 (n + 1) 0x22 (0x22 :: 0x22 :: tail) := by
                    rw [hescaped]
                    rfl
                  have hpassed := ih 2 (n + 1) 0x22
                  rw [htwo, List.take_succ_cons, List.take_succ_cons] at hpassed
                  rw [htake, htwo, List.take_succ_cons, List.take_succ_cons, List.take_succ_cons,
                    hstep, hpassed]
              · next hplain =>
                  rw [Nat.add_sub_cancel_left]
                  exact blockLength_closing hplain n []
          · next hquotes =>
              rw [htake, List.take_succ_cons, blockLength, if_neg, ih]
              rw [← List.take_succ_cons]
              exact mt startsWith_of_take hquotes

theorem stringLength_alone (text : Text) :
    stringLength (text.take (stringLength text)) = stringLength text := by
  rw [stringLength, startsWith_take_stringLength]
  split
  · next hblock =>
      obtain ⟨content, rfl⟩ := startsWith_blockQuotes_iff.1 hblock
      have hlength : stringLength (0x22 :: 0x22 :: 0x22 :: content) = blockLength 0 3 0x22 content :=
        if_pos hblock
      rw [hlength, List.drop_take]
      exact blockLength_alone 0 3 0x22 content
  · next hquoted =>
      have hlength : stringLength text = quotedLength 1 (text.drop 1) := if_neg hquoted
      rw [hlength, List.drop_take]
      exact quotedLength_alone 1 (text.drop 1)

/-- What a text begins with is all that it begins with if the text ends there. -/
theorem tokenOfHead_alone (b : UInt8) (rest : Text) :
    tokenOfHead b (rest.take ((tokenOfHead b rest).2 - 1)) = tokenOfHead b rest := by
  cases hbyte : Kind.ofByte? b with
  | some kind => simp only [tokenOfHead, hbyte]
  | none =>
      by_cases hdots : Text.startsWith "..." (b :: rest) = true
      · obtain ⟨more, hmore⟩ := List.isPrefixOf_iff_prefix.1 hdots
        cases hmore
        rfl
      · have hstill (n : Nat) : ¬ Text.startsWith "..." (b :: rest.take n) = true := by
          rw [← List.take_succ_cons]
          exact mt startsWith_of_take hdots
        have htoken (tail : Text) (h : ¬ Text.startsWith "..." (b :: tail) = true) :
            tokenOfHead b tail = if isNameStart b then (.name, 1 + runLength isNameByte tail)
              else if b = 0x22 then (.string, stringLength (b :: tail))
              else if b = byte '-' || isDigit b then numberLexeme (b :: tail)
              else (.unknown, 1) := by
          simp only [tokenOfHead, hbyte, if_neg h]
        rw [htoken _ (hstill _), htoken _ hdots]
        split
        · rw [Nat.add_sub_cancel_left, runLength_alone]
        · split
          · rw [← List.take_cons (stringLength_pos _), stringLength_alone]
          · split
            · rw [← List.take_cons (numberLexeme_pos _), numberLexeme_alone]
            · rfl

theorem ofHead_alone {b : UInt8} {rest : Text} {kind : Kind} {n : Nat}
    (h : Lexeme.ofHead b rest = .token kind n) :
    Lexeme.ofHead b (rest.take (n - 1)) = .token kind n := by
  have halone := tokenOfHead_alone b rest
  obtain ⟨hblank, hcomment, hmark, htoken⟩ := ofHead_eq_token_iff.1 h
  rw [htoken] at halone
  refine ofHead_eq_token_iff.2 ⟨hblank, hcomment, ?_, halone⟩
  rw [← List.take_succ_cons]
  exact mt startsWith_of_take hmark

/-- The content of a block string that closes does so also if the text ends there. -/
theorem closesBlock_take {n : Nat} {previous : UInt8} {content : Text}
    (hcloses : closesBlock content = true)
    (hprevious : previous = byte '\\' → Text.startsWith blockQuotes content = false) :
    closesBlock (content.take (blockLength 0 n previous content - n)) = true := by
  fun_induction closesBlock content generalizing n previous with
  | case1 content ih =>
      rw [blockLength_escaped, blockLength_sub]
      exact ih hcloses fun h => absurd h (by decide)
  | case2 content =>
      have hne : previous ≠ byte '\\' := by
        intro h
        exact absurd (startsWith_blockQuotes_iff.2 ⟨content, rfl⟩) (by rw [hprevious h]; decide)
      rw [blockLength_closing hne, Nat.add_sub_cancel_left]
      rfl
  | case3 b content hescaped hclosing ih =>
      have hlonger {part : Text} {m : Nat} (h : content.take m = part) :
          content = part ++ content.drop m := by
        rw [← h, List.take_append_drop]
      obtain ⟨-, hnext⟩ := blockLength_step hescaped hclosing separated_nil n previous
      rw [blockLength_cons hescaped hclosing, blockLength_sub, List.take_succ_cons,
        closesBlock_cons]
      · exact ih hcloses hnext
      · exact fun tail hb htail => hescaped _ hb (hlonger htail)
      · exact fun tail hb htail => hclosing _ hb (hlonger htail)
  | case4 => cases hcloses

end Token

/-! ## The tokens of a text -/

namespace Word

variable {b : UInt8} {rest : Text} {kind : Token.Kind} {n : Nat}

theorem lone_of_ofHead (h : Token.Lexeme.ofHead b rest = .token kind n) :
    Lone ⟨kind, (b :: rest).take n⟩ := by
  have htoken := Token.tokenOfHead_of_ofHead h
  have hpos := Token.tokenOfHead_pos b rest
  have hle := Token.tokenOfHead_le b rest
  rw [htoken] at hpos hle
  refine ⟨b, rest.take (n - 1), List.take_cons hpos, ?_⟩
  have hlength : (rest.take (n - 1)).length + 1 = n := by
    rw [List.length_take]
    change 0 < n at hpos
    change n ≤ rest.length + 1 at hle
    omega
  rw [hlength]
  exact Token.ofHead_alone h

/-- A block string that does not run to the end of the text closes. -/
theorem closes_of_ofHead (h : Token.Lexeme.ofHead b rest = .token kind n) (hn : n ≤ rest.length) :
    closes ⟨kind, (b :: rest).take n⟩ = true := by
  have htoken := Token.tokenOfHead_of_ofHead h
  by_cases hstring : kind = .string
  · subst hstring
    obtain ⟨rfl, hlength⟩ := Token.tokenOfHead_of_string (congrArg Prod.fst htoken)
    rw [htoken] at hlength
    change n = _ at hlength
    rw [hlength] at hn ⊢
    simp only [closes, Token.startsWith_take_stringLength]
    cases hblock : Text.startsWith Token.blockQuotes (0x22 :: rest) with
    | false => simp
    | true =>
        obtain ⟨content, hcontent⟩ := Token.startsWith_blockQuotes_iff.1 hblock
        obtain ⟨-, rfl⟩ := List.cons.inj hcontent
        have hblocklength : Token.stringLength (0x22 :: 0x22 :: 0x22 :: content) =
            Token.blockLength 0 3 0x22 content := if_pos hblock
        rw [hblocklength, List.length_cons, List.length_cons] at hn
        have hcloses : Token.closesBlock content = true :=
          Token.closesBlock_of_lt (show Token.blockLength 0 3 0x22 content < _ by omega)
        rw [hblocklength, List.drop_take]
        simpa using Token.closesBlock_take hcloses fun h => absurd h (by decide)
  · simp [closes, hstring]

/-- The tokens of a text whose strings have no faults are legible. -/
theorem legible_of_splits {skip offset : Nat} {text : Text} {ts : List Token}
    (h : Token.Splits skip offset text ts) (hfaults : ∀ t ∈ ts, t.word.Faultless) :
    Legible (ts.map Token.word) := by
  induction h with
  | ended => exact .nil
  | inside _ ih | ignored _ _ ih => exact ih hfaults
  | token hhead hrest ih =>
      obtain ⟨hfirst, hlater⟩ := List.forall_mem_cons.1 hfaults
      refine .cons (lone_of_ofHead hhead) hfirst (fun hmore => ?_) (ih hlater)
      apply closes_of_ofHead hhead
      -- Were the token to take all of the text, there would be none behind it.
      by_contra hall
      exact hmore (by rw [hrest.eq_nil (by omega), List.map_nil])

end Word

/-- The tokens of a text, written with single spaces between them, are the tokens of the text in
which they are written, and the strings among them are still without faults. -/
theorem lex_join_lex {source : Text}
    (h : ∀ t ∈ lex source, t.kind = .string → Token.stringFaults t.text = []) :
    (lex (Text.join " " ((lex source).map Token.text))).map Token.word =
        (lex source).map Token.word ∧
      ∀ t ∈ lex (Text.join " " ((lex source).map Token.text)),
        t.kind = .string → Token.stringFaults t.text = [] := by
  have hlegible : Word.Legible ((lex source).map Token.word) :=
    Word.legible_of_splits (Token.splits_lexFrom 0 0 source) h
  have hspaced : Word.spaced ((lex source).map Token.word) =
      Text.join " " ((lex source).map Token.text) := by
    rw [Word.spaced, List.map_map]
    rfl
  have hwords : (lex (Text.join " " ((lex source).map Token.text))).map Token.word =
      (lex source).map Token.word := by
    rw [← hspaced]
    exact hlegible.lexFrom_spaced 0
  refine ⟨hwords, fun t ht => ?_⟩
  -- A token of the line has the word of a token of the text.
  have hword : t.word ∈ (lex source).map Token.word := hwords ▸ List.mem_map_of_mem ht
  obtain ⟨u, hu, hsame⟩ := List.mem_map.1 hword
  obtain ⟨hkind, htext⟩ := Word.mk.inj hsame
  rw [← hkind, ← htext]
  exact h u hu

/-- Tokens without anything between them: a number in front of half an exponent, points, a comment,
strings with quotes and marks in them, half a byte order mark, and a block string that does not
close. -/
def crowdedText : Text :=
  "-1.5e+]01a..\"#,\\\"x\"#c\n\"\"\"p\\\"\"\"q\"\"\"" ++ ([0xEF, 0xBB] : Text) ++ "\"\"\"\\\"\"\""

theorem lex_join_lex_crowdedText :
    (∀ t ∈ lex crowdedText, t.kind = .string → Token.stringFaults t.text = []) ∧
      (lex crowdedText).map Token.kind =
        [.float, .name, .unknown, .rbracket, .int, .int, .name, .unknown, .unknown, .string,
          .string, .unknown, .unknown, .string] ∧
      (lex (Text.join " " ((lex crowdedText).map Token.text))).map Token.word =
        (lex crowdedText).map Token.word := by
  have h : ∀ t ∈ lex crowdedText, t.kind = .string → Token.stringFaults t.text = [] := by
    decide +kernel
  exact ⟨h, by decide +kernel, (lex_join_lex h).1⟩

end SelectionCheck
