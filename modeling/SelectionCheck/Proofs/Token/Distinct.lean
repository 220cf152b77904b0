import SelectionCheck.Proofs.Token.Number
import SelectionCheck.Proofs.Token.Position

/-!
# Tokens at different positions

Two offsets may have the same line and column, but no two tokens have. Unknown tokens make this a
matter of its own, since they may begin with any byte, those of a byte order mark included. What
helps is that no lexeme ends inside a mark. A mark is passed over whole; an unknown token is one
byte that begins no mark; and the other lexemes end with an ASCII byte, or before one, or with the text.
So a walk that counts lines and columns, and jumps over marks wherever it meets them, also inside
strings and comments, never jumps over the beginning of a token.
-/

namespace SelectionCheck

theorem ascii_of_all {part : Text} (h : part.all (· < 0x80) = true) : ∀ a ∈ part, a < 0x80 :=
  fun a ha => of_decide_eq_true (List.all_eq_true.1 h a ha)

namespace Position

theorem offMark_zero (text : Text) : OffMark 0 text :=
  fun _ hj => absurd hj (Nat.not_lt_zero _)

theorem offMark_one {text : Text} (h : ¬ Text.startsWith Text.byteOrderMark text) :
    OffMark 1 text := by
  intro j hj hmark
  obtain rfl := Nat.lt_one_iff.1 hj
  exact absurd hmark h

/-- A part of a text ends outside of byte order marks if its last byte or the byte behind it is
ASCII. -/
theorem offMark_append {part behind : Text}
    (h : ∀ a ∈ part.getLast?, ∀ b ∈ behind.head?, a < 0x80 ∨ b < 0x80) :
    OffMark part.length (part ++ behind) := by
  by_cases hpart : part = []
  · rw [hpart]
    exact offMark_zero _
  · have hpos := List.length_pos_iff.2 hpart
    refine offMark_of_ascii fun a b ha hb => h a ?_ b ?_
    · rwa [List.getElem?_append_left (by omega), ← List.getLast?_eq_getElem?] at ha
    · rwa [List.getElem?_append_right (Nat.le_refl _), Nat.sub_self, ← List.head?_eq_getElem?]
        at hb

theorem offMark_append_of_ascii {part : Text} (h : ∀ a ∈ part, a < 0x80) (behind : Text) :
    OffMark part.length (part ++ behind) :=
  offMark_append fun a ha _ _ => .inl (h a (List.mem_of_getLast? ha))

theorem offMark_mark (behind : Text) : OffMark 3 (0xEF :: 0xBB :: 0xBF :: behind) := by
  intro j hj hmark
  obtain ⟨more, hmore⟩ := List.isPrefixOf_iff_prefix.1 hmark
  have hcases : j = 0 ∨ j = 1 ∨ j = 2 := by omega
  rcases hcases with rfl | rfl | rfl
  · exact Nat.le_refl 3
  · cases hmore
  · cases hmore

theorem OffMark.cons {n : Nat} {b : UInt8} {rest : Text} (h : OffMark n rest)
    (hmark : Text.startsWith Text.byteOrderMark (b :: rest) → 3 ≤ n + 1) :
    OffMark (n + 1) (b :: rest) := by
  intro j hj hstart
  cases j with
  | zero => exact hmark hstart
  | succ j =>
      have hend := h j (Nat.lt_of_succ_lt_succ hj) hstart
      omega

theorem OffMark.tail {n : Nat} {b : UInt8} {rest : Text} (h : OffMark (n + 1) (b :: rest)) :
    OffMark n rest := by
  intro j hj hstart
  have hend := h (j + 1) (Nat.succ_lt_succ hj) hstart
  omega

end Position

open Position (OffMark offMark_one offMark_append offMark_append_of_ascii offMark_mark)

namespace Token

open Text (byte isDigit runLength)

/-! ## Where lexemes end -/

theorem getLast?_cons_of_getLast? {α : Type} {x : α} {l : List α} (h : l.getLast? = some x)
    (a : α) : (a :: l).getLast? = some x := by
  rw [List.getLast?_cons, h, Option.getD_some]

/-- A quoted string ends with a quote, before a line feed, or with the text. -/
theorem quotedLength_cut (n : Nat) (text : Text) :
    ∃ part behind, text = part ++ behind ∧ quotedLength n text = n + part.length ∧
      ∀ b ∈ behind.head?, b = 0x0A ∨ part.getLast? = some 0x22 := by
  fun_induction quotedLength n text with
  | case1 n => exact ⟨[], [], rfl, rfl, by simp⟩
  | case2 n => exact ⟨[byte '\\'], [], rfl, rfl, by simp⟩
  | case3 n e text ih =>
      obtain ⟨part, behind, rfl, hlength, hcut⟩ := ih
      refine ⟨byte '\\' :: e :: part, behind, rfl, ?_, fun b hb => (hcut b hb).imp_right ?_⟩
      · rw [hlength, List.length_cons, List.length_cons]
        omega
      · exact fun hlast => getLast?_cons_of_getLast? (getLast?_cons_of_getLast? hlast e) _
  | case4 n text =>
      refine ⟨[], 0x0A :: text, rfl, rfl, ?_⟩
      rintro _ ⟨⟩
      exact .inl rfl
  | case5 n text => exact ⟨[0x22], text, rfl, rfl, fun _ _ => .inr rfl⟩
  | case6 n b text hescape hfeed hquote ih =>
      obtain ⟨part, behind, rfl, hlength, hcut⟩ := ih
      refine ⟨b :: part, behind, rfl, ?_, fun c hc => (hcut c hc).imp_right ?_⟩
      · rw [hlength, List.length_cons]
        omega
      · exact fun hlast => getLast?_cons_of_getLast? hlast b

/-- A block string ends with a quote or with the text. -/
theorem blockLength_cut (skip n : Nat) (previous : UInt8) (text : Text) :
    ∃ part behind, text = part ++ behind ∧ blockLength skip n previous text = n + part.length ∧
      (behind ≠ [] → part.getLast? = some 0x22) := by
  -- A byte that is passed over joins the part behind it.
  have hstep {skip n : Nat} {b : UInt8} {text : Text}
      (h : ∃ part behind, text = part ++ behind ∧
        blockLength skip (n + 1) b text = n + 1 + part.length ∧
        (behind ≠ [] → part.getLast? = some 0x22)) :
      ∃ part behind, b :: text = part ++ behind ∧
        blockLength skip (n + 1) b text = n + part.length ∧
        (behind ≠ [] → part.getLast? = some 0x22) := by
    obtain ⟨part, behind, rfl, hlength, hcut⟩ := h
    refine ⟨b :: part, behind, rfl, ?_, fun hne => getLast?_cons_of_getLast? (hcut hne) b⟩
    rw [hlength, List.length_cons]
    omega
  induction text generalizing skip n previous with
  | nil => exact ⟨[], [], rfl, by simp [blockLength], fun h => absurd rfl h⟩
  | cons b text ih =>
      cases skip with
      | succ skip =>
          rw [blockLength]
          exact hstep (ih skip (n + 1) b)
      | zero =>
          rw [blockLength]
          split
          · next hquotes =>
              split
              · exact hstep (ih 2 (n + 1) b)
              · obtain ⟨behind, hbehind⟩ := startsWith_blockQuotes_iff.1 hquotes
                exact ⟨[0x22, 0x22, 0x22], behind, hbehind, rfl, fun _ => rfl⟩
          · exact hstep (ih 0 (n + 1) b)

/-- A string ends outside of byte order marks. -/
theorem offMark_stringLength (rest : Text) :
    OffMark (stringLength (0x22 :: rest)) (0x22 :: rest) := by
  rw [stringLength]
  split
  · next hblock =>
      obtain ⟨content, hcontent⟩ := startsWith_blockQuotes_iff.1 hblock
      obtain ⟨-, rfl⟩ := List.cons.inj hcontent
      obtain ⟨part, behind, rfl, hlength, hcut⟩ := blockLength_cut 0 3 0x22 content
      have hwhole : blockLength 0 3 0x22 (part ++ behind) =
          (0x22 :: 0x22 :: 0x22 :: part).length := by
        rw [hlength, Nat.add_comm]
        rfl
      show OffMark (blockLength 0 3 0x22 (part ++ behind))
        ((0x22 :: 0x22 :: 0x22 :: part) ++ behind)
      rw [hwhole]
      refine offMark_append fun a ha b hb => .inl ?_
      have hlast : part.getLast? = some 0x22 := hcut (List.ne_nil_of_mem (List.mem_of_head? hb))
      rw [getLast?_cons_of_getLast? (getLast?_cons_of_getLast? (getLast?_cons_of_getLast? hlast _)
        _) _] at ha
      cases ha
      decide
  · obtain ⟨part, behind, rfl, hlength, hcut⟩ := quotedLength_cut 1 rest
    have hwhole : quotedLength 1 (part ++ behind) = (0x22 :: part).length := by
      rw [hlength, Nat.add_comm]
      rfl
    show OffMark (quotedLength 1 (part ++ behind)) ((0x22 :: part) ++ behind)
    rw [hwhole]
    refine offMark_append fun a ha b hb => ?_
    rcases hcut b hb with rfl | hlast
    · exact .inr (by decide)
    · rw [getLast?_cons_of_getLast? hlast] at ha
      cases ha
      exact .inl (by decide)

theorem ascii_of_isNameByte (b : UInt8) : isNameByte b = true → b < 0x80 := by
  revert b
  exact forall_byte (by decide +kernel)

theorem ascii_of_isDigit (b : UInt8) : isDigit b = true → b < 0x80 := by
  revert b
  exact forall_byte (by decide +kernel)

theorem Digits.ascii {ds : Text} (h : Digits ds) : ∀ b ∈ ds, b < 0x80 :=
  fun b hb => ascii_of_isDigit b (isDigit_iff.2 (h b hb))

theorem Whole.ascii {whole : Text} (h : Whole whole) : ∀ b ∈ whole, b < 0x80 := by
  cases h with
  | zero => exact ascii_of_all rfl
  | @digits d ds hd hds =>
      exact List.forall_mem_cons.2 ⟨ascii_of_isDigit d (isDigit_of_nonzero d hd).1, hds.ascii⟩

theorem IntValue.ascii {whole : Text} (h : IntValue whole) : ∀ b ∈ whole, b < 0x80 := by
  cases h with
  | plain h => exact h.ascii
  | minus h => exact List.forall_mem_cons.2 ⟨by decide, h.ascii⟩

theorem Fraction.ascii {f : Text} (h : Fraction f) : ∀ b ∈ f, b < 0x80 := by
  cases h with
  | mk hds hne => exact List.forall_mem_cons.2 ⟨by decide, hds.ascii⟩

theorem Exponent.ascii {e : Text} (h : Exponent e) : ∀ b ∈ e, b < 0x80 := by
  cases h with
  | @mk mark sign ds hmark hsign hds hne =>
      have hmarks : ∀ b ∈ [(0x65 : UInt8), 0x45], b < 0x80 := ascii_of_all rfl
      have hsigns : ∀ sign ∈ [([] : Text), [0x2B], [0x2D]], sign.all (· < 0x80) = true := by decide
      refine List.forall_mem_cons.2 ⟨hmarks mark hmark, ?_⟩
      exact List.forall_mem_append.2 ⟨ascii_of_all (hsigns sign hsign), hds.ascii⟩

theorem Decimals.ascii {tail : Text} (h : Decimals tail) : ∀ b ∈ tail, b < 0x80 := by
  cases h with
  | fraction hf => exact hf.ascii
  | exponent he => exact he.ascii
  | both hf he => exact List.forall_mem_append.2 ⟨hf.ascii, he.ascii⟩

theorem IsNumber.ascii {p : Text} (h : IsNumber p) : ∀ b ∈ p, b < 0x80 := by
  rcases h with hint | hfloat
  · exact hint.ascii
  · cases hfloat with
    | mk hwhole htail => exact List.forall_mem_append.2 ⟨hwhole.ascii, htail.ascii⟩

/-- A number, or the minus sign in its place, ends outside of byte order marks. -/
theorem offMark_numberLexeme {b : UInt8} {rest : Text}
    (hmark : ¬ Text.startsWith Text.byteOrderMark (b :: rest)) :
    OffMark (numberLexeme (b :: rest)).2 (b :: rest) := by
  by_cases hzero : integerLength (b :: rest) = 0
  · rw [numberLexeme_eq, if_pos hzero]
    exact offMark_one hmark
  · have hnumber : IsNumber ((b :: rest).take (numberLexeme (b :: rest)).2) :=
      (numberLexeme_take hzero).imp And.right And.right
    have hoff := offMark_append_of_ascii hnumber.ascii
      ((b :: rest).drop (numberLexeme (b :: rest)).2)
    rwa [List.take_append_drop, List.length_take_of_le (numberLexeme_le b rest)] at hoff

theorem offMark_name {b : UInt8} (hb : isNameStart b = true) (rest : Text) :
    OffMark (1 + runLength isNameByte rest) (b :: rest) := by
  have hstart : isNameByte b = true := by rw [isNameByte, hb, Bool.true_or]
  have hascii : ∀ c ∈ b :: rest.takeWhile isNameByte, c < 0x80 := by
    refine List.forall_mem_cons.2 ⟨ascii_of_isNameByte b hstart, fun c hc => ?_⟩
    exact ascii_of_isNameByte c (List.all_eq_true.1 List.all_takeWhile c hc)
  have hoff := offMark_append_of_ascii hascii (rest.dropWhile isNameByte)
  rwa [List.cons_append, List.takeWhile_append_dropWhile, List.length_cons, Nat.add_comm] at hoff

/-- A token ends outside of byte order marks, if it does not begin with one. -/
theorem offMark_tokenOfHead {b : UInt8} {rest : Text}
    (hmark : ¬ Text.startsWith Text.byteOrderMark (b :: rest)) :
    OffMark (tokenOfHead b rest).2 (b :: rest) := by
  generalize hr : tokenOfHead b rest = r
  cases tokenOfHead_cases hr with
  | punctuator | unknown => exact offMark_one hmark
  | ellipsis hdots =>
      obtain ⟨behind, hbehind⟩ := List.isPrefixOf_iff_prefix.1 hdots
      have hascii : ∀ c ∈ Text.ofString "...", c < 0x80 := ascii_of_all (by decide)
      rw [← hbehind]
      exact offMark_append_of_ascii hascii behind
  | name hname => exact offMark_name hname rest
  | string hquote =>
      rw [hquote]
      exact offMark_stringLength rest
  | number => exact offMark_numberLexeme hmark

end Token

/-- What is passed over ends outside of byte order marks. -/
theorem Ignored.offMark {behind item : Text} (h : Ignored behind item) :
    OffMark item.length (item ++ behind) := by
  cases h with
  | @blank _ b hb =>
      have hblanks : ∀ c ∈ [(0x20 : UInt8), 0x09, 0x0D, 0x0A, 0x2C], c < 0x80 := ascii_of_all rfl
      exact offMark_append_of_ascii (List.forall_mem_singleton.2 (hblanks b hb)) behind
  | mark => exact offMark_mark behind
  | @comment _ body b hbody hb =>
      have hends : ∀ c ∈ [(0x0A : UInt8), 0x0D], c < 0x80 := ascii_of_all rfl
      refine offMark_append fun a ha _ _ => .inl ?_
      rw [← List.cons_append, List.getLast?_concat] at ha
      cases ha
      exact hends b hb
  | lastComment hbody =>
      refine offMark_append fun a _ b hb => ?_
      cases hb

/-! ## Where tokens begin -/

/-- What begins behind a lexeme that ends outside of byte order marks, seen from the beginning of
the lexeme. -/
theorem exists_offMark_cons {n start offset : Nat} {b : UInt8} {rest : Text}
    (hn : OffMark (n + 1) (b :: rest))
    (h : ∃ i, n ≤ i ∧ start = offset + 1 + i ∧ OffMark i rest) :
    ∃ i, n + 1 ≤ i ∧ start = offset + i ∧ OffMark i (b :: rest) := by
  obtain ⟨i, hle, hstart, hi⟩ := h
  refine ⟨i + 1, Nat.succ_le_succ hle, by omega, hi.cons fun hmark => ?_⟩
  have hend := hn 0 (Nat.succ_pos n) hmark
  omega

/-- A token begins outside of byte order marks. The bytes of a lexeme already met are passed over
first. -/
theorem Token.Splits.exists_offMark {skip offset : Nat} {text : Text} {ts : List Token} {t : Token}
    (h : Splits skip offset text ts) (hskip : OffMark skip text) (ht : t ∈ ts) :
    ∃ i, skip ≤ i ∧ t.start = offset + i ∧ OffMark i text := by
  induction h with
  | ended => cases ht
  | inside _ ih => exact exists_offMark_cons hskip (ih hskip.tail ht)
  | ignored hhead _ ih =>
      obtain ⟨item, behind, rfl, rfl, hitem⟩ := exists_ignored_of_ofHead hhead
      obtain ⟨i, -, hi⟩ := exists_offMark_cons hitem.offMark (ih hitem.offMark.tail ht)
      exact ⟨i, Nat.zero_le i, hi⟩
  | @token offset b rest kind length ts hhead _ ih =>
      rcases List.mem_cons.1 ht with rfl | hlater
      · exact ⟨0, Nat.le_refl 0, rfl, Position.offMark_zero _⟩
      · obtain ⟨-, -, hmark, htoken⟩ := ofHead_eq_token_iff.1 hhead
        have hoff := offMark_tokenOfHead hmark
        have hpos := tokenOfHead_pos b rest
        rw [htoken] at hoff hpos
        obtain ⟨m, rfl⟩ := Nat.exists_eq_add_of_lt hpos
        rw [Nat.zero_add] at hoff ih
        obtain ⟨i, -, hi⟩ := exists_offMark_cons hoff (ih hoff.tail hlater)
        exact ⟨i, Nat.zero_le i, hi⟩

/-- Whatever comes behind the beginning of a token has a later position. -/
theorem ofOffset_start_lt {text : Text} {t : Token} (ht : t ∈ lex text) {j : Nat}
    (hj : t.start < j) : Position.ofOffset text t.start < Position.ofOffset text j := by
  have hsplits := Token.splits_lexFrom 0 0 text
  obtain ⟨i, b, rest, length, hdrop, hstart, hhead, -⟩ := hsplits.exists_head ht
  obtain ⟨i', -, hstart', hoff⟩ := hsplits.exists_offMark (Position.offMark_zero text) ht
  obtain rfl : i = i' := by omega
  obtain ⟨hblank, -, hmark, -⟩ := Token.ofHead_eq_token_iff.1 hhead
  have hreturn : b ≠ 0x0D := by
    rintro rfl
    exact absurd rfl hblank
  rw [Nat.zero_add] at hstart
  rw [hstart] at hj ⊢
  exact Position.ofOffset_lt_of_offMark hj hoff hdrop hmark hreturn

namespace Position

theorem one_le_advance (skip : Nat) {p : Position} (hp : 1 ≤ p.line ∧ 1 ≤ p.column) (count : Nat)
    (text : Text) :
    1 ≤ (advance skip p count text).line ∧ 1 ≤ (advance skip p count text).column := by
  fun_induction advance skip p count text with
  | case1 => exact hp
  | case2 => exact hp
  | case3 skip p count b rest ih => exact ih hp
  | case4 p count b rest _ ih => exact ih hp
  | case5 p count b rest _ _ ih => exact ih hp
  | case6 p count b rest _ _ _ ih => exact ih ⟨Nat.le_succ_of_le hp.1, Nat.le_refl 1⟩
  | case7 p count b rest _ _ _ ih => exact ih ⟨hp.1, Nat.le_succ_of_le hp.2⟩

/-- Positions grow with offsets, from `1:1` at the beginning and before it to the position of the end
and behind it. From the beginning of a token they grow strictly, so no two tokens have the same
position. -/
theorem ofInt_mono_lt_of_mem_lex (text : Text) :
    (∀ p q : Int, p ≤ q → ofInt text p ≤ ofInt text q) ∧
      (∀ p : Int, 1 ≤ (ofInt text p).line ∧ 1 ≤ (ofInt text p).column) ∧
      (∀ p : Int, p ≤ 0 → ofInt text p = ⟨1, 1⟩) ∧
      (∀ p : Int, text.length ≤ p → ofInt text p = ofInt text text.length) ∧
      (∀ t ∈ lex text, ∀ q : Int, t.start < q → ofInt text t.start < ofInt text q) ∧
      (lex text).Pairwise fun t u => ofInt text t.start ≠ ofInt text u.start := by
  have hstrict : ∀ t ∈ lex text, ∀ q : Int, t.start < q → ofInt text t.start < ofInt text q :=
    fun t ht q hq => ofOffset_start_lt ht (by omega)
  refine ⟨?_, ?_, ?_, ?_, hstrict, ?_⟩
  · exact fun p q hpq => advance_mono 0 start (Int.toNat_le_toNat hpq) text
  · exact fun p => one_le_advance 0 ⟨Nat.le_refl 1, Nat.le_refl 1⟩ p.toNat text
  · intro p hp
    rw [ofInt, Int.toNat_of_nonpos hp, ofOffset_zero, start]
  · intro p hp
    rw [ofInt, ofInt, ofOffset, ofOffset, Int.toNat_natCast]
    exact advance_of_length_le 0 start (by omega)
  · refine (lexed_lex text).increasing.imp_of_mem fun {t u} ht _ hlt heq => ?_
    have hpositions := hstrict t ht u.start (by omega)
    rw [heq] at hpositions
    exact lt_irrefl _ hpositions

/-- A byte order mark, the first two bytes of another one, and a string with a third one in it. -/
def markedText : Text :=
  [0xEF, 0xBB, 0xBF, 0xEF, 0xBB, 0x22, 0xEF, 0xBB, 0xBF, 0x22, 0x0D, 0x0A, 0x61]

theorem ofInt_mono_lt_of_mem_lex_markedText :
    ⟨.unknown, [0xBB], 4⟩ ∈ lex markedText ∧ ofInt markedText 4 < ofInt markedText 5 ∧
      ofInt markedText 0 = ofInt markedText 3 ∧ ofInt markedText 12 = ⟨2, 1⟩ := by
  have ht : ⟨.unknown, [0xBB], 4⟩ ∈ lex markedText := by decide +kernel
  exact ⟨ht, (ofInt_mono_lt_of_mem_lex markedText).2.2.2.2.1 _ ht 5 (by decide), by decide,
    by decide⟩

end Position

end SelectionCheck
