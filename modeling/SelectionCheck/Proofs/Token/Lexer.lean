import SelectionCheck.Token.Lexer

/-!
# The tokens of a text

`lexFrom` carries the tokens found and the bytes that belong to a lexeme already met. Both can be
taken out: the tokens found stand in front of those still to come, and the bytes of a lexeme can be
dropped at once. What is left is one equation for each lexeme, which is how the splitting of a text
is meant to be read. `Splits` is the same walk as a relation: what is true of all tokens is proved
by induction on it, with one case for each kind of step.

`Lexed` collects what this says about the tokens themselves: a punctuator has its own spelling, and
offsets grow from token to token.
-/

namespace SelectionCheck

/-- A property of bytes holds of all of them if it holds of the 256 numbers below the bound. -/
theorem forall_byte {p : UInt8 → Prop} (h : ∀ n < 256, p (UInt8.ofNat n)) (b : UInt8) : p b := by
  rw [← UInt8.ofNat_toNat (x := b)]
  exact h b.toNat b.toNat_lt

namespace Token

theorem Kind.spelling_of_ofByte? (b : UInt8) :
    ∀ kind ∈ Kind.ofByte? b, (kind.spelling : Text) = [b] := by
  revert b
  exact forall_byte (by decide +kernel)

/-- A kind with more than one spelling is not told by one byte. -/
theorem ofByte?_ne_of_spelling (kind : Kind) (h : kind.spelling = "") (b : UInt8) :
    Kind.ofByte? b ≠ some kind := by
  intro hkind
  have hspelling := Kind.spelling_of_ofByte? b kind hkind
  rw [h] at hspelling
  cases hspelling

theorem numberLexeme_kind (text : Text) :
    (numberLexeme text).1 ∈ [Kind.unknown, .int, .float] := by
  rw [numberLexeme]
  split
  · simp
  · split <;> simp

theorem spelling_eq_empty_of_numberLexeme (text : Text) :
    (numberLexeme text).1.spelling = "" := by
  have hkinds : ∀ kind ∈ [Kind.unknown, .int, .float], kind.spelling = "" := by decide
  exact hkinds _ (numberLexeme_kind text)

/-- The kinds of token by the byte that they begin with. -/
inductive TokenOfHeadCases (b : UInt8) (rest : Text) : Kind × Nat → Prop
  | punctuator {kind} (hbyte : Kind.ofByte? b = some kind) : TokenOfHeadCases b rest (kind, 1)
  | ellipsis (hdots : Text.startsWith "..." (b :: rest)) : TokenOfHeadCases b rest (.ellipsis, 3)
  | name (hname : isNameStart b = true) :
      TokenOfHeadCases b rest (.name, 1 + Text.runLength isNameByte rest)
  | string (hquote : b = 0x22) : TokenOfHeadCases b rest (.string, stringLength (b :: rest))
  | number (hnumber : (b = Text.byte '-' || Text.isDigit b) = true) :
      TokenOfHeadCases b rest (numberLexeme (b :: rest))
  | unknown : TokenOfHeadCases b rest (.unknown, 1)

theorem tokenOfHead_cases {b : UInt8} {rest : Text} {r : Kind × Nat}
    (h : tokenOfHead b rest = r) : TokenOfHeadCases b rest r := by
  subst h
  fun_cases tokenOfHead b rest with
  | case1 kind hbyte => exact .punctuator hbyte
  | case2 _ hdots => exact .ellipsis hdots
  | case3 _ _ hname => exact .name hname
  | case4 _ _ _ hquote => exact .string hquote
  | case5 _ _ _ _ hnumber => exact .number hnumber
  | case6 => exact .unknown

theorem ofHead_eq_token_iff {b : UInt8} {rest : Text} {kind : Kind} {length : Nat} :
    Lexeme.ofHead b rest = .token kind length ↔
      ¬ isBlank b ∧ b ≠ Text.byte '#' ∧ ¬ Text.startsWith Text.byteOrderMark (b :: rest) ∧
        tokenOfHead b rest = (kind, length) := by
  fun_cases Lexeme.ofHead b rest with
  | case1 hblank => simp [hblank]
  | case2 hblank hcomment => simp [hcomment]
  | case3 hblank hcomment hmark => simp [hmark]
  | case4 hblank hcomment hmark => simp [hblank, hcomment, hmark, Prod.ext_iff]

theorem tokenOfHead_of_ofHead {b : UInt8} {rest : Text} {kind : Kind} {length : Nat}
    (h : Lexeme.ofHead b rest = .token kind length) : tokenOfHead b rest = (kind, length) :=
  (ofHead_eq_token_iff.1 h).2.2.2

/-- A token of a kind with one spelling takes the bytes of that spelling. -/
theorem take_tokenOfHead {b : UInt8} {rest : Text} (h : (tokenOfHead b rest).1.spelling ≠ "") :
    (b :: rest).take (tokenOfHead b rest).2 = (tokenOfHead b rest).1.spelling := by
  generalize hr : tokenOfHead b rest = r at h ⊢
  cases tokenOfHead_cases hr with
  | @punctuator kind hbyte => rw [Kind.spelling_of_ofByte? b kind hbyte]; rfl
  | ellipsis hdots =>
      exact (List.prefix_iff_eq_take.1 (List.isPrefixOf_iff_prefix.1 hdots)).symm
  | number => exact absurd (spelling_eq_empty_of_numberLexeme _) h
  | name | string | unknown => exact absurd rfl h

/-! ## The steps of the splitting -/

/-- The tokens found stand before those still to come. -/
theorem lexFrom_eq_append (skip offset : Nat) (text : Text) (found : List Token) :
    lexFrom skip offset text found = found.reverse ++ lexFrom skip offset text [] := by
  induction text generalizing skip offset found with
  | nil => simp [lexFrom]
  | cons b rest ih =>
      cases skip with
      | succ skip =>
          rw [lexFrom, lexFrom]
          exact ih _ _ _
      | zero =>
          rw [lexFrom, lexFrom]
          cases Lexeme.ofHead b rest with
          | ignored length => exact ih _ _ _
          | token kind length =>
              simp only
              rw [ih, ih _ _ [_]]
              simp

/-- The walk of `lexFrom` as a relation between the text ahead and its tokens. At the head stands a
byte of a lexeme already met, something that is ignored, or a token. -/
inductive Splits : (skip offset : Nat) → Text → List Token → Prop
  | ended {skip offset} : Splits skip offset [] []
  | inside {skip offset b rest ts} (hrest : Splits skip (offset + 1) rest ts) :
      Splits (skip + 1) offset (b :: rest) ts
  | ignored {offset b rest length ts} (hhead : Lexeme.ofHead b rest = .ignored length)
      (hrest : Splits (length - 1) (offset + 1) rest ts) : Splits 0 offset (b :: rest) ts
  | token {offset b rest kind length ts} (hhead : Lexeme.ofHead b rest = .token kind length)
      (hrest : Splits (length - 1) (offset + 1) rest ts) :
      Splits 0 offset (b :: rest) (⟨kind, (b :: rest).take length, offset⟩ :: ts)

theorem splits_lexFrom (skip offset : Nat) (text : Text) :
    Splits skip offset text (lexFrom skip offset text []) := by
  induction text generalizing skip offset with
  | nil =>
      rw [lexFrom]
      exact .ended
  | cons b rest ih =>
      cases skip with
      | succ skip => exact .inside (ih skip (offset + 1))
      | zero =>
          rw [lexFrom]
          cases hhead : Lexeme.ofHead b rest with
          | ignored length => exact .ignored hhead (ih _ _)
          | token kind length =>
              simp only
              rw [lexFrom_eq_append]
              exact .token hhead (ih _ _)

theorem Splits.eq_nil {skip offset : Nat} {text : Text} {ts : List Token}
    (h : Splits skip offset text ts) (hskip : text.length ≤ skip) : ts = [] := by
  induction h with
  | ended => rfl
  | inside _ ih => exact ih (Nat.le_of_succ_le_succ hskip)
  | ignored | token => cases hskip

/-- The bytes of a lexeme already met are passed over. -/
theorem lexFrom_eq_drop (skip offset : Nat) (text : Text) :
    lexFrom skip offset text [] = lexFrom 0 (offset + skip) (text.drop skip) [] := by
  induction skip generalizing offset text with
  | zero => rfl
  | succ skip ih =>
      cases text with
      | nil => simp [lexFrom]
      | cons b rest => rw [lexFrom, ih, List.drop_succ_cons, Nat.add_right_comm, Nat.add_assoc]

theorem lexFrom_of_token {b : UInt8} {rest : Text} {kind : Kind} {length : Nat}
    (h : Lexeme.ofHead b rest = .token kind (length + 1)) (offset : Nat) :
    lexFrom 0 offset (b :: rest) [] = ⟨kind, (b :: rest).take (length + 1), offset⟩ ::
      lexFrom 0 (offset + (length + 1)) ((b :: rest).drop (length + 1)) [] := by
  rw [lexFrom, h]
  simp only
  rw [lexFrom_eq_append, lexFrom_eq_drop, List.drop_succ_cons, Nat.add_assoc, Nat.add_comm 1]
  rfl

end Token

/-- What the splitting of a text says about the tokens it gives. -/
structure Lexed (ts : List Token) : Prop where
  spelled : ∀ t ∈ ts, t.kind.spelling ≠ "" → t.text = t.kind.spelling
  increasing : ts.Pairwise fun t u => t.start < u.start

namespace Lexed

variable {ts us : List Token}

theorem left (h : Lexed (ts ++ us)) : Lexed ts where
  spelled t ht := h.spelled t (List.mem_append_left us ht)
  increasing := (List.pairwise_append.1 h.increasing).1

theorem right (h : Lexed (ts ++ us)) : Lexed us where
  spelled t ht := h.spelled t (List.mem_append_right ts ht)
  increasing := (List.pairwise_append.1 h.increasing).2.1

theorem cons {t : Token} (h : Lexed ts) (ht : t.kind.spelling ≠ "" → t.text = t.kind.spelling)
    (hstart : ∀ u ∈ ts, t.start < u.start) : Lexed (t :: ts) where
  spelled := by simpa using ⟨ht, h.spelled⟩
  increasing := List.pairwise_cons.2 ⟨hstart, h.increasing⟩

end Lexed

namespace Token

/-- The kind that a text begins with decides the bytes of a punctuator. -/
theorem spelled_of_ofHead {b : UInt8} {rest : Text} {kind : Kind} {length : Nat}
    (h : Lexeme.ofHead b rest = .token kind length) (hkind : kind.spelling ≠ "") :
    (b :: rest).take length = kind.spelling := by
  obtain ⟨rfl, rfl⟩ := Prod.mk.inj (tokenOfHead_of_ofHead h)
  exact take_tokenOfHead hkind

/-- The tokens of a text are as they should be, and none begins before the text does. -/
theorem Splits.lexed {skip offset : Nat} {text : Text} {ts : List Token}
    (h : Splits skip offset text ts) : Lexed ts ∧ ∀ t ∈ ts, offset ≤ t.start := by
  induction h with
  | ended => exact ⟨⟨by simp, .nil⟩, by simp⟩
  | inside _ ih | ignored _ _ ih => exact ⟨ih.1, fun t ht => Nat.le_of_succ_le (ih.2 t ht)⟩
  | token hhead _ ih =>
      refine ⟨ih.1.cons (spelled_of_ofHead hhead) ih.2, List.forall_mem_cons.2 ⟨Nat.le_refl _, ?_⟩⟩
      exact fun t ht => Nat.le_of_succ_le (ih.2 t ht)

/-- A token is what the text from its offset on begins with. -/
theorem Splits.exists_head {skip offset : Nat} {text : Text} {ts : List Token} {t : Token}
    (h : Splits skip offset text ts) (ht : t ∈ ts) :
    ∃ i b rest length, text.drop i = b :: rest ∧ t.start = offset + i ∧
      Lexeme.ofHead b rest = .token t.kind length ∧ t.text = (b :: rest).take length := by
  induction h with
  | ended => cases ht
  | inside _ ih | ignored _ _ ih =>
      obtain ⟨i, b, rest, length, hdrop, hstart, hhead⟩ := ih ht
      exact ⟨i + 1, b, rest, length, hdrop, by omega, hhead⟩
  | @token offset b rest kind length ts hhead _ ih =>
      rcases List.mem_cons.1 ht with rfl | ht
      · exact ⟨0, b, rest, length, rfl, rfl, hhead, rfl⟩
      · obtain ⟨i, b, rest, length, hdrop, hstart, hhead⟩ := ih ht
        exact ⟨i + 1, b, rest, length, hdrop, by omega, hhead⟩

theorem exists_head_of_mem_lexFrom {skip offset : Nat} {text : Text} {t : Token}
    (ht : t ∈ lexFrom skip offset text []) :
    ∃ i b rest, text.drop i = b :: rest ∧ t.start = offset + i ∧
      t.kind = (tokenOfHead b rest).1 ∧ t.text = (b :: rest).take (tokenOfHead b rest).2 := by
  obtain ⟨i, b, rest, length, hdrop, hstart, hhead, htext⟩ := (splits_lexFrom _ _ _).exists_head ht
  refine ⟨i, b, rest, hdrop, hstart, ?_⟩
  rw [tokenOfHead_of_ofHead hhead]
  exact ⟨rfl, htext⟩

end Token

theorem lexed_lex (text : Text) : Lexed (lex text) :=
  (Token.splits_lexFrom 0 0 text).lexed.1

/-- The text of a token stands at its offset. -/
theorem exists_append_of_mem_lex {source : Text} {t : Token} (ht : t ∈ lex source) :
    ∃ behind, source.drop t.start = t.text ++ behind := by
  obtain ⟨i, b, rest, hdrop, hstart, -, htext⟩ := Token.exists_head_of_mem_lexFrom ht
  rw [Nat.zero_add] at hstart
  rw [hstart, hdrop, htext]
  exact ⟨_, (List.take_append_drop _ _).symm⟩

/-! ## Names -/

namespace Token

open Text (runLength)

/-- A letter or an underscore, and behind it letters, underscores and digits. -/
def IsName (text : Text) : Prop :=
  ∃ b tail, text = b :: tail ∧ isNameStart b = true ∧ ∀ c ∈ tail, isNameByte c = true

theorem isName_tokenOfHead {b : UInt8} {rest : Text} (h : (tokenOfHead b rest).1 = .name) :
    IsName ((b :: rest).take (tokenOfHead b rest).2) := by
  generalize hr : tokenOfHead b rest = r at h ⊢
  cases tokenOfHead_cases hr with
  | punctuator hbyte => exact absurd (h ▸ hbyte) (ofByte?_ne_of_spelling .name rfl b)
  | name hstart =>
      rw [Nat.add_comm, List.take_succ_cons]
      refine ⟨b, _, rfl, hstart, fun c hc => ?_⟩
      have hrun : rest.take (runLength isNameByte rest) = rest.takeWhile isNameByte :=
        (List.prefix_iff_eq_take.1 (List.takeWhile_prefix isNameByte)).symm
      rw [hrun] at hc
      exact List.all_eq_true.1 List.all_takeWhile c hc
  | number => exact absurd (h ▸ numberLexeme_kind _) (by decide)
  | ellipsis | string | unknown => cases h

theorem isName_of_mem_lex {source : Text} {t : Token} (ht : t ∈ lex source)
    (hkind : t.kind = .name) : IsName t.text := by
  obtain ⟨i, b, rest, -, -, hhead, htext⟩ := exists_head_of_mem_lexFrom ht
  rw [htext]
  exact isName_tokenOfHead (hhead.symm.trans hkind)

/-- What begins with such a byte is a name and nothing else. -/
theorem isNameStart_cases (b : UInt8) : isNameStart b = true →
    isBlank b = false ∧ b ≠ Text.byte '#' ∧ b ≠ 0xEF ∧ b ≠ Text.byte '.' ∧
      Kind.ofByte? b = none := by
  revert b
  exact forall_byte (by decide +kernel)

theorem startsWith_cons_of_ne {a b : UInt8} (h : b ≠ a) {start text : Text} :
    Text.startsWith (a :: start) (b :: text) = false := by
  rw [Text.startsWith, List.isPrefixOf, beq_false_of_ne h.symm, Bool.false_and]

/-- A name in front of a byte that cannot continue it. -/
theorem lexFrom_name {text rest : Text} (h : IsName text)
    (hrest : ∀ b ∈ rest.head?, isNameByte b = false) (offset : Nat) :
    lexFrom 0 offset (text ++ rest) [] =
      ⟨.name, text, offset⟩ :: lexFrom 0 (offset + text.length) rest [] := by
  obtain ⟨b, tail, rfl, hstart, htail⟩ := h
  obtain ⟨hblank, hcomment, hmark, hdot, hbyte⟩ := isNameStart_cases b hstart
  have hrun : runLength isNameByte (tail ++ rest) = tail.length := by
    rw [runLength, List.takeWhile_append_of_pos htail]
    cases rest with
    | nil => simp
    | cons c rest => simp [hrest c rfl]
  have hhead : Lexeme.ofHead b (tail ++ rest) = .token .name (tail.length + 1) := by
    have hmark : Text.startsWith Text.byteOrderMark (b :: (tail ++ rest)) = false :=
      startsWith_cons_of_ne hmark
    have hdots : Text.startsWith "..." (b :: (tail ++ rest)) = false :=
      startsWith_cons_of_ne hdot
    simp [Lexeme.ofHead, tokenOfHead, hblank, hcomment, hmark, hbyte, hdots, hstart, hrun,
      Nat.add_comm]
  rw [List.cons_append, lexFrom_of_token hhead, ← List.cons_append, List.take_left' (by simp),
    List.drop_left' (by simp), List.length_cons]

end Token

end SelectionCheck
