import SelectionCheck.Proofs.Token.Separated

/-!
# Strings between single quotes

Two walks go over a quoted string: the scanner, which finds its end, and the search for its faults.
Each passes over escapes in its own way, so it has to be shown that they cut the string alike. The
measure for both is `strokes`, which reads a text from left to right as plain bytes and pairs of a
backslash with the byte behind it.

`QuotedRun` is what the scanner can take behind the opening quote: no plain line feed, and a plain
quote at the end only. From it and from `quotedFaults_eq` follows that the faults are those of the
malformed escapes, in order, and one more if the last stroke is no quote. `QuotedContent` is the
grammar of what stands between the quotes of a string without faults.
-/

namespace SelectionCheck

namespace Token

open Text (byte)

/-! ## Strokes -/

/-- One step in reading a string: a plain byte, or a backslash with the byte behind it. -/
inductive Stroke
  | plain (b : UInt8)
  | pair (e : UInt8)
deriving DecidableEq, Repr

def Stroke.text : Stroke → Text
  | .plain b => [b]
  | .pair e => [0x5C, e]

/-- A text from left to right as plain bytes and pairs. A backslash at its end is plain. -/
def strokes : Text → List Stroke
  | [] => []
  | [b] => [.plain b]
  | b :: e :: rest =>
    if b = 0x5C then .pair e :: strokes rest else .plain b :: strokes (e :: rest)

theorem strokes_pair (e : UInt8) (rest : Text) :
    strokes (0x5C :: e :: rest) = .pair e :: strokes rest := by
  rw [strokes, if_pos rfl]

theorem strokes_plain {b : UInt8} (hb : b ≠ 0x5C) (rest : Text) :
    strokes (b :: rest) = .plain b :: strokes rest := by
  cases rest with
  | nil => rfl
  | cons e rest => rw [strokes, if_neg hb]

/-- The strokes of a text are the whole of it. -/
theorem flatMap_text_strokes (text : Text) : (strokes text).flatMap Stroke.text = text := by
  fun_induction strokes text with
  | case1 => rfl
  | case2 b => rfl
  | case3 e rest ih => rw [List.flatMap_cons, ih]; rfl
  | case4 b e rest hb ih => rw [List.flatMap_cons, ih]; rfl

/-! ## Escapes -/

/-- An escape in a text: the offset of its backslash, the byte behind the backslash, and the text
behind the two. -/
structure Escape where
  offset : Nat
  byte : UInt8
  behind : Text
deriving DecidableEq, Repr

/-- The escapes among the strokes of a text that begins at `offset`. -/
def escapes : (offset : Nat) → List Stroke → List Escape
  | _, [] => []
  | offset, .plain _ :: rest => escapes (offset + 1) rest
  | offset, .pair e :: rest => ⟨offset, e, rest.flatMap Stroke.text⟩ :: escapes (offset + 2) rest

namespace Escape

/-- The byte behind the backslash stands for a character by itself, or is a `u` with four
hexadecimal digits behind it. -/
def WellFormed (x : Escape) : Prop :=
  x.byte ∈ [0x22, 0x5C, 0x2F, 0x62, 0x66, 0x6E, 0x72, 0x74] ∨
    x.byte = 0x75 ∧ 4 ≤ x.behind.length ∧ ∀ d ∈ x.behind.take 4, Text.isHexDigit d = true

instance (x : Escape) : Decidable x.WellFormed :=
  have := List.decidableBAll (fun d => Text.isHexDigit d = true) (x.behind.take 4)
  inferInstanceAs (Decidable (_ ∨ _ ∧ _ ∧ _))

def fault (x : Escape) : Nat × StringFault :=
  (x.offset, if x.byte = 0x75 then .unicodeEscape else .escape x.byte)

end Escape

/-- The malformed escapes of a quoted string, with offsets from its opening quote. -/
def malformedEscapes (text : Text) : List Escape :=
  (escapes 1 (strokes (text.drop 1))).filter fun x => ¬ x.WellFormed

/-- The last stroke behind the opening quote is a plain quote. -/
def EndsWithQuote (text : Text) : Prop :=
  (strokes (text.drop 1)).getLast? = some (.plain 0x22)

instance (text : Text) : Decidable (EndsWithQuote text) :=
  inferInstanceAs (Decidable (_ = _))

theorem isSimpleEscape_iff (e : UInt8) :
    isSimpleEscape e = true ↔ e ∈ [0x22, 0x5C, 0x2F, 0x62, 0x66, 0x6E, 0x72, 0x74] := by
  revert e
  exact forall_byte (by decide +kernel)

theorem beginsWithFourHex_iff (text : Text) :
    beginsWithFourHex text = true ↔
      4 ≤ text.length ∧ ∀ d ∈ text.take 4, Text.isHexDigit d = true := by
  rw [beginsWithFourHex, Bool.and_eq_true, List.all_eq_true, decide_eq_true_iff, List.length_take]
  exact and_congr_left fun _ => by omega

/-- An escape is well formed if and only if no fault is found in it. -/
theorem escapeFault?_eq (x : Escape) :
    escapeFault? x.byte x.behind = if x.WellFormed then none else some x.fault.2 := by
  have hiff : x.WellFormed ↔ isSimpleEscape x.byte = true ∨
      x.byte = 0x75 ∧ beginsWithFourHex x.behind = true := by
    rw [isSimpleEscape_iff, beginsWithFourHex_iff, Escape.WellFormed]
  have hbyte : byte 'u' = 0x75 := rfl
  rw [escapeFault?, hbyte]
  by_cases hsimple : isSimpleEscape x.byte = true
  · rw [if_pos hsimple, if_pos (hiff.2 (.inl hsimple))]
  · rw [if_neg hsimple]
    by_cases hu : x.byte = 0x75
    · rw [if_pos hu]
      by_cases hhex : beginsWithFourHex x.behind = true
      · rw [if_pos hhex, if_pos (hiff.2 (.inr ⟨hu, hhex⟩))]
      · rw [if_neg hhex, if_neg (by simp [hiff, hsimple, hhex]), Escape.fault, if_pos hu]
    · rw [if_neg hu, if_neg (by simp [hiff, hsimple, hu]), Escape.fault, if_neg hu]

/-- The search for faults, read off the strokes: malformed escapes first, and at the end the missing
quote. -/
theorem quotedFaults_eq (closed : Bool) (offset : Nat) (text : Text) :
    quotedFaults closed offset text =
      ((escapes offset (strokes text)).filter fun x => ¬ x.WellFormed).map Escape.fault ++
        if closed = true ∨ .plain 0x22 ∈ strokes text then [] else [(0, .unterminated)] := by
  have hbyte : byte '\\' = 0x5C := rfl
  fun_induction quotedFaults closed offset text with
  | case1 => simp [strokes, escapes]
  | case2 => simp_all [strokes, escapes]
  | case3 closed offset rest ih =>
      rw [ih, strokes_plain (by decide), escapes]
      simp
  | case4 => simp [strokes, escapes]
  | case5 => simp_all [strokes, escapes]
  | case6 closed offset e rest hfault _ ih =>
      have hx : (Escape.mk offset e rest).WellFormed := by
        simpa [hfault] using escapeFault?_eq ⟨offset, e, rest⟩
      rw [ih, hbyte, strokes_pair, escapes, flatMap_text_strokes]
      simp [hx]
  | case7 closed offset e rest fault hfault _ ih =>
      obtain ⟨hx, rfl⟩ : ¬ (Escape.mk offset e rest).WellFormed ∧
          fault = (Escape.mk offset e rest).fault.2 := by
        simpa [hfault] using escapeFault?_eq ⟨offset, e, rest⟩
      rw [ih, hbyte, strokes_pair, escapes, flatMap_text_strokes]
      simp [hx, Escape.fault]
  | case8 closed offset b rest hquote hbackslash ih =>
      rw [ih, strokes_plain hbackslash, escapes]
      simp [Ne.symm hquote]

/-- An escape stands where its offset says. -/
theorem drop_of_mem_escapes {offset : Nat} {text : Text} {x : Escape}
    (hx : x ∈ escapes offset (strokes text)) :
    ∃ i, x.offset = offset + i ∧ text.drop i = 0x5C :: x.byte :: x.behind := by
  fun_induction strokes text generalizing offset with
  | case1 => cases hx
  | case2 b => cases hx
  | case3 e rest ih =>
      rw [escapes, flatMap_text_strokes] at hx
      rcases List.mem_cons.1 hx with rfl | hx
      · exact ⟨0, rfl, rfl⟩
      · obtain ⟨i, hoffset, hdrop⟩ := ih hx
        exact ⟨i + 2, by omega, hdrop⟩
  | case4 b e rest hb ih =>
      obtain ⟨i, hoffset, hdrop⟩ := ih hx
      exact ⟨i + 1, by omega, hdrop⟩

/-! ## What the scanner takes -/

/-- What the scanner can take behind the opening quote of a string. -/
inductive QuotedRun : Text → Prop
  | stop : QuotedRun []
  | lone : QuotedRun [0x5C]
  | close : QuotedRun [0x22]
  | plain {b : UInt8} {rest : Text} (hb : b ≠ 0x5C ∧ b ≠ 0x0A ∧ b ≠ 0x22) (h : QuotedRun rest) :
      QuotedRun (b :: rest)
  | pair (e : UInt8) {rest : Text} (h : QuotedRun rest) : QuotedRun (0x5C :: e :: rest)

theorem quotedLength_sub (n k : Nat) (text : Text) :
    quotedLength (n + k) text - n = quotedLength (n + k) text - (n + k) + k := by
  have hle := le_quotedLength (n + k) text
  omega

theorem quotedRun_take (n : Nat) (text : Text) :
    QuotedRun (text.take (quotedLength n text - n)) := by
  fun_induction quotedLength n text with
  | case1 n =>
      rw [List.take_nil]
      exact .stop
  | case2 n =>
      rw [Nat.add_sub_cancel_left]
      exact .lone
  | case3 n e text ih =>
      rw [quotedLength_sub]
      exact .pair e ih
  | case4 n text =>
      rw [Nat.sub_self]
      exact .stop
  | case5 n text =>
      rw [Nat.add_sub_cancel_left]
      exact .close
  | case6 n b text hescape hfeed hquote ih =>
      rw [quotedLength_sub]
      exact .plain ⟨hescape, hfeed, hquote⟩ ih

theorem getLast?_cons_of_ne {s q : Stroke} (h : s ≠ q) (rest : List Stroke) :
    (s :: rest).getLast? = some q ↔ rest.getLast? = some q := by
  cases rest with
  | nil => simp [h]
  | cons r rest => rw [List.getLast?_cons_cons]

/-- A plain quote in what the scanner takes is the last stroke. -/
theorem QuotedRun.quote_mem_iff {content : Text} (h : QuotedRun content) :
    .plain 0x22 ∈ strokes content ↔ (strokes content).getLast? = some (.plain 0x22) := by
  induction h with
  | stop => simp [strokes]
  | lone => simp [strokes]
  | close => simp [strokes]
  | @plain b rest hb _ ih =>
      have hne : Stroke.plain b ≠ .plain 0x22 := fun heq => hb.2.2 (Stroke.plain.inj heq)
      rw [strokes_plain hb.1, List.mem_cons, getLast?_cons_of_ne hne, or_iff_right hne.symm, ih]
  | pair e _ ih =>
      have hne : Stroke.pair e ≠ .plain 0x22 := nofun
      rw [strokes_pair, List.mem_cons, getLast?_cons_of_ne hne, or_iff_right hne.symm, ih]

theorem tokenOfHead_of_string {b : UInt8} {rest : Text} (h : (tokenOfHead b rest).1 = .string) :
    b = 0x22 ∧ (tokenOfHead b rest).2 = stringLength (b :: rest) := by
  generalize hr : tokenOfHead b rest = r at h ⊢
  cases tokenOfHead_cases hr with
  | punctuator hbyte => exact absurd (h ▸ hbyte) (ofByte?_ne_of_spelling .string rfl b)
  | string hquote => exact ⟨hquote, rfl⟩
  | number => exact absurd (h ▸ numberLexeme_kind _) (by decide)
  | ellipsis | name | unknown => cases h

/-- A string begins with three quotes if the text from its offset on does. -/
theorem startsWith_take_stringLength (text : Text) :
    Text.startsWith blockQuotes (text.take (stringLength text)) =
      Text.startsWith blockQuotes text := by
  rw [Bool.eq_iff_iff, Text.startsWith, Text.startsWith, List.isPrefixOf_iff_prefix,
    List.isPrefixOf_iff_prefix]
  constructor
  · exact fun h => h.trans (List.take_prefix _ _)
  · intro h
    have hblock : Text.startsWith blockQuotes text = true := List.isPrefixOf_iff_prefix.2 h
    apply List.prefix_of_prefix_length_le h (List.take_prefix _ _)
    have hle := le_blockLength 0 3 0x22 (text.drop 3)
    have hlength := h.length_le
    rw [List.length_take, stringLength, if_pos hblock]
    exact Nat.le_min.2 ⟨hle, hlength⟩

end Token

/-- A string token is what the text from its offset on begins with. -/
theorem exists_string_of_mem_lex {source : Text} {t : Token} (ht : t ∈ lex source)
    (hkind : t.kind = .string) :
    ∃ rest, source.drop t.start = 0x22 :: rest ∧
      t.text = (0x22 :: rest).take (Token.stringLength (0x22 :: rest)) ∧
      Text.startsWith Token.blockQuotes t.text =
        Text.startsWith Token.blockQuotes (0x22 :: rest) := by
  obtain ⟨i, b, rest, hdrop, hstart, hhead, htext⟩ := Token.exists_head_of_mem_lexFrom ht
  obtain ⟨rfl, hlength⟩ := Token.tokenOfHead_of_string (hhead ▸ hkind)
  rw [Nat.zero_add] at hstart
  rw [hlength] at htext
  exact ⟨rest, hstart ▸ hdrop, htext, htext ▸ Token.startsWith_take_stringLength _⟩

/-- A string that does not begin with three quotes is an opening quote and a run of the scanner. -/
theorem quotedRun_of_mem_lex {source : Text} {t : Token} (ht : t ∈ lex source)
    (hkind : t.kind = .string) (hquoted : Text.startsWith Token.blockQuotes t.text = false) :
    ∃ content, t.text = 0x22 :: content ∧ Token.QuotedRun content := by
  obtain ⟨rest, -, htext, hblock⟩ := exists_string_of_mem_lex ht hkind
  have hlength : Token.stringLength (0x22 :: rest) = Token.quotedLength 1 rest - 1 + 1 := by
    rw [Token.stringLength, ← hblock, hquoted]
    exact (Nat.sub_add_cancel (Token.le_quotedLength 1 rest)).symm
  rw [hlength, List.take_succ_cons] at htext
  exact ⟨_, htext, Token.quotedRun_take 1 rest⟩

/-! ## The grammar of strings -/

namespace Token

/-- What may stand between the quotes of a string. -/
inductive QuotedContent : Text → Prop
  | nil : QuotedContent []
  | plain {b : UInt8} {rest : Text} (hb : b ≠ 0x22 ∧ b ≠ 0x5C ∧ b ≠ 0x0A)
      (h : QuotedContent rest) : QuotedContent (b :: rest)
  | escape {e : UInt8} {rest : Text} (he : e ∈ [0x22, 0x5C, 0x2F, 0x62, 0x66, 0x6E, 0x72, 0x74])
      (h : QuotedContent rest) : QuotedContent (0x5C :: e :: rest)
  | unicode {digits rest : Text} (hlength : digits.length = 4)
      (hdigits : ∀ d ∈ digits, Text.isHexDigit d = true) (h : QuotedContent rest) :
      QuotedContent (0x5C :: 0x75 :: (digits ++ rest))

theorem plain_of_isHexDigit (d : UInt8) :
    Text.isHexDigit d = true → d ≠ 0x22 ∧ d ≠ 0x5C ∧ d ≠ 0x0A := by
  revert d
  exact forall_byte (by decide +kernel)

theorem quotedFaults_pair_eq_nil_iff (closed : Bool) (offset : Nat) (e : UInt8) (rest : Text) :
    quotedFaults closed offset (0x5C :: e :: rest) = [] ↔
      (Escape.mk offset e rest).WellFormed ∧ quotedFaults closed (offset + 2) rest = [] := by
  rw [quotedFaults_eq, quotedFaults_eq, strokes_pair, escapes, flatMap_text_strokes]
  by_cases hx : (Escape.mk offset e rest).WellFormed
  · simp [hx]
  · simp [hx]

theorem quotedFaults_digits {digits : Text} (h : ∀ d ∈ digits, Text.isHexDigit d = true)
    (closed : Bool) (offset : Nat) (rest : Text) :
    quotedFaults closed offset (digits ++ rest) =
      quotedFaults closed (offset + digits.length) rest := by
  induction digits generalizing offset with
  | nil => rfl
  | cons d digits ih =>
      obtain ⟨hd, hdigits⟩ := List.forall_mem_cons.1 h
      obtain ⟨hquote, hescape, -⟩ := plain_of_isHexDigit d hd
      rw [List.cons_append, quotedFaults_plain hescape hquote, ih hdigits, List.length_cons,
        Nat.add_assoc, Nat.add_comm 1]

namespace QuotedContent

theorem of_digit_cons {d : UInt8} {rest : Text} (hd : Text.isHexDigit d = true)
    (h : QuotedContent (d :: rest)) : QuotedContent rest := by
  cases h with
  | plain _ h => exact h
  | escape => exact absurd rfl (plain_of_isHexDigit 0x5C hd).2.1
  | unicode => exact absurd rfl (plain_of_isHexDigit 0x5C hd).2.1

/-- Digits at the front of a content can be taken away. -/
theorem of_digits_append {digits rest : Text} (hdigits : ∀ d ∈ digits, Text.isHexDigit d = true)
    (h : QuotedContent (digits ++ rest)) : QuotedContent rest := by
  induction digits with
  | nil => exact h
  | cons d digits ih =>
      obtain ⟨hd, hdigits⟩ := List.forall_mem_cons.1 hdigits
      exact ih hdigits (of_digit_cons hd h)

theorem quotedFaults_eq_nil {content : Text} (h : QuotedContent content) (offset : Nat) :
    quotedFaults false offset (content ++ [0x22]) = [] := by
  induction h generalizing offset with
  | nil => rfl
  | plain hb _ ih => rw [List.cons_append, quotedFaults_plain hb.2.1 hb.1, ih]
  | escape he _ ih => exact (quotedFaults_pair_eq_nil_iff _ _ _ _).2 ⟨.inl he, ih _⟩
  | @unicode digits rest hlength hdigits _ ih =>
      refine (quotedFaults_pair_eq_nil_iff _ _ _ _).2 ⟨.inr ⟨rfl, ?_, ?_⟩, ?_⟩
      · simp only [List.append_eq, List.length_append]
        omega
      · rw [List.append_eq, List.append_assoc, ← hlength, List.take_left]
        exact hdigits
      · rw [List.append_eq, List.append_assoc, quotedFaults_digits hdigits, ih]

end QuotedContent

/-- Four digits in front of a closing quote are digits of the content. -/
theorem exists_digits_append {content : Text}
    (hdigits : ∀ d ∈ (content ++ [0x22]).take 4, Text.isHexDigit d = true) :
    ∃ digits rest, content = digits ++ rest ∧ digits.length = 4 ∧
      ∀ d ∈ digits, Text.isHexDigit d = true := by
  have hfour : 4 ≤ content.length := by
    apply Nat.le_of_not_lt
    intro hlt
    have hall : (content ++ [0x22]).length ≤ 4 := by
      rw [List.length_append, List.length_singleton]
      omega
    rw [List.take_of_length_le hall] at hdigits
    exact absurd (hdigits 0x22 (by simp)) (by decide)
  rw [List.take_append_of_le_length hfour] at hdigits
  exact ⟨content.take 4, content.drop 4, (List.take_append_drop 4 content).symm,
    List.length_take_of_le hfour, hdigits⟩

/-- What the scanner takes, if it has no fault, is a content and a closing quote. -/
theorem QuotedRun.exists_content {run : Text} (h : QuotedRun run) {offset : Nat}
    (hfaults : quotedFaults false offset run = []) :
    ∃ content, QuotedContent content ∧ run = content ++ [0x22] := by
  induction h generalizing offset with
  | stop => cases hfaults
  | lone => cases hfaults
  | close => exact ⟨[], .nil, rfl⟩
  | @plain b rest hb _ ih =>
      rw [quotedFaults_plain hb.1 hb.2.2] at hfaults
      obtain ⟨content, hcontent, rfl⟩ := ih hfaults
      exact ⟨b :: content, .plain ⟨hb.2.2, hb.1, hb.2.1⟩ hcontent, rfl⟩
  | @pair e rest _ ih =>
      obtain ⟨hescape, hrest⟩ := (quotedFaults_pair_eq_nil_iff _ _ _ _).1 hfaults
      obtain ⟨content, hcontent, rfl⟩ := ih hrest
      rcases hescape with hsimple | ⟨rfl, -, hdigits⟩
      · exact ⟨0x5C :: e :: content, .escape hsimple hcontent, rfl⟩
      · -- The scanner took the digits for plain bytes; the grammar has them in the escape.
        obtain ⟨digits, rest, rfl, hfour, hhex⟩ := exists_digits_append hdigits
        exact ⟨_, .unicode hfour hhex (hcontent.of_digits_append hhex), rfl⟩

theorem stringFaults_cons {run : Text}
    (hquoted : Text.startsWith blockQuotes (0x22 :: run) = false) :
    stringFaults (0x22 :: run) = quotedFaults false 1 run := by
  rw [stringFaults, hquoted]
  rfl

end Token

/-- A quoted string without faults follows the grammar. -/
theorem exists_content_of_mem_lex {source : Text} {t : Token} (ht : t ∈ lex source)
    (hkind : t.kind = .string) (hquoted : Text.startsWith Token.blockQuotes t.text = false)
    (hfaults : Token.stringFaults t.text = []) :
    ∃ content, Token.QuotedContent content ∧ t.text = 0x22 :: (content ++ [0x22]) := by
  obtain ⟨run, htext, hrun⟩ := quotedRun_of_mem_lex ht hkind hquoted
  rw [htext] at hquoted hfaults ⊢
  rw [Token.stringFaults_cons hquoted] at hfaults
  obtain ⟨content, hcontent, rfl⟩ := hrun.exists_content hfaults
  exact ⟨content, hcontent, rfl⟩

open Token in
/-- The faults of a quoted string are its malformed escapes, each at its backslash and in order, and
then the missing quote. There are none if and only if the string follows the grammar. -/
theorem stringFaults_eq_malformedEscapes {source : Text} {t : Token} (ht : t ∈ lex source)
    (hkind : t.kind = .string) (hquoted : Text.startsWith blockQuotes t.text = false) :
    stringFaults t.text = (malformedEscapes t.text).map Escape.fault ++
        (if EndsWithQuote t.text then [] else [(0, .unterminated)]) ∧
      (∀ x ∈ malformedEscapes t.text, t.text.drop x.offset = 0x5C :: x.byte :: x.behind) ∧
      (stringFaults t.text = [] ↔
        ∃ content, QuotedContent content ∧ t.text = 0x22 :: (content ++ [0x22])) := by
  refine ⟨?_, ?_, exists_content_of_mem_lex ht hkind hquoted, ?_⟩
  · obtain ⟨run, htext, hrun⟩ := quotedRun_of_mem_lex ht hkind hquoted
    rw [htext] at hquoted ⊢
    have hends : EndsWithQuote (0x22 :: run) ↔ .plain 0x22 ∈ strokes run := hrun.quote_mem_iff.symm
    rw [stringFaults_cons hquoted, quotedFaults_eq]
    simp only [Bool.false_eq_true, false_or, hends]
    rfl
  · intro x hx
    obtain ⟨i, hoffset, hdrop⟩ := drop_of_mem_escapes (List.mem_filter.1 hx).1
    rw [hoffset, ← List.drop_drop, hdrop]
  · rintro ⟨content, hcontent, htext⟩
    rw [htext] at hquoted ⊢
    rw [stringFaults_cons hquoted, hcontent.quotedFaults_eq_nil]

/-- A string with two malformed escapes among others; the quote at its end is escaped. -/
def openString : Text := "\"x\\q\\u00e9\\u12 \\\\\\\""

open Token in
theorem stringFaults_openString :
    ∃ t ∈ lex ("a: " ++ openString), t.kind = .string ∧
      Text.startsWith blockQuotes t.text = false ∧ t.text = openString ∧
      malformedEscapes openString =
        [⟨2, 0x71, openString.drop 4⟩, ⟨10, 0x75, openString.drop 12⟩] ∧
      stringFaults openString = [(2, .escape 0x71), (10, .unicodeEscape), (0, .unterminated)] := by
  have ht : ⟨.string, openString, 3⟩ ∈ lex ("a: " ++ openString) := by decide +kernel
  obtain ⟨hfaults, -, -⟩ := stringFaults_eq_malformedEscapes ht rfl (by decide +kernel)
  refine ⟨_, ht, rfl, by decide +kernel, rfl, by decide +kernel, hfaults.trans ?_⟩
  decide +kernel

end SelectionCheck
