import SelectionCheck.Proofs.Text.Line
import SelectionCheck.Proofs.Token.Separated

/-!
# What stands between tokens

A text is made of its tokens and of what is passed over between them. `Ignored` lists the things
that may be passed over: a blank or a comma, a byte order mark, and a comment with the line end that
closes it, where only a comment that runs to the end of the text may lack its line end. A gap is a
row of such things. `Tiled` says that a text is gaps and tokens in turn, with the offset carried
along, and `Splits.tiled` that splitting a text tiles it: nothing is lost, and nothing is counted
twice.

`lex_tiles` puts the same into offsets. The gaps are told by their seams, the pairs of offsets where
one token ends and the next begins; the beginning and the end of the text count as seams too.
-/

namespace SelectionCheck

open Text (OneLine)

/-- One thing that is passed over between tokens, in front of the text `behind`. -/
inductive Ignored : (behind item : Text) → Prop
  | blank (behind : Text) {b : UInt8} (hb : b ∈ [0x20, 0x09, 0x0D, 0x0A, 0x2C]) :
      Ignored behind [b]
  | mark (behind : Text) : Ignored behind [0xEF, 0xBB, 0xBF]
  | comment (behind : Text) {body : Text} {b : UInt8} (hbody : OneLine body)
      (hb : b ∈ [0x0A, 0x0D]) : Ignored behind (0x23 :: (body ++ [b]))
  | lastComment {body : Text} (hbody : OneLine body) : Ignored [] (0x23 :: body)

/-- A row of things that are passed over, in front of the text `behind`. -/
inductive Gap (behind : Text) : Text → Prop
  | nil : Gap behind []
  | cons {item gap : Text} (hitem : Ignored (gap ++ behind) item) (hgap : Gap behind gap) :
      Gap behind (item ++ gap)

/-- The text that begins at `offset` is gaps and the given tokens in turn. -/
inductive Tiled : (offset : Nat) → List Token → Text → Prop
  | nil {offset : Nat} {gap : Text} (hgap : Gap [] gap) : Tiled offset [] gap
  | cons {offset : Nat} {t : Token} {ts : List Token} {gap rest : Text}
      (hgap : Gap (t.text ++ rest) gap) (htext : t.text ≠ [])
      (hstart : t.start = offset + gap.length) (hrest : Tiled t.stop ts rest) :
      Tiled offset (t :: ts) (gap ++ (t.text ++ rest))

namespace Token

/-! ## The lexeme at the head of a text -/

theorem isLineEnd_iff {b : UInt8} : isLineEnd b = true ↔ b ∈ [0x0A, 0x0D] := by
  simp [isLineEnd]

theorem isBlank_iff {b : UInt8} : isBlank b = true ↔ b ∈ [0x20, 0x09, 0x0D, 0x0A, 0x2C] := by
  simp [isBlank, or_assoc, show Text.byte ',' = 0x2C from rfl]

/-- A comment ends behind the first line end, or where the text ends. -/
theorem commentLength_cases (n : Nat) (text : Text) :
    (∃ body b behind, text = body ++ b :: behind ∧ OneLine body ∧ b ∈ [0x0A, 0x0D] ∧
        commentLength n text = n + body.length + 1) ∨
      (OneLine text ∧ commentLength n text = n + text.length) := by
  induction text generalizing n with
  | nil => exact .inr ⟨Text.oneLine_nil, rfl⟩
  | cons b text ih =>
      rw [commentLength]
      by_cases hb : isLineEnd b = true
      · rw [if_pos hb]
        exact .inl ⟨[], b, text, rfl, Text.oneLine_nil, isLineEnd_iff.1 hb, rfl⟩
      · have hplain : b ≠ 0x0A ∧ b ≠ 0x0D := by simpa [isLineEnd] using hb
        rw [if_neg hb]
        rcases ih (n + 1) with ⟨body, e, behind, rfl, hbody, he, hlength⟩ | ⟨htext, hlength⟩
        · refine .inl ⟨b :: body, e, behind, rfl, Text.oneLine_cons.2 ⟨hplain, hbody⟩, he, ?_⟩
          rw [hlength, List.length_cons]
          omega
        · refine .inr ⟨Text.oneLine_cons.2 ⟨hplain, htext⟩, ?_⟩
          rw [hlength, List.length_cons]
          omega

/-- What is passed over at the head of a text is one of the things that may be. -/
theorem exists_ignored_of_ofHead {b : UInt8} {rest : Text} {n : Nat}
    (h : Lexeme.ofHead b rest = .ignored n) :
    ∃ item behind, rest = item ++ behind ∧ n = item.length + 1 ∧ Ignored behind (b :: item) := by
  revert h
  fun_cases Lexeme.ofHead b rest with
  | case1 hblank =>
      rintro ⟨⟩
      exact ⟨[], rest, rfl, rfl, .blank rest (isBlank_iff.1 hblank)⟩
  | case2 _ hcomment =>
      rintro ⟨⟩
      subst hcomment
      rcases commentLength_cases 1 rest with
        ⟨body, e, behind, rfl, hbody, he, hlength⟩ | ⟨hrest, hlength⟩
      · refine ⟨body ++ [e], behind, by simp, ?_, .comment behind hbody he⟩
        rw [hlength, List.length_append, List.length_singleton]
        omega
      · refine ⟨rest, [], by simp, ?_, .lastComment hrest⟩
        rw [hlength]
        omega
  | case3 _ _ hmark =>
      rintro ⟨⟩
      obtain ⟨behind, hbehind⟩ := List.isPrefixOf_iff_prefix.1 hmark
      obtain ⟨rfl, rfl⟩ := List.cons.inj hbehind
      exact ⟨[0xBB, 0xBF], behind, rfl, rfl, .mark behind⟩
  | case4 => rintro ⟨⟩

theorem stringLength_pos (text : Text) : 0 < stringLength text := by
  rw [stringLength]
  split
  · exact Nat.lt_of_lt_of_le (by decide) (le_blockLength 0 3 0x22 (text.drop 3))
  · exact le_quotedLength 1 (text.drop 1)

theorem numberLexeme_pos (text : Text) : 0 < (numberLexeme text).2 := by
  rw [numberLexeme]
  split
  · exact Nat.one_pos
  · next hwhole =>
      split
      · exact Nat.pos_of_ne_zero hwhole
      · exact Nat.add_pos_left (Nat.add_pos_left (Nat.pos_of_ne_zero hwhole) _) _

/-- A token takes at least its first byte. -/
theorem tokenOfHead_pos (b : UInt8) (rest : Text) : 0 < (tokenOfHead b rest).2 := by
  generalize hr : tokenOfHead b rest = r
  cases tokenOfHead_cases hr with
  | punctuator | unknown => exact Nat.one_pos
  | ellipsis => exact Nat.succ_pos 2
  | name => exact Nat.add_pos_left Nat.one_pos _
  | string => exact stringLength_pos _
  | number => exact numberLexeme_pos _

end Token

/-! ## The whole text -/

namespace Tiled

/-- Something passed over belongs to the first gap behind it. -/
theorem ignored {offset : Nat} {ts : List Token} {item text : Text} (hitem : Ignored text item)
    (h : Tiled (offset + item.length) ts text) : Tiled offset ts (item ++ text) := by
  cases h with
  | nil hgap => exact .nil (.cons (by rwa [List.append_nil]) hgap)
  | @cons _ t ts gap rest hgap htext hstart hrest =>
      rw [← List.append_assoc]
      refine .cons (.cons hitem hgap) htext ?_ hrest
      rw [hstart, List.length_append, Nat.add_assoc]

/-- A token at the head of the text stands behind an empty gap. -/
theorem token {t : Token} {ts : List Token} {rest : Text} (htext : t.text ≠ [])
    (h : Tiled t.stop ts rest) : Tiled t.start (t :: ts) (t.text ++ rest) :=
  .cons .nil htext rfl h

end Tiled

/-- Splitting a text tiles it. Bytes that belong to a lexeme already met are tiled before. -/
theorem Token.Splits.tiled {skip offset : Nat} {text : Text} {ts : List Token}
    (h : Splits skip offset text ts) (hskip : skip ≤ text.length) :
    Tiled (offset + skip) ts (text.drop skip) := by
  induction h with
  | ended =>
      rw [List.drop_nil]
      exact .nil .nil
  | @inside skip offset _ _ _ _ ih =>
      rw [List.drop_succ_cons, Nat.add_comm skip 1, ← Nat.add_assoc]
      exact ih (Nat.le_of_succ_le_succ hskip)
  | ignored hhead _ ih =>
      obtain ⟨item, behind, rfl, rfl, hitem⟩ := exists_ignored_of_ofHead hhead
      have hlength : item.length ≤ (item ++ behind).length := by simp
      have hbehind := ih hlength
      rw [Nat.add_sub_cancel, List.drop_left, Nat.add_assoc, Nat.add_comm 1] at hbehind
      exact Tiled.ignored hitem hbehind
  | @token offset b rest kind length ts hhead _ ih =>
      have hpos := tokenOfHead_pos b rest
      have hle := tokenOfHead_le b rest
      rw [tokenOfHead_of_ofHead hhead] at hpos hle
      obtain ⟨m, rfl⟩ := Nat.exists_eq_add_of_lt hpos
      simp only [Nat.zero_add, Nat.add_sub_cancel] at hle ih ⊢
      have hrest := ih (Nat.le_of_succ_le_succ hle)
      -- The bytes to be passed over are those of the token behind its first one.
      have hstop : stop ⟨kind, (b :: rest).take (m + 1), offset⟩ = offset + 1 + m := by
        rw [stop, List.length_take_of_le hle, Nat.add_comm m, ← Nat.add_assoc]
      rw [← hstop] at hrest
      have htiled := Tiled.token (by simp) hrest
      rw [← List.drop_succ_cons, List.take_append_drop] at htiled
      exact htiled

theorem tiled_lex (text : Text) : Tiled 0 (lex text) text :=
  (Token.splits_lexFrom 0 0 text).tiled (Nat.zero_le text.length)

/-! ## Seams -/

/-- The offsets where the gaps of a text of `size` bytes begin and end: from `offset` to the first
token, from each token to the next, and from the last token to the end. -/
def seams (offset size : Nat) (ts : List Token) : List (Nat × Nat) :=
  (offset :: ts.map Token.stop).zip (ts.map Token.start ++ [size])

theorem seams_nil (offset size : Nat) : seams offset size [] = [(offset, size)] := rfl

theorem seams_cons (offset size : Nat) (t : Token) (ts : List Token) :
    seams offset size (t :: ts) = (offset, t.start) :: seams t.stop size ts := rfl

/-- The part of a text behind an offset, taken apart, gives the part between two offsets. -/
theorem extract_of_drop_eq {text part rest : Text} {offset : Nat}
    (h : text.drop offset = part ++ rest) :
    text.extract offset (offset + part.length) = part ∧
      text.drop (offset + part.length) = rest := by
  constructor
  · rw [List.extract_eq_take_drop, h, Nat.add_sub_cancel_left, List.take_left]
  · rw [← List.drop_drop, h, List.drop_left]

namespace Tiled

variable {text rest : Text} {offset : Nat} {ts : List Token}

theorem length_le (h : Tiled offset ts rest) : ts.length ≤ rest.length := by
  induction h with
  | nil => exact Nat.zero_le _
  | cons _ htext _ _ ih =>
      have hpos := List.length_pos_iff.2 htext
      simp only [List.length_cons, List.length_append]
      omega

/-- The first gap and the first token of a tiled part of a text, by their offsets. -/
theorem head {t : Token} {gap : Text} (hdrop : text.drop offset = gap ++ (t.text ++ rest))
    (hstart : t.start = offset + gap.length) :
    text.extract offset t.start = gap ∧ text.drop t.start = t.text ++ rest ∧
      text.extract t.start t.stop = t.text ∧ text.drop t.stop = rest := by
  obtain ⟨hgap, htoken⟩ := extract_of_drop_eq hdrop
  rw [← hstart] at hgap htoken
  exact ⟨hgap, htoken, extract_of_drop_eq htoken⟩

/-- Tokens are what stands between their offsets, one after the other. -/
theorem tokens (h : Tiled offset ts rest) (hdrop : text.drop offset = rest)
    (hoffset : offset ≤ text.length) :
    (∀ t ∈ ts, offset ≤ t.start ∧ t.text ≠ [] ∧ t.stop ≤ text.length ∧
        text.extract t.start t.stop = t.text) ∧
      ts.Pairwise fun t u => t.stop ≤ u.start := by
  induction h with
  | nil => exact ⟨by simp, .nil⟩
  | @cons offset t ts gap rest _ htext hstart _ ih =>
      obtain ⟨-, htoken, hpart, hrest⟩ := head hdrop hstart
      have hstop : t.stop ≤ text.length := by
        have hlength := congrArg List.length hdrop
        simp only [List.length_drop, List.length_append] at hlength
        rw [Token.stop]
        omega
      obtain ⟨hlater, hpairwise⟩ := ih hrest hstop
      refine ⟨?_, List.pairwise_cons.2 ⟨fun u hu => (hlater u hu).1, hpairwise⟩⟩
      intro u hu
      rcases List.mem_cons.1 hu with rfl | hu
      · exact ⟨by omega, htext, hstop, hpart⟩
      · have hstart' : t.start ≤ t.stop := Nat.le_add_right _ _
        have hbegin := (hlater u hu).1
        exact ⟨by omega, (hlater u hu).2⟩

/-- What stands between two neighbouring tokens is a gap. -/
theorem gaps (h : Tiled offset ts rest) (hdrop : text.drop offset = rest) :
    ∀ seam ∈ seams offset text.length ts,
      Gap (text.drop seam.2) (text.extract seam.1 seam.2) := by
  induction h with
  | @nil offset gap hgap =>
      rw [seams_nil, List.forall_mem_singleton]
      show Gap (text.drop text.length) (text.extract offset text.length)
      rw [List.drop_length, List.extract_eq_take_drop, List.take_of_length_le, hdrop]
      · exact hgap
      · exact Nat.le_of_eq List.length_drop
  | @cons offset t ts gap rest hgap _ hstart _ ih =>
      obtain ⟨hbefore, htoken, -, hrest⟩ := head hdrop hstart
      rw [seams_cons, List.forall_mem_cons]
      refine ⟨?_, ih hrest⟩
      show Gap (text.drop t.start) (text.extract offset t.start)
      rw [hbefore, htoken]
      exact hgap

end Tiled

/-- Splitting a text loses nothing: there are no more tokens than bytes, every token is the
non-empty part of the text between its offsets, tokens do not overlap, and all the rest are gaps. -/
theorem lex_tiles (text : Text) :
    (lex text).length ≤ text.length ∧
      (∀ t ∈ lex text, t.text ≠ [] ∧ t.stop ≤ text.length ∧
        text.extract t.start t.stop = t.text) ∧
      ((lex text).Pairwise fun t u => t.stop ≤ u.start) ∧
      ∀ seam ∈ seams 0 text.length (lex text),
        Gap (text.drop seam.2) (text.extract seam.1 seam.2) := by
  have htiled := tiled_lex text
  obtain ⟨htokens, hpairwise⟩ := htiled.tokens List.drop_zero (Nat.zero_le _)
  exact ⟨htiled.length_le, fun t ht => (htokens t ht).2, hpairwise, htiled.gaps List.drop_zero⟩

end SelectionCheck
