import SelectionCheck.Proofs.Document.Equivariant
import SelectionCheck.Proofs.Token.Gaps
import SelectionCheck.Proofs.Token.Position

/-!
# Two texts in one

Two texts are joined by a line feed. The tokens of the whole are those of the first text followed by
those of the second, and the positions of the second are counted on from the line that the feed
begins.

A line feed ends every lexeme but two: a string, and a comment, to which it belongs. A comment at the
end of the first text swallows the feed and nothing else. A block string would go on into the second
text, so the first must not end with a string. Nothing else looks across the seam: a byte order mark
has no feed in it, and a carriage return before the feed ends the same line.
-/

namespace SelectionCheck

open Placed (relocate)

namespace Token

/-! ## Tokens -/

/-- The tokens are lexical forms of the language, and the last is no string. -/
structure Settled (ts : List Token) : Prop where
  errors : ts.flatMap Token.errors = []
  last : ∀ t ∈ ts.getLast?, t.kind ≠ .string

namespace Settled

variable {t : Token} {ts : List Token} (h : Settled (t :: ts))
include h

theorem errors_head : t.errors = [] := by
  have herrors := h.errors
  rw [List.flatMap_cons] at herrors
  exact (List.append_eq_nil_iff.1 herrors).1

theorem tail : Settled ts := by
  constructor
  · have herrors := h.errors
    rw [List.flatMap_cons] at herrors
    exact (List.append_eq_nil_iff.1 herrors).2
  · intro u hu
    apply h.last u
    cases ts with
    | nil => cases hu
    | cons v ts => exact hu

theorem ne_nil_of_string (hkind : t.kind = .string) : ts ≠ [] := by
  rintro rfl
  exact h.last t rfl hkind

end Settled

/-- A comment ends where it ended before, or with the line feed that was put behind the text. -/
theorem commentLength_append (n : Nat) (text more : Text) :
    (commentLength n text ≤ n + text.length ∧
        commentLength n (text ++ 0x0A :: more) = commentLength n text) ∨
      (commentLength n text = n + text.length ∧
        commentLength n (text ++ 0x0A :: more) = n + text.length + 1) := by
  induction text generalizing n with
  | nil => exact .inr ⟨rfl, rfl⟩
  | cons b text ih =>
      rw [List.cons_append, commentLength, commentLength, List.length_cons]
      by_cases hb : isLineEnd b = true
      · rw [if_pos hb, if_pos hb]
        exact .inl ⟨by omega, rfl⟩
      · rw [if_neg hb, if_neg hb]
        rcases ih (n + 1) with ⟨hle, heq⟩ | ⟨hle, heq⟩
        · exact .inl ⟨by omega, heq⟩
        · exact .inr ⟨by omega, by omega⟩

theorem startsWith_byteOrderMark_append (text more : Text) :
    Text.startsWith Text.byteOrderMark (text ++ 0x0A :: more) =
      Text.startsWith Text.byteOrderMark text :=
  startsWith_append (by decide) (separated_feed more) text

/-- A string token that is not the last of its text closes before the text ends. -/
theorem stringLength_append_of_settled {offset : Nat} {tail more : Text}
    (h : Settled (⟨.string, (0x22 :: tail).take (stringLength (0x22 :: tail)), offset⟩ ::
      lexFrom (stringLength (0x22 :: tail) - 1) (offset + 1) tail [])) :
    stringLength (0x22 :: tail ++ 0x0A :: more) = stringLength (0x22 :: tail) := by
  apply stringLength_append (separated_feed more)
  · simpa [errors] using h.errors_head
  · intro hblock
    obtain ⟨content, hcontent⟩ := startsWith_blockQuotes_iff.1 hblock
    obtain ⟨-, rfl⟩ := List.cons.inj hcontent
    have hlength : stringLength (0x22 :: 0x22 :: 0x22 :: content) = blockLength 0 3 0x22 content :=
      if_pos hblock
    have hrest := h.ne_nil_of_string rfl
    rw [hlength, lexFrom_eq_drop] at hrest
    have hlt : blockLength 0 3 0x22 content < 3 + content.length := by
      by_contra hle
      apply hrest
      rw [List.drop_eq_nil_of_le]
      · rfl
      · simp only [List.length_cons]
        omega
    exact closesBlock_of_lt hlt

/-- What a settled text begins with, unless it is a comment, it begins with also when a line feed
follows. -/
theorem ofHead_append_of_settled (more : Text) {b : UInt8} {tail : Text} {offset : Nat}
    (hcomment : b ≠ Text.byte '#') (h : Settled (lexFrom 0 offset (b :: tail) [])) :
    Lexeme.ofHead b (tail ++ 0x0A :: more) = Lexeme.ofHead b tail := by
  refine ofHead_append (separated_feed more) hcomment ?_
  rintro rfl
  have hlexeme : Lexeme.ofHead 0x22 tail = .token .string (stringLength (0x22 :: tail)) := rfl
  rw [lexFrom, hlexeme] at h
  simp only at h
  rw [lexFrom_eq_append] at h
  exact stringLength_append_of_settled h

theorem ignored_le {b : UInt8} {tail : Text} {length : Nat}
    (h : Lexeme.ofHead b tail = .ignored length) : length ≤ tail.length + 1 := by
  obtain ⟨item, behind, rfl, rfl, -⟩ := exists_ignored_of_ofHead h
  simp

/-- The tokens of a settled text, a line feed and another text. Bytes still to be passed over are
bytes of the first text. -/
theorem lexFrom_append_feed (more : Text) {skip offset : Nat} {text : Text}
    (hskip : skip ≤ text.length) (h : Settled (lexFrom skip offset text [])) :
    lexFrom skip offset (text ++ 0x0A :: more) [] =
      lexFrom skip offset text [] ++ lexFrom 0 (offset + text.length + 1) more [] := by
  induction text generalizing skip offset with
  | nil =>
      rw [Nat.le_zero.1 hskip]
      rfl
  | cons b tail ih =>
      have hoffset : offset + (b :: tail).length + 1 = offset + 1 + tail.length + 1 := by
        rw [List.length_cons]
        omega
      rw [hoffset]
      cases skip with
      | succ skip =>
          rw [lexFrom] at h
          exact ih (Nat.le_of_succ_le_succ hskip) h
      | zero =>
          by_cases hcomment : b = Text.byte '#'
          · subst hcomment
            have hlexeme (rest : Text) : lexFrom 0 offset (Text.byte '#' :: rest) [] =
                lexFrom (commentLength 1 rest - 1) (offset + 1) rest [] := rfl
            rw [hlexeme] at h
            rw [List.cons_append, hlexeme, hlexeme]
            rcases commentLength_append 1 tail more with ⟨hle, heq⟩ | ⟨hle, heq⟩
            · rw [heq]
              exact ih (by omega) h
            · -- the comment takes the feed with it, and nothing is left of the first text
              have hall : (tail ++ 0x0A :: more).drop (tail.length + 1) = more := by
                rw [List.drop_append, List.drop_of_length_le (Nat.le_succ _)]
                simp
              have hnone : lexFrom (commentLength 1 tail - 1) (offset + 1) tail [] = [] := by
                rw [lexFrom_eq_drop, List.drop_of_length_le (by omega)]
                rfl
              have hskipped : 1 + tail.length + 1 - 1 = tail.length + 1 := by omega
              rw [hnone, heq, hskipped, lexFrom_eq_drop, hall]
              rfl
          · have hhead := ofHead_append_of_settled more hcomment h
            rw [List.cons_append, lexFrom, hhead, lexFrom]
            rw [lexFrom] at h
            cases hlexeme : Lexeme.ofHead b tail with
            | ignored length =>
                simp only [hlexeme] at h ⊢
                have hle := ignored_le hlexeme
                exact ih (by omega) h
            | token kind length =>
                have hle := tokenOfHead_le b tail
                rw [tokenOfHead_of_ofHead hlexeme] at hle
                simp only [hlexeme] at h ⊢
                rw [lexFrom_eq_append] at h
                have htake : (b :: (tail ++ 0x0A :: more)).take length =
                    (b :: tail).take length := by
                  rw [← List.cons_append, List.take_append_of_le_length hle]
                rw [lexFrom_eq_append, ih (by omega) h.tail, htake,
                  lexFrom_eq_append _ _ tail [_], List.append_assoc]

/-- A text that begins further on has its tokens further on. -/
theorem lexFrom_add (k skip offset : Nat) (text : Text) :
    lexFrom skip (offset + k) text [] = relocate (· + k) (lexFrom skip offset text []) := by
  induction text generalizing skip offset with
  | nil => rfl
  | cons b tail ih =>
      cases skip with
      | succ skip =>
          rw [lexFrom, lexFrom, Nat.add_right_comm]
          exact ih skip (offset + 1)
      | zero =>
          rw [lexFrom, lexFrom, Nat.add_right_comm]
          cases Lexeme.ofHead b tail with
          | ignored length => exact ih (length - 1) (offset + 1)
          | token kind length =>
              simp only
              rw [lexFrom_eq_append, lexFrom_eq_append _ _ tail [_], ih]
              rfl

end Token

theorem lex_append_feed {text : Text} (h : Token.Settled (lex text)) (more : Text) :
    lex (text ++ 0x0A :: more) = lex text ++ relocate (· + (text.length + 1)) (lex more) := by
  rw [lex, lex, Token.lexFrom_append_feed more (Nat.zero_le _) h, lex, ← Token.lexFrom_add]
  congr 2

/-! ## Positions -/

namespace Position

def lower (lines : Nat) (p : Position) : Position := ⟨p.line + lines, p.column⟩

theorem lower_right (lines : Nat) (p : Position) : (p.lower lines).right = p.right.lower lines := rfl

theorem lower_down (lines : Nat) (p : Position) : (p.lower lines).down = p.down.lower lines := by
  simp [lower, down, Nat.add_right_comm]

theorem advance_lower (lines skip : Nat) (p : Position) (count : Nat) (text : Text) :
    advance skip (p.lower lines) count text = (advance skip p count text).lower lines := by
  induction text generalizing skip p count with
  | nil => cases count <;> rfl
  | cons b tail ih =>
      cases count with
      | zero => simp [advance]
      | succ count =>
          cases skip with
          | succ skip => exact ih skip p count
          | zero => simp only [advance, lower_right, lower_down, ih, ← apply_ite (lower lines)]

/-- An offset inside the first text has the position that it has there. -/
theorem advance_append_of_lt (more : Text) {skip count : Nat} {text : Text}
    (h : count < text.length) (p : Position) :
    advance skip p count (text ++ 0x0A :: more) = advance skip p count text := by
  induction text generalizing skip count p with
  | nil => cases h
  | cons b tail ih =>
      cases count with
      | zero => simp [advance]
      | succ count =>
          have htail : count < tail.length := Nat.lt_of_succ_lt_succ h
          cases skip with
          | succ skip => exact ih htail p
          | zero =>
              have hhead : (tail ++ 0x0A :: more).head? = tail.head? := by
                cases tail with
                | nil => cases htail
                | cons c tail => rfl
              have hmark := Token.startsWith_byteOrderMark_append (b :: tail) more
              rw [List.cons_append] at hmark ⊢
              simp only [advance, hmark, hhead, ih htail]

/-- The walk through a text and the line feed behind it ends at the beginning of a line, and goes on
from there. -/
theorem advance_append_feed (more : Text) (count : Nat) {skip : Nat} {text : Text}
    (h : skip ≤ text.length) (p : Position) :
    (advance skip p (text.length + 1) (text ++ [0x0A])).column = 1 ∧
      advance skip p (text.length + 1 + count) (text ++ 0x0A :: more) =
        advance 0 (advance skip p (text.length + 1) (text ++ [0x0A])) count more := by
  induction text generalizing skip p with
  | nil =>
      rw [Nat.le_zero.1 h, List.length_nil, Nat.zero_add, Nat.add_comm 1 count]
      exact ⟨rfl, rfl⟩
  | cons b tail ih =>
      have hcount : (b :: tail).length + 1 + count = tail.length + 1 + count + 1 := by
        rw [List.length_cons]
        omega
      rw [hcount, List.length_cons]
      cases skip with
      | succ skip => exact ih (Nat.le_of_succ_le_succ h) p
      | zero =>
          have hhead : (tail ++ 0x0A :: more).head? = (tail ++ [0x0A]).head? := by
            cases tail <;> rfl
          have hmark := Token.startsWith_byteOrderMark_append (b :: tail) more
          have hmark' := Token.startsWith_byteOrderMark_append (b :: tail) []
          rw [List.cons_append] at hmark hmark' ⊢
          rw [List.cons_append]
          simp only [advance, hmark, hmark', hhead]
          split
          · next hstarts =>
              have hlength := (List.isPrefixOf_iff_prefix.1 hstarts).length_le
              exact ih (Nat.le_of_succ_le_succ hlength) p
          · split
            · exact ih (Nat.zero_le _) p
            · split
              · exact ih (Nat.zero_le _) p.down
              · exact ih (Nat.zero_le _) p.right

theorem line_le_line {p q : Position} (h : p ≤ q) : p.line ≤ q.line := by
  rcases Prod.Lex.toLex_le_toLex.1 h with hlt | ⟨heq, -⟩
  · exact Nat.le_of_lt hlt
  · exact Nat.le_of_eq heq

def linesOf (text : Text) : Nat :=
  (ofOffset (text ++ [0x0A]) (text.length + 1)).line - 1

theorem ofOffset_append_of_lt (more : Text) {offset : Nat} {text : Text}
    (h : offset < text.length) :
    ofOffset (text ++ 0x0A :: more) offset = ofOffset text offset :=
  advance_append_of_lt more h start

theorem ofOffset_append_feed (text more : Text) (offset : Nat) :
    ofOffset (text ++ 0x0A :: more) (text.length + 1 + offset) =
      (ofOffset more offset).lower (linesOf text) := by
  obtain ⟨hcolumn, heq⟩ := advance_append_feed more offset (Nat.zero_le text.length) start
  have hline := line_le_line (le_advance 0 start (text.length + 1) (text ++ [0x0A]))
  have hend : ofOffset (text ++ [0x0A]) (text.length + 1) = start.lower (linesOf text) := by
    rw [lower, linesOf, mk.injEq]
    exact ⟨(Nat.add_sub_cancel' hline).symm, hcolumn⟩
  calc ofOffset (text ++ 0x0A :: more) (text.length + 1 + offset)
      = advance 0 (ofOffset (text ++ [0x0A]) (text.length + 1)) offset more := heq
    _ = (ofOffset more offset).lower (linesOf text) := by rw [hend, advance_lower]; rfl

end Position

end SelectionCheck
