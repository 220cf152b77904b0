import SelectionCheck.Proofs.Text.Line
import SelectionCheck.Proofs.Token.Quoted

/-!
# Lines and quoted strings

The line of an offset is one more than the number of line ends before it, where a carriage return in
front of a line feed leaves the end of the line to the feed. `line_ofOffset_add` counts the line
ends between two offsets.

Three rules of the language know line ends. Positions and comments take a carriage return for one,
but the scanner of quoted strings stops at line feeds only. A quoted string without faults has no
line feed in it, and it goes over as many line ends as it has carriage returns; it stays on its line
if and only if it has none of these either.
-/

namespace SelectionCheck

open Text (OneLine)

namespace Position

/-- Whether a line ends with the byte `b`, in front of `rest`. -/
def endsLine (b : UInt8) (rest : Text) : Bool :=
  b = 0x0A || b = 0x0D && rest.head? ≠ some 0x0A

def lineEnds : (count : Nat) → Text → Nat
  | 0, _ => 0
  | _ + 1, [] => 0
  | count + 1, b :: rest => (if endsLine b rest then 1 else 0) + lineEnds count rest

theorem lineEnds_nil (count : Nat) : lineEnds count [] = 0 := by
  cases count <;> rfl

theorem endsLine_eq_false_of_high {b : UInt8} (h : 0x80 ≤ b) (rest : Text) :
    endsLine b rest = false := by
  have hne : b ≠ 0x0A ∧ b ≠ 0x0D := by
    constructor
    · rintro rfl
      exact absurd h (by decide)
    · rintro rfl
      exact absurd h (by decide)
  simp [endsLine, hne]

theorem lineEnds_cons_of_not {b : UInt8} {rest : Text} (h : endsLine b rest = false) (count : Nat) :
    lineEnds (count + 1) (b :: rest) = lineEnds count rest := by
  rw [lineEnds, h]
  exact Nat.zero_add _

/-- A walk goes down once for each line end. Bytes that do not move end a byte order mark, and none
of these ends a line. -/
theorem line_advance {skip : Nat} {text : Text} (hskip : ∀ c ∈ text.take skip, 0x80 ≤ c)
    (p : Position) (count : Nat) :
    (advance skip p count text).line = p.line + lineEnds count text := by
  fun_induction advance skip p count text with
  | case1 => simp [lineEnds]
  | case2 => rfl
  | case3 skip p count b rest ih =>
      rw [List.take_succ_cons, List.forall_mem_cons] at hskip
      rw [ih hskip.2, lineEnds_cons_of_not (endsLine_eq_false_of_high hskip.1 rest)]
  | case4 p count b rest hmark ih =>
      obtain ⟨behind, hbehind⟩ := List.isPrefixOf_iff_prefix.1 hmark
      obtain ⟨rfl, rfl⟩ := List.cons.inj hbehind
      rw [ih (by simp), lineEnds_cons_of_not (endsLine_eq_false_of_high (by decide) _)]
  | case5 p count b rest _ hreturn ih =>
      have hends : endsLine b rest = false := by
        simp_all [endsLine]
      rw [ih (by simp), lineEnds_cons_of_not hends]
  | case6 p count b rest _ hreturn hend ih =>
      have hends : endsLine b rest = true := by
        rcases Bool.or_eq_true_iff.1 hend with hb | hb <;> simp_all [endsLine]
      rw [ih (by simp), lineEnds, hends, down]
      exact Nat.add_assoc _ _ _
  | case7 p count b rest _ _ hplain ih =>
      have hends : endsLine b rest = false := by
        simp_all [endsLine]
      rw [ih (by simp), lineEnds_cons_of_not hends, right]

theorem lineEnds_add (i j : Nat) (text : Text) :
    lineEnds (i + j) text = lineEnds i text + lineEnds j (text.drop i) := by
  induction text generalizing i with
  | nil => rw [lineEnds_nil, lineEnds_nil, List.drop_nil, lineEnds_nil]
  | cons b rest ih =>
      cases i with
      | zero => rw [Nat.zero_add, List.drop_zero, lineEnds, Nat.zero_add]
      | succ i =>
          rw [Nat.add_right_comm, lineEnds, lineEnds, ih, List.drop_succ_cons, Nat.add_assoc]

/-- The lines between two offsets are the line ends between them. -/
theorem line_ofOffset_add (text : Text) (i j : Nat) :
    (ofOffset text (i + j)).line = (ofOffset text i).line + lineEnds j (text.drop i) := by
  have hskip : ∀ c ∈ text.take 0, 0x80 ≤ c := by simp
  rw [ofOffset, ofOffset, line_advance hskip, line_advance hskip, lineEnds_add, Nat.add_assoc]

/-- In a part without line feeds that a quote ends, the line ends are the carriage returns. -/
theorem lineEnds_append_quote {part : Text} (h : 0x0A ∉ part) (behind : Text) :
    lineEnds (part.length + 1) (part ++ 0x22 :: behind) = part.count 0x0D := by
  induction part with
  | nil => rfl
  | cons b part ih =>
      obtain ⟨hb, hpart⟩ := not_or.1 (mt List.mem_cons.2 h)
      have hhead : (part ++ 0x22 :: behind).head? ≠ some 0x0A := by
        cases part with
        | nil => simp
        | cons c part => simpa [eq_comm] using (not_or.1 (mt List.mem_cons.2 hpart)).1
      have hends : endsLine b (part ++ 0x22 :: behind) = (b == 0x0D) := by
        rw [endsLine, decide_eq_true hhead, Bool.and_true, decide_eq_false (Ne.symm hb),
          Bool.false_or]
        rfl
      rw [List.length_cons, List.cons_append, lineEnds, ih hpart, hends, List.count_cons,
        Nat.add_comm]

end Position

/-! ## Quoted strings -/

namespace Token

theorem QuotedContent.feed_not_mem {content : Text} (h : QuotedContent content) :
    0x0A ∉ content := by
  induction h with
  | nil => exact List.not_mem_nil
  | plain hb _ ih =>
      rw [List.mem_cons, not_or]
      exact ⟨hb.2.2.symm, ih⟩
  | @escape e rest he _ ih =>
      have hfeed : e ≠ 0x0A := by
        rintro rfl
        exact absurd he (by decide)
      rw [List.mem_cons, List.mem_cons, not_or, not_or]
      exact ⟨by decide, hfeed.symm, ih⟩
  | unicode _ hdigits _ ih =>
      rw [List.mem_cons, List.mem_cons, List.mem_append, not_or, not_or, not_or]
      exact ⟨by decide, by decide, fun h => (plain_of_isHexDigit _ (hdigits _ h)).2.2 rfl, ih⟩

end Token

/-- Where lexing finds no fault, a quoted string has no line feed in it and goes over as many lines
as it has carriage returns. It stays on one line if and only if it has none. -/
theorem line_stop_of_quoted {source : Text} (h : (lex source).flatMap Token.errors = []) {t : Token}
    (ht : t ∈ lex source) (hkind : t.kind = .string)
    (hquoted : Text.startsWith Token.blockQuotes t.text = false) :
    0x0A ∉ t.text ∧
      (Position.ofOffset source t.stop).line =
        (Position.ofOffset source t.start).line + t.text.count 0x0D ∧
      ((Position.ofOffset source t.stop).line = (Position.ofOffset source t.start).line ↔
        OneLine t.text) := by
  have herrors := List.flatMap_eq_nil_iff.1 h t ht
  have hfaults : Token.stringFaults t.text = [] := by
    simpa [Token.errors, hkind] using herrors
  obtain ⟨content, hcontent, htext⟩ := exists_content_of_mem_lex ht hkind hquoted hfaults
  have hpart : 0x0A ∉ 0x22 :: content := by
    rw [List.mem_cons, not_or]
    exact ⟨by decide, hcontent.feed_not_mem⟩
  have hfeed : 0x0A ∉ t.text := by
    rw [htext, ← List.cons_append, List.mem_append, not_or]
    exact ⟨hpart, by decide⟩
  have hline : (Position.ofOffset source t.stop).line =
      (Position.ofOffset source t.start).line + t.text.count 0x0D := by
    obtain ⟨behind, hdrop⟩ := exists_append_of_mem_lex ht
    have hlength : t.text.length = (0x22 :: content).length + 1 := by
      rw [htext, ← List.cons_append, List.length_append, List.length_singleton]
    have hcount : t.text.count 0x0D = (0x22 :: content).count 0x0D := by
      rw [htext, ← List.cons_append, List.count_append]
      rfl
    rw [Token.stop, Position.line_ofOffset_add, hdrop, hlength, hcount, htext, ← List.cons_append,
      List.append_assoc, List.singleton_append, Position.lineEnds_append_quote hpart]
  refine ⟨hfeed, hline, ?_⟩
  rw [hline, Nat.add_eq_left, List.count_eq_zero]
  constructor
  · intro hreturn b hb
    exact ⟨fun heq => hfeed (heq ▸ hb), fun heq => hreturn (heq ▸ hb)⟩
  · exact fun hone hreturn => (hone _ hreturn).2 rfl

/-- Two strings, of which the second has two carriage returns in it. -/
def returnStrings : Text := "\"one\" \"a\rb\rc\""

theorem line_stop_returnStrings :
    (lex returnStrings).flatMap Token.errors = [] ∧
      ∃ t ∈ lex returnStrings, ∃ u ∈ lex returnStrings,
        t.text = Text.ofString "\"one\"" ∧ u.text = Text.ofString "\"a\rb\rc\"" ∧
        (Position.ofOffset returnStrings t.stop).line =
          (Position.ofOffset returnStrings t.start).line ∧
        (Position.ofOffset returnStrings u.stop).line =
          (Position.ofOffset returnStrings u.start).line + 2 := by
  have h : (lex returnStrings).flatMap Token.errors = [] := by decide +kernel
  have ht : ⟨.string, "\"one\"", 0⟩ ∈ lex returnStrings := by decide +kernel
  have hu : ⟨.string, "\"a\rb\rc\"", 6⟩ ∈ lex returnStrings := by decide +kernel
  obtain ⟨-, -, hone⟩ := line_stop_of_quoted h ht rfl (by decide +kernel)
  obtain ⟨-, htwo, -⟩ := line_stop_of_quoted h hu rfl (by decide +kernel)
  exact ⟨h, _, ht, _, hu, rfl, rfl, hone.2 (by decide +kernel), htwo⟩

def returnString : Text := "\"a\rb\""

/-- A string without faults need not end on the line on which it begins. -/
theorem line_stop_returnString :
    lex returnString = [⟨.string, returnString, 0⟩] ∧
      (lex returnString).flatMap Token.errors = [] ∧
      Text.startsWith Token.blockQuotes returnString = false ∧ ¬ OneLine returnString ∧
      (Position.ofOffset returnString 0).line = 1 ∧
      (Position.ofOffset returnString returnString.length).line = 2 := by
  decide +kernel

end SelectionCheck
