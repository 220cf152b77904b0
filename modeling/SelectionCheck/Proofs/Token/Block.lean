import Mathlib.Data.List.Basic
import SelectionCheck.Proofs.Token.Quoted

/-!
# Block strings

The scanner ends a block string at the first three quotes that no backslash precedes; three quotes
behind a backslash are passed over together. Whether the string is closed is then asked of its
length and its last three bytes alone. The two do not agree. A string that the end of the text cuts
off right behind three escaped quotes ends with three quotes, and so does one that has one or two
more quotes there: none of them is reported.

`HasClosingQuotes` is the notion that the scanner has, by the places where three quotes stand;
`EndsEscaped` tells the strings that are cut off in this way. `stringFaults_of_block` says that a
block string is reported if and only if it is neither.
-/

namespace SelectionCheck

namespace Token

open Text (byte)

/-! ## The places of three quotes -/

/-- The places where three quotes stand in a text that begins at `offset`, from left to right and
without overlap. The first `skip` bytes belong to quotes already found. -/
def tripleQuotes : (skip offset : Nat) → Text → List Nat
  | _, _, [] => []
  | skip + 1, offset, _ :: rest => tripleQuotes skip (offset + 1) rest
  | 0, offset, b :: rest =>
    if Text.startsWith blockQuotes (b :: rest) then offset :: tripleQuotes 2 (offset + 1) rest
    else tripleQuotes 0 (offset + 1) rest

/-- Behind the opening quotes of a block string, some three quotes have no backslash before them. -/
def HasClosingQuotes (text : Text) : Prop :=
  ∃ i ∈ tripleQuotes 0 3 (text.drop 3), text[i - 1]? ≠ some 0x5C

instance (text : Text) : Decidable (HasClosingQuotes text) :=
  List.decidableBEx (fun i => text[i - 1]? ≠ some 0x5C) (tripleQuotes 0 3 (text.drop 3))

/-- The text ends with a backslash and three, four or five quotes. -/
def EndsEscaped (text : Text) : Prop :=
  ∃ n ∈ [3, 4, 5], (0x5C :: List.replicate n 0x22) <:+ text

instance (text : Text) : Decidable (EndsEscaped text) :=
  List.decidableBEx (fun n => (0x5C :: List.replicate n 0x22) <:+ text) [3, 4, 5]

theorem tripleQuotes_add (k skip offset : Nat) (text : Text) :
    tripleQuotes skip (offset + k) text = (tripleQuotes skip offset text).map (· + k) := by
  induction text generalizing skip offset with
  | nil => simp [tripleQuotes]
  | cons b rest ih =>
      cases skip with
      | succ skip => rw [tripleQuotes, tripleQuotes, Nat.add_right_comm, ih]
      | zero =>
          rw [tripleQuotes, tripleQuotes, Nat.add_right_comm, ih, ih]
          split <;> rfl

theorem exists_mem_tripleQuotes_add (k skip offset : Nat) (text : Text) (p : Nat → Prop) :
    (∃ i ∈ tripleQuotes skip (offset + k) text, p i) ↔
      ∃ i ∈ tripleQuotes skip offset text, p (i + k) := by
  rw [tripleQuotes_add]
  constructor
  · rintro ⟨_, hmem, hp⟩
    obtain ⟨i, hi, rfl⟩ := List.mem_map.1 hmem
    exact ⟨i, hi, hp⟩
  · rintro ⟨i, hi, hp⟩
    exact ⟨i + k, List.mem_map.2 ⟨i, hi, rfl⟩, hp⟩

/-- Some three quotes of a text with `previous` before it have no backslash before them. -/
def ClosesBehind (previous : UInt8) (text : Text) : Prop :=
  ∃ i ∈ tripleQuotes 0 0 text, (previous :: text)[i]? ≠ some 0x5C

theorem closesBehind_escaped (previous : UInt8) (rest : Text) :
    ClosesBehind previous (0x5C :: 0x22 :: 0x22 :: 0x22 :: rest) ↔ ClosesBehind 0x22 rest := by
  have hplaces : tripleQuotes 0 0 (0x5C :: 0x22 :: 0x22 :: 0x22 :: rest) =
      1 :: tripleQuotes 0 (0 + 4) rest := rfl
  rw [ClosesBehind, hplaces, List.exists_mem_cons_iff, exists_mem_tripleQuotes_add]
  exact or_iff_right fun h => h rfl

theorem closesBehind_closing {previous : UInt8} (h : previous ≠ 0x5C) (rest : Text) :
    ClosesBehind previous (0x22 :: 0x22 :: 0x22 :: rest) :=
  ⟨0, List.mem_cons_self, by simpa using h⟩

theorem closesBehind_step {b : UInt8} {rest : Text}
    (hclosing : ∀ tail, b = 0x22 → rest = 0x22 :: 0x22 :: tail → False) (previous : UInt8) :
    ClosesBehind previous (b :: rest) ↔ ClosesBehind b rest := by
  have hplain : Text.startsWith blockQuotes (b :: rest) = false := by
    rw [← Bool.not_eq_true, startsWith_blockQuotes_iff]
    rintro ⟨tail, htail⟩
    obtain ⟨rfl, rfl⟩ := List.cons.inj htail
    exact hclosing tail rfl rfl
  have hplaces : tripleQuotes 0 0 (b :: rest) = tripleQuotes 0 (0 + 1) rest := by
    rw [tripleQuotes, hplain]
    rfl
  rw [ClosesBehind, hplaces, exists_mem_tripleQuotes_add]
  rfl

/-- The search of the scanner, by places. A backslash just before the text escapes nothing in it. -/
theorem closesBlock_iff {previous : UInt8} {text : Text}
    (hprevious : previous = 0x5C → Text.startsWith blockQuotes text = false) :
    closesBlock text = true ↔ ClosesBehind previous text := by
  fun_induction closesBlock text generalizing previous with
  | case1 rest ih =>
      rw [closesBehind_escaped]
      exact ih fun h => absurd h (by decide)
  | case2 rest =>
      refine iff_of_true rfl (closesBehind_closing (fun h => ?_) rest)
      exact absurd (startsWith_blockQuotes_iff.2 ⟨rest, rfl⟩) (by rw [hprevious h]; decide)
  | case3 b rest hescaped hclosing ih =>
      rw [closesBehind_step hclosing]
      exact ih (blockLength_step hescaped hclosing separated_nil 0 previous).2
  | case4 => simp [ClosesBehind, tripleQuotes]

theorem hasClosingQuotes_iff (content : Text) :
    HasClosingQuotes (0x22 :: 0x22 :: 0x22 :: content) ↔ closesBlock content = true := by
  have hquote : (0x22 : UInt8) = 0x5C → Text.startsWith blockQuotes content = false :=
    fun h => absurd h (by decide)
  rw [closesBlock_iff hquote]
  exact exists_mem_tripleQuotes_add 3 0 0 content _

/-! ## What the scanner takes -/

/-- What the scanner can take behind the opening quotes of a block string. -/
inductive BlockRun : Text → Prop
  | stop : BlockRun []
  | close : BlockRun [0x22, 0x22, 0x22]
  | escaped {rest : Text} (h : BlockRun rest) : BlockRun (0x5C :: 0x22 :: 0x22 :: 0x22 :: rest)
  | step {b : UInt8} {rest : Text}
      (hescaped : ∀ tail, b = 0x5C → rest = 0x22 :: 0x22 :: 0x22 :: tail → False)
      (hclosing : ∀ tail, b = 0x22 → rest = 0x22 :: 0x22 :: tail → False) (h : BlockRun rest) :
      BlockRun (b :: rest)

theorem blockLength_sub (n k : Nat) (previous : UInt8) (text : Text) :
    blockLength 0 (n + k) previous text - n =
      blockLength 0 (n + k) previous text - (n + k) + k := by
  have hle := le_blockLength 0 (n + k) previous text
  omega

theorem blockRun_take (n : Nat) {previous : UInt8} {text : Text}
    (hprevious : previous = byte '\\' → Text.startsWith blockQuotes text = false) :
    BlockRun (text.take (blockLength 0 n previous text - n)) := by
  fun_induction closesBlock text generalizing n previous with
  | case1 rest ih =>
      rw [blockLength_escaped, blockLength_sub]
      exact .escaped (ih _ fun h => absurd h (by decide))
  | case2 rest =>
      have hne : previous ≠ byte '\\' := by
        intro h
        exact absurd (startsWith_blockQuotes_iff.2 ⟨rest, rfl⟩) (by rw [hprevious h]; decide)
      rw [blockLength_closing hne, Nat.add_sub_cancel_left]
      exact .close
  | case3 b rest hescaped hclosing ih =>
      have hnext := (blockLength_step hescaped hclosing separated_nil n previous).2
      rw [blockLength_cons hescaped hclosing, blockLength_sub]
      -- What the string has in front, the text has in front too.
      have hprefix := List.take_append_drop (blockLength 0 (n + 1) b rest - (n + 1)) rest
      refine .step (fun tail hb htail => ?_) (fun tail hb htail => ?_) (ih _ hnext)
      · rw [htail] at hprefix
        exact hescaped _ hb hprefix.symm
      · rw [htail] at hprefix
        exact hclosing _ hb hprefix.symm
  | case4 =>
      rw [List.take_nil]
      exact .stop

/-! ## The last three bytes -/

theorem endsEscaped_cons_iff (b : UInt8) (rest : Text) :
    EndsEscaped (b :: rest) ↔
      (b = 0x5C ∧ rest ∈ [3, 4, 5].map (List.replicate · 0x22)) ∨ EndsEscaped rest := by
  simp only [EndsEscaped, List.suffix_cons_iff, List.cons.injEq]
  grind

theorem endsEscaped_cons {b : UInt8} {rest : Text}
    (hescaped : ∀ tail, b = 0x5C → rest = 0x22 :: 0x22 :: 0x22 :: tail → False) :
    EndsEscaped (b :: rest) ↔ EndsEscaped rest := by
  rw [endsEscaped_cons_iff, or_iff_right]
  rintro ⟨hb, hrest⟩
  obtain ⟨n, hn, rfl⟩ := List.mem_map.1 hrest
  obtain ⟨m, rfl⟩ : ∃ m, n = m + 3 := ⟨n - 3, by simp at hn; omega⟩
  exact hescaped (List.replicate m 0x22) hb rfl

/-- Three escaped quotes are at the end of a text if at most two quotes follow, or if what follows
ends in this way. -/
theorem endsEscaped_escaped (rest : Text) :
    EndsEscaped (0x5C :: 0x22 :: 0x22 :: 0x22 :: rest) ↔
      rest ∈ [[], [0x22], [0x22, 0x22]] ∨ EndsEscaped rest := by
  simp [endsEscaped_cons_iff, List.replicate]

theorem blockQuotes_suffix_quotes (rest : Text) :
    blockQuotes <:+ 0x22 :: 0x22 :: 0x22 :: rest ↔
      rest ∈ [[], [0x22], [0x22, 0x22]] ∨ blockQuotes <:+ rest := by
  simp [blockQuotes, List.suffix_cons_iff, eq_comm, or_assoc]

theorem closesBlock_cons {b : UInt8} {rest : Text}
    (hescaped : ∀ tail, b = 0x5C → rest = 0x22 :: 0x22 :: 0x22 :: tail → False)
    (hclosing : ∀ tail, b = 0x22 → rest = 0x22 :: 0x22 :: tail → False) :
    closesBlock (b :: rest) = closesBlock rest :=
  closesBlock.eq_3 b rest hescaped hclosing

namespace BlockRun

variable {run : Text}

/-- What the scanner takes ends with three quotes if it closes, or if it is cut off behind three
escaped quotes. -/
theorem blockQuotes_suffix_iff (h : BlockRun run) :
    blockQuotes <:+ run ↔ closesBlock run = true ∨ EndsEscaped run := by
  induction h with
  | stop => decide
  | close => decide
  | @escaped rest _ ih =>
      have hsuffix : blockQuotes <:+ 0x5C :: 0x22 :: 0x22 :: 0x22 :: rest ↔
          blockQuotes <:+ 0x22 :: 0x22 :: 0x22 :: rest := by
        rw [List.suffix_cons_iff, or_iff_right (by simp [blockQuotes])]
      rw [hsuffix, blockQuotes_suffix_quotes, ih, endsEscaped_escaped, closesBlock, or_left_comm]
  | @step b rest hescaped hclosing _ ih =>
      have hsuffix : blockQuotes <:+ b :: rest ↔ blockQuotes <:+ rest := by
        rw [List.suffix_cons_iff, or_iff_right]
        intro heq
        obtain ⟨hb, hrest⟩ := List.cons.inj heq
        exact hclosing [] hb.symm hrest.symm
      rw [hsuffix, ih, closesBlock_cons hescaped hclosing, endsEscaped_cons hescaped]

/-- What is cut off behind three escaped quotes does not close. -/
theorem closesBlock_eq_false (h : BlockRun run) (hends : EndsEscaped run) :
    closesBlock run = false := by
  induction h with
  | stop => rfl
  | close => exact absurd hends (by decide)
  | @escaped rest _ ih =>
      have hfew : ∀ quotes ∈ [[], [0x22], [0x22, 0x22]], closesBlock quotes = false := by decide
      rw [closesBlock]
      rcases (endsEscaped_escaped rest).1 hends with hquotes | hends
      · exact hfew rest hquotes
      · exact ih hends
  | step hescaped hclosing _ ih =>
      rw [closesBlock_cons hescaped hclosing]
      exact ih ((endsEscaped_cons hescaped).1 hends)

end BlockRun

/-- A block string counts as closed if three quotes are at the end of its content. -/
theorem blockIsClosed_iff (content : Text) :
    blockIsClosed (0x22 :: 0x22 :: 0x22 :: content) = true ↔ blockQuotes <:+ content := by
  rw [blockIsClosed, Bool.and_eq_true, decide_eq_true_iff, List.isSuffixOf_iff_suffix]
  constructor
  · rintro ⟨hlength, hsuffix⟩
    have hcontent : content <:+ 0x22 :: 0x22 :: 0x22 :: content :=
      List.suffix_append blockQuotes content
    apply List.suffix_of_suffix_length_le hsuffix hcontent
    simp only [List.length_cons] at hlength
    show 3 ≤ content.length
    omega
  · intro hsuffix
    have hlength : 3 ≤ content.length := hsuffix.length_le
    refine ⟨?_, hsuffix.trans (List.suffix_append blockQuotes content)⟩
    simp only [List.length_cons]
    omega

end Token

/-- A string that begins with three quotes is these and a run of the scanner. -/
theorem blockRun_of_mem_lex {source : Text} {t : Token} (ht : t ∈ lex source)
    (hkind : t.kind = .string) (hblock : Text.startsWith Token.blockQuotes t.text = true) :
    ∃ content, t.text = 0x22 :: 0x22 :: 0x22 :: content ∧ Token.BlockRun content := by
  obtain ⟨rest, -, htext, hstarts⟩ := exists_string_of_mem_lex ht hkind
  rw [hblock] at hstarts
  obtain ⟨content, hcontent⟩ := Token.startsWith_blockQuotes_iff.1 hstarts.symm
  have hlength : Token.stringLength (0x22 :: rest) =
      Token.blockLength 0 3 0x22 content - 3 + 3 := by
    have hle := Token.le_blockLength 0 3 0x22 content
    rw [Token.stringLength, if_pos hstarts.symm, hcontent]
    exact (Nat.sub_add_cancel hle).symm
  rw [hlength, hcontent] at htext
  exact ⟨_, htext, Token.blockRun_take 3 fun h => absurd h (by decide)⟩

open Token in
/-- A block string is reported as not closed if and only if it has no closing quotes and is not cut
off behind three escaped ones. One that is cut off there has no closing quotes. -/
theorem stringFaults_of_block {source : Text} {t : Token} (ht : t ∈ lex source)
    (hkind : t.kind = .string) (hblock : Text.startsWith blockQuotes t.text = true) :
    stringFaults t.text =
        (if HasClosingQuotes t.text ∨ EndsEscaped t.text then [] else [(0, .unterminatedBlock)]) ∧
      (EndsEscaped t.text → ¬ HasClosingQuotes t.text) := by
  obtain ⟨content, htext, hrun⟩ := blockRun_of_mem_lex ht hkind hblock
  have hquote : ∀ rest, EndsEscaped (0x22 :: rest) ↔ EndsEscaped rest :=
    fun rest => endsEscaped_cons fun _ h => absurd h (by decide)
  have hends : EndsEscaped t.text ↔ EndsEscaped content := by
    rw [htext, hquote, hquote, hquote]
  have hcloses : HasClosingQuotes t.text ↔ closesBlock content = true := by
    rw [htext, hasClosingQuotes_iff]
  have hclosed : blockIsClosed t.text = true ↔ HasClosingQuotes t.text ∨ EndsEscaped t.text := by
    rw [hcloses, hends, ← hrun.blockQuotes_suffix_iff, htext, blockIsClosed_iff]
  constructor
  · rw [stringFaults, if_pos hblock]
    simp only [hclosed]
  · rw [hends, hcloses, Bool.not_eq_true]
    exact hrun.closesBlock_eq_false

/-- A block string with quotes and escaped quotes inside, which is not closed. -/
def openBlock : Text := "\"\"\"a \"\" \\\"\"\" b\"\""

open Token in
theorem stringFaults_openBlock :
    ∃ t ∈ lex ("a: " ++ openBlock), t.kind = .string ∧ Text.startsWith blockQuotes t.text = true ∧
      t.text = openBlock ∧ ¬ HasClosingQuotes openBlock ∧ ¬ EndsEscaped openBlock ∧
      stringFaults openBlock = [(0, .unterminatedBlock)] := by
  have ht : ⟨.string, openBlock, 3⟩ ∈ lex ("a: " ++ openBlock) := by decide +kernel
  obtain ⟨hfaults, -⟩ := stringFaults_of_block ht rfl (by decide +kernel)
  refine ⟨_, ht, rfl, by decide +kernel, rfl, by decide +kernel, by decide +kernel, ?_⟩
  exact hfaults.trans (if_neg (by decide +kernel))

def cutBlock : Text := "\"\"\"\\\"\"\""

open Token in
/-- A block string without closing quotes need not be reported. -/
theorem stringFaults_cutBlock :
    lex cutBlock = [⟨.string, cutBlock, 0⟩] ∧ Text.startsWith blockQuotes cutBlock = true ∧
      ¬ HasClosingQuotes cutBlock ∧ stringFaults cutBlock = [] := by
  decide +kernel

end SelectionCheck
