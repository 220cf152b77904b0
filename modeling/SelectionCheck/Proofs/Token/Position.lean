import Mathlib.Data.Prod.Lex
import SelectionCheck.Position
import SelectionCheck.Proofs.Token.Lexer

/-!
# The positions of tokens

Positions are ordered by line and then by column. Moving on in a text never leads back, but it need
not lead forward: a byte order mark moves nothing, and neither does the carriage return before a
line feed. Two offsets may therefore share a position. A walk to an offset outside of byte order
marks can be cut there, which is `advance_add`; so it leads forward from such an offset if the byte
there begins no mark and is no carriage return. ASCII bytes other than the carriage return are never
inside a mark. The tokens of the language begin with such bytes, so a later token has a later
position.
-/

namespace SelectionCheck

namespace Position

instance : Preorder Position := Preorder.lift fun p => toLex (p.line, p.column)

theorem lt_iff {p q : Position} :
    p < q ↔ p.line < q.line ∨ p.line = q.line ∧ p.column < q.column :=
  Prod.Lex.toLex_lt_toLex

theorem lt_right (p : Position) : p < p.right :=
  lt_iff.2 (.inr ⟨rfl, Nat.lt_succ_self _⟩)

theorem lt_down (p : Position) : p < p.down :=
  lt_iff.2 (.inl (Nat.lt_succ_self _))

theorem le_advance (skip : Nat) (p : Position) (count : Nat) (text : Text) :
    p ≤ advance skip p count text := by
  fun_induction advance skip p count text with
  | case1 => exact le_rfl
  | case2 => exact le_rfl
  | case3 skip p count b rest ih => exact ih
  | case4 p count b rest _ ih => exact ih
  | case5 p count b rest _ _ ih => exact ih
  | case6 p count b rest _ _ _ ih => exact (lt_down p).le.trans ih
  | case7 p count b rest _ _ _ ih => exact (lt_right p).le.trans ih

theorem advance_nil (skip : Nat) (p : Position) (count : Nat) : advance skip p count [] = p := by
  cases count <;> rfl

/-- A longer walk leads no less far. -/
theorem advance_mono (skip : Nat) (p : Position) {i j : Nat} (hij : i ≤ j) (text : Text) :
    advance skip p i text ≤ advance skip p j text := by
  induction text generalizing skip p i j with
  | nil => rw [advance_nil, advance_nil]
  | cons b rest ih =>
      cases i with
      | zero => exact le_advance skip p j (b :: rest)
      | succ i =>
          obtain ⟨j, rfl⟩ := Nat.exists_eq_succ_of_ne_zero (Nat.ne_zero_of_lt hij)
          have hnext (skip : Nat) (p : Position) : advance skip p i rest ≤ advance skip p j rest :=
            ih skip p (Nat.le_of_succ_le_succ hij)
          cases skip with
          | succ skip => exact hnext skip p
          | zero =>
              simp only [advance]
              split
              · exact hnext 2 p
              · split
                · exact hnext 0 p
                · split
                  · exact hnext 0 p.down
                  · exact hnext 0 p.right

/-- A walk ends with the text. -/
theorem advance_of_length_le (skip : Nat) (p : Position) {count : Nat} {text : Text}
    (h : text.length ≤ count) : advance skip p count text = advance skip p text.length text := by
  induction text generalizing skip p count with
  | nil => rw [advance_nil, advance_nil]
  | cons b rest ih =>
      obtain ⟨count, rfl⟩ := Nat.exists_eq_succ_of_ne_zero (Nat.ne_zero_of_lt h)
      rw [List.length_cons]
      cases skip with
      | succ skip =>
          rw [advance, advance]
          exact ih skip p (Nat.le_of_succ_le_succ h)
      | zero =>
          rw [advance, advance, ih 2 p (Nat.le_of_succ_le_succ h),
            ih 0 p (Nat.le_of_succ_le_succ h), ih 0 p.down (Nat.le_of_succ_le_succ h),
            ih 0 p.right (Nat.le_of_succ_le_succ h)]

/-! ## Offsets outside of byte order marks -/

/-- The offset does not fall inside a byte order mark of the text. -/
def OffMark (n : Nat) (text : Text) : Prop :=
  ∀ j < n, Text.startsWith Text.byteOrderMark (text.drop j) → j + 3 ≤ n

/-- None of the three bytes of a byte order mark is ASCII. -/
theorem high_of_mark {text : Text} {i j : Nat}
    (hmark : Text.startsWith Text.byteOrderMark (text.drop j)) (hle : j ≤ i) (hlt : i < j + 3) :
    ∃ b, text[i]? = some b ∧ 0x80 ≤ b := by
  obtain ⟨k, rfl⟩ := Nat.exists_eq_add_of_le hle
  obtain ⟨behind, hbehind⟩ := List.isPrefixOf_iff_prefix.1 hmark
  rw [← List.getElem?_drop, ← hbehind]
  have hk : k = 0 ∨ k = 1 ∨ k = 2 := by omega
  rcases hk with rfl | rfl | rfl
  · exact ⟨0xEF, rfl, by decide⟩
  · exact ⟨0xBB, rfl, by decide⟩
  · exact ⟨0xBF, rfl, by decide⟩

/-- An offset inside a byte order mark has bytes on both sides that are not ASCII. -/
theorem offMark_of_ascii {text : Text} {n : Nat}
    (h : ∀ a b, text[n - 1]? = some a → text[n]? = some b → a < 0x80 ∨ b < 0x80) :
    OffMark n text := by
  intro j hj hmark
  refine Nat.le_of_not_lt fun hlt => ?_
  obtain ⟨a, ha, hahigh⟩ := high_of_mark (i := n - 1) hmark (by omega) (by omega)
  obtain ⟨b, hb, hbhigh⟩ := high_of_mark hmark (Nat.le_of_lt hj) hlt
  rcases h a b ha hb with hlow | hlow
  · exact absurd hlow (UInt8.not_lt.2 hahigh)
  · exact absurd hlow (UInt8.not_lt.2 hbhigh)

/-- A walk to an offset outside of byte order marks goes on from there as from a beginning. The
bytes still to skip end the mark in which the walk begins. -/
theorem advance_add {skip i : Nat} {text : Text} (hskip : skip ≤ i)
    (h : ∀ k < i, skip ≤ k → Text.startsWith Text.byteOrderMark (text.drop k) → k + 3 ≤ i)
    (p : Position) (j : Nat) :
    advance skip p (i + j) text = advance 0 (advance skip p i text) j (text.drop i) := by
  induction text generalizing skip i p with
  | nil => rw [advance_nil, advance_nil, List.drop_nil, advance_nil]
  | cons b rest ih =>
      cases i with
      | zero =>
          obtain rfl := Nat.le_zero.1 hskip
          rw [Nat.zero_add, advance, List.drop_zero]
      | succ i =>
          rw [Nat.add_right_comm, List.drop_succ_cons]
          have hnext (skip' : Nat) (p : Position) (hle : skip' ≤ i) (hskip' : skip ≤ skip' + 1) :
              advance skip' p (i + j) rest = advance 0 (advance skip' p i rest) j (rest.drop i) := by
            refine ih hle (fun k hk hkskip hmark => ?_) p
            have hend := h (k + 1) (Nat.succ_lt_succ hk) (by omega) hmark
            omega
          cases skip with
          | succ skip => exact hnext skip p (Nat.le_of_succ_le_succ hskip) (Nat.le_refl _)
          | zero =>
              simp only [advance]
              split
              · next hmark =>
                  have hend := h 0 (Nat.succ_pos i) (Nat.le_refl 0) hmark
                  exact hnext 2 p (by omega) (by omega)
              · split
                · exact hnext 0 p (Nat.zero_le i) (Nat.zero_le 1)
                · split
                  · exact hnext 0 p.down (Nat.zero_le i) (Nat.zero_le 1)
                  · exact hnext 0 p.right (Nat.zero_le i) (Nat.zero_le 1)

/-- A walk leads forward from a byte that begins no byte order mark and is no carriage return. -/
theorem lt_advance {b : UInt8} {rest : Text}
    (hmark : ¬ Text.startsWith Text.byteOrderMark (b :: rest)) (hreturn : b ≠ 0x0D) (p : Position)
    (count : Nat) : p < advance 0 p (count + 1) (b :: rest) := by
  simp only [advance, if_neg hmark, hreturn, decide_false, Bool.false_and, Bool.false_or,
    Bool.false_eq_true, if_false]
  split
  · exact (lt_down p).trans_le (le_advance _ _ _ _)
  · exact (lt_right p).trans_le (le_advance _ _ _ _)

theorem ofOffset_lt_of_offMark {text rest : Text} {i j : Nat} {b : UInt8} (hij : i < j)
    (hi : OffMark i text) (hdrop : text.drop i = b :: rest)
    (hmark : ¬ Text.startsWith Text.byteOrderMark (b :: rest)) (hreturn : b ≠ 0x0D) :
    ofOffset text i < ofOffset text j := by
  obtain ⟨d, rfl⟩ := Nat.exists_eq_add_of_lt hij
  rw [ofOffset, ofOffset, Nat.add_assoc, advance_add (Nat.zero_le i) (fun k hk _ => hi k hk), hdrop]
  exact lt_advance hmark hreturn _ d

/-- A byte that moves the position wherever it stands. -/
def Moves (b : UInt8) : Prop := b < 0x80 ∧ b ≠ 0x0D

instance (b : UInt8) : Decidable (Moves b) := inferInstanceAs (Decidable (_ ∧ _))

theorem ofOffset_lt_ofOffset {text : Text} {i j : Nat} {b : UInt8} (hij : i < j)
    (hi : text[i]? = some b) (hb : Moves b) : ofOffset text i < ofOffset text j := by
  have hoff : OffMark i text := by
    refine offMark_of_ascii fun _ b' _ hb' => .inr ?_
    obtain rfl := Option.some.inj (hi.symm.trans hb')
    exact hb.1
  obtain ⟨hlt, rfl⟩ := List.getElem?_eq_some_iff.1 hi
  have hdrop := List.drop_eq_getElem_cons hlt
  refine ofOffset_lt_of_offMark hij hoff hdrop (fun hmark => ?_) hb.2
  obtain ⟨c, hc, hhigh⟩ := high_of_mark (hdrop ▸ hmark) (Nat.le_refl i) (by omega)
  obtain rfl := Option.some.inj (hi.symm.trans hc)
  exact absurd hb.1 (UInt8.not_lt.2 hhigh)

end Position

namespace Token

open Text (byte isDigit)

theorem moves_of_ofByte? (b : UInt8) : (Kind.ofByte? b).isSome → Position.Moves b := by
  revert b
  exact forall_byte (by decide +kernel)

theorem moves_of_isNameStart (b : UInt8) : isNameStart b → Position.Moves b := by
  revert b
  exact forall_byte (by decide +kernel)

theorem moves_of_number (b : UInt8) : (b = byte '-' || isDigit b) → Position.Moves b := by
  revert b
  exact forall_byte (by decide +kernel)

/-- A token of the language begins with a byte that moves. -/
theorem moves_of_tokenOfHead {b : UInt8} {rest : Text} (h : (tokenOfHead b rest).1 ≠ .unknown) :
    Position.Moves b := by
  generalize hr : tokenOfHead b rest = r at h
  cases tokenOfHead_cases hr with
  | punctuator hbyte => exact moves_of_ofByte? b (by rw [hbyte]; rfl)
  | ellipsis hdots =>
      have hdot : byte '.' = b := (List.cons_prefix_cons.1 (List.isPrefixOf_iff_prefix.1 hdots)).1
      rw [← hdot]
      decide
  | name hname => exact moves_of_isNameStart b hname
  | string hquote =>
      rw [hquote]
      decide
  | number hnumber => exact moves_of_number b hnumber
  | unknown => exact absurd rfl h

theorem exists_moves_of_mem_lexFrom {skip offset : Nat} {text : Text} {t : Token}
    (ht : t ∈ lexFrom skip offset text []) (hkind : t.kind ≠ .unknown) :
    ∃ i b, t.start = offset + i ∧ text[i]? = some b ∧ Position.Moves b := by
  obtain ⟨i, b, rest, hdrop, hstart, hhead, -⟩ := exists_head_of_mem_lexFrom ht
  refine ⟨i, b, hstart, ?_, moves_of_tokenOfHead (hhead ▸ hkind)⟩
  rw [← List.head?_drop, hdrop, List.head?_cons]

end Token

/-- A later token has a later position. -/
theorem ofOffset_lt_of_mem_lex {text : Text} {t : Token} (ht : t ∈ lex text)
    (hkind : t.kind ≠ .unknown) {j : Nat} (hj : t.start < j) :
    Position.ofOffset text t.start < Position.ofOffset text j := by
  obtain ⟨i, b, hstart, hi, hmoves⟩ := Token.exists_moves_of_mem_lexFrom ht hkind
  rw [Nat.zero_add] at hstart
  rw [hstart] at hj ⊢
  exact Position.ofOffset_lt_ofOffset hj hi hmoves

end SelectionCheck
