import SelectionCheck.Proofs.Token.Separated

/-!
# Tokens with single spaces between them

A word is the kind and the text of a token. A word is proper if its text, taken alone, splits into
one token of its kind without errors. Proper words written with single spaces between them split
into themselves again, with one exception: a block string that does not close.

The exception is not harmless. If a block string that does not close stands anywhere but at the
end, the string tokens of the text are not those that were written.
-/

namespace SelectionCheck

structure Word where
  kind : Token.Kind
  text : Text
deriving DecidableEq, Repr

def Token.word (t : Token) : Word := ⟨t.kind, t.text⟩

/-! ## Words -/

namespace Word

def token (w : Word) (start : Nat) : Token := ⟨w.kind, w.text, start⟩

/-- Whether the text, taken alone, is one token of the word's kind without errors. -/
def isProper (w : Word) : Bool :=
  lex w.text = [w.token 0] && (w.token 0).errors = []

theorem isProper_iff {w : Word} :
    w.isProper = true ↔ lex w.text = [w.token 0] ∧ (w.token 0).errors = [] := by
  simp [isProper]

/-- Whether the word is anything but a block string that does not close. -/
def closes (w : Word) : Bool :=
  w.kind ≠ .string || !Text.startsWith Token.blockQuotes w.text ||
    Token.closesBlock (w.text.drop 3)

/-- The text, taken alone, is one token of the word's kind. -/
def Lone (w : Word) : Prop :=
  ∃ b tail, w.text = b :: tail ∧ Token.Lexeme.ofHead b tail = .token w.kind (tail.length + 1)

def Faultless (w : Word) : Prop :=
  w.kind = .string → Token.stringFaults w.text = []

theorem isProper.faultless {w : Word} (h : w.isProper = true) : w.Faultless := by
  intro hstring
  simpa [Token.errors, token, hstring] using (isProper_iff.1 h).2

/-- What a proper word begins with is one lexeme that takes all of it. -/
theorem isProper.lone {w : Word} (h : w.isProper = true) : w.Lone := by
  have hlex := (isProper_iff.1 h).1
  obtain ⟨kind, text⟩ := w
  simp only [token] at hlex
  cases text with
  | nil => cases hlex
  | cons b tail =>
      rw [lex, Token.lexFrom] at hlex
      cases hhead : Token.Lexeme.ofHead b tail with
      | ignored length =>
          -- What follows something ignored does not begin at offset zero.
          simp only [hhead] at hlex
          have hsplits := Token.splits_lexFrom (length - 1) (0 + 1) tail
          have hstart := hsplits.lexed.2 ⟨kind, b :: tail, 0⟩
            (by rw [hlex]; exact List.mem_cons_self)
          exact absurd hstart (Nat.not_succ_le_zero 0)
      | token kind' n =>
          simp only [hhead] at hlex
          rw [Token.lexFrom_eq_append] at hlex
          obtain ⟨htoken, -⟩ := List.cons.inj hlex
          simp only [Token.mk.injEq] at htoken
          obtain ⟨rfl, htake, -⟩ := htoken
          have hle := Token.tokenOfHead_le b tail
          rw [Token.tokenOfHead_of_ofHead hhead] at hle
          have hlength := congrArg List.length htake
          rw [List.length_take, List.length_cons] at hlength
          have hn : n = tail.length + 1 := by omega
          exact ⟨b, tail, rfl, hn ▸ hhead⟩

variable {rest : Text}

theorem lexFrom_append {w : Word} (h : w.Lone) (hfaults : w.Faultless) (hcloses : w.closes = true)
    (hrest : Separated rest) (offset : Nat) :
    Token.lexFrom 0 offset (w.text ++ rest) [] =
      w.token offset :: Token.lexFrom 0 (offset + w.text.length) rest [] := by
  obtain ⟨b, tail, htext, hhead⟩ := h
  have htoken := Token.tokenOfHead_of_ofHead hhead
  have hstring : b = 0x22 →
      Token.stringLength (b :: tail ++ rest) = Token.stringLength (b :: tail) := by
    rintro rfl
    obtain ⟨hkind, hlength⟩ := Prod.mk.inj htoken
    apply Token.stringLength_append hrest
    · rw [hlength, List.take_succ_cons, List.take_length, ← htext]
      exact hfaults hkind.symm
    · intro hblock
      simpa [closes, ← hkind, htext, hblock] using hcloses
  have hlexeme : Token.Lexeme.ofHead b (tail ++ rest) = .token w.kind (tail.length + 1) := by
    rw [← hhead]
    refine Token.ofHead_append hrest ?_ hstring
    rintro rfl
    cases hhead
  rw [htext, List.cons_append, Token.lexFrom_of_token hlexeme, ← List.cons_append,
    List.take_left' (by simp), List.drop_left' (by simp), token, htext, List.length_cons]

/-- A block string that does not close and has something behind it is read as a longer string. -/
theorem lexFrom_append_of_not_closes {w : Word} (hcloses : w.closes = false) (more : Text)
    (offset : Nat) :
    w.kind = .string ∧ ∃ text ts, w.text.length < text.length ∧
      Token.lexFrom 0 offset (w.text ++ 0x20 :: more) [] = ⟨.string, text, offset⟩ :: ts := by
  simp only [closes, Bool.or_eq_false_iff, decide_eq_false_iff_not, Decidable.not_not,
    Bool.not_eq_false'] at hcloses
  obtain ⟨⟨hkind, hblock⟩, hopen⟩ := hcloses
  refine ⟨hkind, ?_⟩
  obtain ⟨content, htext⟩ := Token.startsWith_blockQuotes_iff.1 hblock
  have hlength := Token.lt_blockLength_append 3 0x22 hopen more
  rw [htext, List.drop_succ_cons, List.drop_succ_cons, List.drop_succ_cons, List.drop_zero]
    at hlength
  obtain ⟨length, hn⟩ := Nat.exists_eq_add_of_lt hlength
  have hhead : Token.Lexeme.ofHead 0x22 (0x22 :: 0x22 :: (content ++ 0x20 :: more)) =
      .token .string (3 + content.length + length + 1) := by
    rw [← hn]
    rfl
  rw [htext]
  refine ⟨_, _, ?_, Token.lexFrom_of_token hhead offset⟩
  simp only [List.length_take, List.length_cons, List.length_append]
  omega

/-! ## Words with spaces between them -/

def spaced (ws : List Word) : Text :=
  Text.join " " (ws.map Word.text)

theorem spaced_cons_cons (w next : Word) (ws : List Word) :
    spaced (w :: next :: ws) = w.text ++ 0x20 :: spaced (next :: ws) :=
  Text.join_cons_cons " " w.text next.text (ws.map Word.text)

theorem lexFrom_space (offset : Nat) (text : Text) :
    Token.lexFrom 0 offset (0x20 :: text) [] = Token.lexFrom 0 (offset + 1) text [] := rfl

/-- Each of the words is one token, no string has faults, and all but the last close. -/
inductive Legible : List Word → Prop
  | nil : Legible []
  | cons {w : Word} {ws : List Word} (hlone : w.Lone) (hfaults : w.Faultless)
      (hcloses : ws ≠ [] → w.closes = true) (h : Legible ws) : Legible (w :: ws)

theorem Lone.lexFrom {w : Word} (h : w.Lone) (offset : Nat) :
    Token.lexFrom 0 offset w.text [] = [w.token offset] := by
  obtain ⟨b, tail, htext, hhead⟩ := h
  rw [htext, Token.lexFrom_of_token hhead, List.take_succ_cons, List.take_length, ← htext,
    List.drop_of_length_le (by rw [htext]; exact Nat.le_refl _)]
  rfl

/-- Legible words are the tokens of the text in which they are written. -/
theorem Legible.lexFrom_spaced {ws : List Word} (h : Legible ws) (offset : Nat) :
    (Token.lexFrom 0 offset (spaced ws) []).map Token.word = ws := by
  induction h generalizing offset with
  | nil => rfl
  | @cons w ws hlone hfaults hcloses h ih =>
      cases ws with
      | nil =>
          rw [spaced, List.map_singleton, Text.join_singleton, hlone.lexFrom]
          rfl
      | cons next ws =>
          rw [spaced_cons_cons, lexFrom_append hlone hfaults (hcloses (List.cons_ne_nil _ _))
            (separated_space _), lexFrom_space, List.map_cons, ih]
          rfl

theorem legible_of_isProper {ws : List Word} (hproper : ∀ w ∈ ws, w.isProper = true)
    (hcloses : ∀ w ∈ ws, w.closes = true) : Legible ws := by
  induction ws with
  | nil => exact .nil
  | cons w ws ih =>
      have hw := hproper w List.mem_cons_self
      exact .cons (isProper.lone hw) (isProper.faultless hw)
        (fun _ => hcloses w List.mem_cons_self)
        (ih (fun v hv => hproper v (List.mem_cons_of_mem w hv))
          (fun v hv => hcloses v (List.mem_cons_of_mem w hv)))

def strings (ws : List Word) : List Text :=
  (ws.filter (·.kind = .string)).map Word.text

@[simp]
theorem strings_nil : strings [] = [] := rfl

@[simp]
theorem strings_cons (w : Word) (ws : List Word) :
    strings (w :: ws) = if w.kind = .string then w.text :: strings ws else strings ws := by
  by_cases hkind : w.kind = .string
  · simp [strings, hkind]
  · simp [strings, hkind]

@[simp]
theorem strings_append (ws vs : List Word) : strings (ws ++ vs) = strings ws ++ strings vs := by
  simp [strings]

/-- If the strings of a text are those that were written, then every block string but the last word
closes. -/
theorem closes_of_strings_eq {ws : List Word} (hproper : ∀ w ∈ ws, w.isProper = true)
    (hlast : ∀ w ∈ ws.getLast?, w.kind ≠ .string) {offset : Nat}
    (h : strings ((Token.lexFrom 0 offset (spaced ws) []).map Token.word) = strings ws) :
    ∀ w ∈ ws, w.closes = true := by
  induction ws generalizing offset with
  | nil => exact fun w hw => by cases hw
  | cons w ws ih =>
      cases ws with
      | nil =>
          have hkind := hlast w rfl
          simp [closes, hkind]
      | cons next ws =>
          have hc : w.closes = true := by
            cases hopen : w.closes with
            | true => rfl
            | false =>
                obtain ⟨hkind, text, ts, hlength, hlex⟩ :=
                  lexFrom_append_of_not_closes hopen (spaced (next :: ws)) offset
                rw [spaced_cons_cons, hlex] at h
                simp only [strings, List.map_cons, Token.word, List.filter_cons, hkind,
                  decide_true, if_true, List.cons.injEq] at h
                rw [h.1] at hlength
                exact absurd hlength (Nat.lt_irrefl _)
          have hproper' := hproper w List.mem_cons_self
          rw [spaced_cons_cons, lexFrom_append (isProper.lone hproper')
            (isProper.faultless hproper') hc (separated_space _), lexFrom_space] at h
          have htail : strings ((Token.lexFrom 0 (offset + w.text.length + 1)
              (spaced (next :: ws)) []).map Token.word) = strings (next :: ws) := by
            by_cases hkind : w.kind = .string
            · simpa [strings, Token.word, token, hkind] using h
            · simpa [strings, Token.word, token, hkind] using h
          have hrest := ih (fun v hv => hproper v (List.mem_cons_of_mem w hv))
            (fun v hv => hlast v (by rw [List.getLast?_cons_cons]; exact hv)) htail
          intro v hv
          rcases List.mem_cons.1 hv with rfl | hv
          · exact hc
          · exact hrest v hv

end Word

end SelectionCheck
