import SelectionCheck.Proofs.Document.Reads
import SelectionCheck.Proofs.Document.WellFormed

/-!
# What a reader accepts

`Accepts reader ws follow P` says that a reader in front of the words `ws` takes exactly these
words, without faults, and gives a value with the property `P`; what stands behind them must not
begin with a kind in `follow`. The kinds in `follow` are those with which the reader would go on: a
reader of directives goes on at an at sign and, behind the name of a directive, at a parenthesis.

In a list, what stands behind an item is the next item or the closing bracket. So it is enough to
know with which kinds an item can begin, and that none of them is in `follow`.
-/

namespace SelectionCheck

variable {α β : Type}

/-! ## Words ahead -/

def Cursor.words (c : Cursor) : List Word := c.ahead.map Token.word

theorem Cursor.length_words (c : Cursor) : c.words.length = c.ahead.length :=
  List.length_map Token.word

theorem Cursor.exists_of_words {c : Cursor} {w : Word} {rest : List Word}
    (h : c.words = w :: rest) :
    ∃ t ts, c.ahead = t :: ts ∧ t.kind = w.kind ∧ t.text = w.text ∧ (c.past ts).words = rest := by
  obtain ⟨t, ts, hahead, hword, hrest⟩ := List.map_eq_cons_iff.1 h
  exact ⟨t, ts, hahead, congrArg Word.kind hword, congrArg Word.text hword, hrest⟩

/-- The next word, if there is one, is of none of the kinds. -/
def Clear (kinds : List Token.Kind) (ws : List Word) : Prop :=
  ∀ w ∈ ws.head?, w.kind ∉ kinds

/-- There is a next word, and it is of one of the kinds. -/
def Begins (kinds : List Token.Kind) (ws : List Word) : Prop :=
  ∃ w ∈ ws.head?, w.kind ∈ kinds

theorem clear_nil (ws : List Word) : Clear [] ws := fun _ _ => List.not_mem_nil

theorem clear_word (kind : Token.Kind) {kinds : List Token.Kind} (h : kind ∉ kinds) {text : Text}
    {ws : List Word} : Clear kinds (⟨kind, text⟩ :: ws) := by
  intro v hv
  rw [← Option.some.inj hv]
  exact h

theorem Clear.mono {kinds more : List Token.Kind} {ws : List Word} (h : Clear more ws)
    (hsub : ∀ kind ∈ kinds, kind ∈ more) : Clear kinds ws :=
  fun w hw hkind => h w hw (hsub w.kind hkind)

theorem Begins.exists_cons {kinds : List Token.Kind} {ws : List Word} (h : Begins kinds ws) :
    ∃ w rest, ws = w :: rest ∧ w.kind ∈ kinds := by
  obtain ⟨w, hw, hkind⟩ := h
  obtain ⟨rest, hrest⟩ := List.head?_eq_some_iff.1 hw
  exact ⟨w, rest, hrest, hkind⟩

theorem begins_word (kind : Token.Kind) {kinds : List Token.Kind} (h : kind ∈ kinds) {text : Text}
    {ws : List Word} : Begins kinds (⟨kind, text⟩ :: ws) := ⟨⟨kind, text⟩, rfl, h⟩

theorem Begins.clear_append {heads kinds : List Token.Kind} {ws : List Word} (h : Begins heads ws)
    (hdisjoint : ∀ kind ∈ heads, kind ∉ kinds) (rest : List Word) : Clear kinds (ws ++ rest) := by
  obtain ⟨w, tail, rfl, hkind⟩ := h.exists_cons
  exact clear_word w.kind (hdisjoint w.kind hkind)

theorem clear_optional {kinds : List Token.Kind} (kind : Token.Kind) (hkind : kind ∉ kinds)
    {o : Option α} {pieces : α → List Piece}
    (hhead : ∀ a ∈ o, Begins [kind] (words (pieces a))) {rest : List Word}
    (hclear : Clear kinds rest) : Clear kinds (words (o.elim [] pieces) ++ rest) := by
  cases o with
  | none => exact hclear
  | some a =>
      exact (hhead a rfl).clear_append (fun k hk => by rwa [List.mem_singleton.1 hk]) rest

theorem clear_flatMap {kinds : List Token.Kind} (kind : Token.Kind) (hkind : kind ∉ kinds)
    {items : List α} {pieces : α → List Piece}
    (hhead : ∀ a ∈ items, Begins [kind] (words (pieces a))) {rest : List Word}
    (hclear : Clear kinds rest) : Clear kinds (words (items.flatMap pieces) ++ rest) := by
  cases items with
  | nil => exact hclear
  | cons a items =>
      rw [List.flatMap_cons, words_append, List.append_assoc]
      exact (hhead a List.mem_cons_self).clear_append
        (fun k hk => by rwa [List.mem_singleton.1 hk]) _

namespace Grammar

variable {c : Cursor} {rest : List Word} {follow : List Token.Kind}

theorem name_of_words {text : Text} (h : c.words = ⟨.name, text⟩ :: rest) :
    ∃ start c', name c = .ok (⟨text, start⟩, c') ∧ c'.words = rest := by
  obtain ⟨t, ts, hahead, hkind, htext, hrest⟩ := Cursor.exists_of_words h
  refine ⟨t.start, c.past ts, ?_, hrest⟩
  rw [name_of_kind hahead hkind, htext]

theorem punctuator_of_words {kind : Token.Kind} {text : Text}
    (h : c.words = ⟨kind, text⟩ :: rest) :
    ∃ offset c', punctuator kind c = .ok (offset, c') ∧ c'.words = rest := by
  obtain ⟨t, ts, hahead, hkind, -, hrest⟩ := Cursor.exists_of_words h
  exact ⟨t.start, c.past ts, punctuator_of_kind hahead hkind, hrest⟩

theorem kind?_eq_head? (c : Cursor) : c.kind? = c.words.head?.map Word.kind := by
  rw [Cursor.kind?, Cursor.words]
  cases c.ahead with
  | nil => rfl
  | cons t ts => rfl

theorem punctuator_of_clear (h : Clear follow c.words) {kind : Token.Kind} (hkind : kind ∈ follow) :
    ∃ fault, punctuator kind c = .error fault := by
  cases hr : punctuator kind c with
  | error fault => exact ⟨fault, rfl⟩
  | ok taken =>
      cases punctuator_iff.1 hr with
      | found hahead ht =>
          exact absurd (ht ▸ hkind) (h _ (by rw [Cursor.words, hahead]; rfl))

/-! ## Accepting -/

/-- A reading without faults, with a value as described, that ends before the words `rest`. -/
structure Gives (r : Reading α) (P : α → Prop) (rest : List Word) : Prop where
  faults : r.faults = []
  value : P r.value
  words : r.next.words = rest

/-- The reader takes the words and gives a value as described, if what follows does not begin with
one of the kinds in `follow`. -/
def Accepts (reader : Cursor → Reading α) (ws : List Word) (follow : List Token.Kind)
    (P : α → Prop) : Prop :=
  ∀ c rest, c.words = ws ++ rest → Clear follow rest → Gives (reader c) P rest

/-- The reader takes the words that spell `a`, and gives `a` up to offsets. -/
def Returns (reader : Cursor → Reading (Option α)) (pieces : α → List Piece) (erase : α → β)
    (follow : List Token.Kind) (a : α) : Prop :=
  Accepts reader (words (pieces a)) follow fun v => v.map erase = some (erase a)

theorem Gives.imp {r : Reading α} {P Q : α → Prop} (h : Gives r P rest) (hPQ : ∀ a, P a → Q a) :
    Gives r Q rest :=
  ⟨h.faults, hPQ _ h.value, h.words⟩

theorem Gives.map {r : Reading α} {P : α → Prop} {Q : β → Prop} {f : α → β}
    (h : Gives r P rest) (hf : ∀ a, P a → Q (f a)) : Gives (r.map f) Q rest :=
  ⟨h.faults, hf _ h.value, h.words⟩

theorem Gives.within {r : Reading α} {P : α → Prop} (h : Gives r P rest) (context : Context) :
    Gives (r.within context) P rest :=
  ⟨(Reading.faults_within context r).2 h.faults, h.value, h.words⟩

theorem Accepts.weaken {reader : Cursor → Reading α} {ws : List Word} {P : α → Prop}
    (h : Accepts reader ws [] P) : Accepts reader ws follow P :=
  fun c rest hwords _ => h c rest hwords (clear_nil rest)

theorem Accepts.some {reader : Cursor → Reading α} {ws : List Word} {erase : α → β} {a : α}
    (h : Accepts reader ws follow fun v => erase v = erase a) :
    Accepts (fun c => (reader c).map some) ws follow fun v => v.map erase = some (erase a) :=
  fun c rest hwords hclear =>
    (h c rest hwords hclear).map fun _ herase => congrArg Option.some herase

/-- A part that may be left out, and whose first token tells whether it is there. -/
theorem whenNext_accepts {kind : Token.Kind} {reader : Cursor → Reading (Option α)}
    {pieces : α → List Piece} {erase : α → β} {o : Option α}
    (hsome : ∀ a ∈ o, Returns reader pieces erase follow a)
    (hhead : ∀ a ∈ o, Begins [kind] (words (pieces a))) (hkind : kind ∈ follow) :
    Accepts (whenNext kind reader) (words (o.elim [] pieces)) follow fun v =>
      v.map erase = o.map erase := by
  intro c rest hwords hclear
  rw [whenNext, kind?_eq_head?]
  cases o with
  | none =>
      have hnext : ¬ c.words.head?.map Word.kind = some kind := by
        rw [hwords]
        intro hnext
        obtain ⟨w, hw, rfl⟩ := Option.map_eq_some_iff.1 hnext
        exact hclear w hw hkind
      rw [if_neg hnext]
      exact ⟨rfl, rfl, hwords⟩
  | some a =>
      obtain ⟨w, ws, hw, hmem⟩ := (hhead a rfl).exists_cons
      have hnext : c.words.head?.map Word.kind = some kind := by
        rw [hwords, Option.elim_some, hw, List.cons_append, List.head?_cons, Option.map_some,
          List.mem_singleton.1 hmem]
      rw [if_pos hnext]
      exact hsome a rfl c rest hwords hclear

/-! ## Bracketed lists -/

section Bracketed

variable {opener closer : Token.Kind} {rule list : Rule} {item : Cursor → Reading (Option α)}
  {pieces : α → List Piece} {erase : α → β} {heads : List Token.Kind}

/-- The items up to a closing bracket. What stands behind an item is the next one or the bracket. -/
theorem itemsFrom_gives (hsound : Sound item pieces) {items : List α}
    (hitem : ∀ a ∈ items, Returns item pieces erase follow a)
    (hheads : ∀ a ∈ items, Begins heads (words (pieces a)))
    (hcloser : closer ∉ heads) (hfollow : ∀ kind ∈ closer :: heads, kind ∉ follow)
    {steps : List Token} {number : Nat} {c : Cursor} {before : List α} {text : Text}
    (hsteps : c.ahead.length ≤ steps.length)
    (hwords : c.words = words (items.flatMap pieces) ++ ⟨closer, text⟩ :: rest) :
    Gives (itemsFrom closer rule item steps number c before [])
      (fun v => v.1.map erase = before.reverse.map erase ++ items.map erase ∧ v.2.isSome = true)
      rest := by
  induction items generalizing steps number c before with
  | nil =>
      obtain ⟨t, ts, hahead, hkind, -, hrest⟩ := Cursor.exists_of_words hwords
      rw [itemsFrom_of_closer hahead hkind]
      exact ⟨rfl, by simp, hrest⟩
  | cons a items ih =>
      rw [List.flatMap_cons, words_append, List.append_assoc] at hwords
      have hclear : Clear follow (words (items.flatMap pieces) ++ ⟨closer, text⟩ :: rest) := by
        cases items with
        | nil => exact clear_word closer (hfollow closer List.mem_cons_self)
        | cons b items =>
            rw [List.flatMap_cons, words_append, List.append_assoc]
            exact (hheads b (by simp)).clear_append
              (fun kind hkind => hfollow kind (List.mem_cons_of_mem closer hkind)) _
      have hgives := hitem a List.mem_cons_self c _ hwords hclear
      obtain ⟨a', -, htakes⟩ := hsound c hgives.faults
      have hlength := htakes.1.length_add_behind
      have hmoves := htakes.2
      obtain ⟨w, ws, hw, hhead⟩ := (hheads a List.mem_cons_self).exists_cons
      rw [hw, List.cons_append] at hwords
      obtain ⟨t, ts, hahead, hkind, -, -⟩ := Cursor.exists_of_words hwords
      have hopen : t.kind ≠ closer := by
        rw [hkind]
        rintro rfl
        exact hcloser hhead
      cases steps with
      | nil => rw [hahead] at hsteps; cases hsteps
      | cons step steps =>
          rw [itemsFrom_of_moves hahead hopen (Nat.ne_of_gt hmoves), hgives.faults]
          rw [List.length_cons] at hsteps
          refine (ih (fun b hb => hitem b (List.mem_cons_of_mem a hb))
            (fun b hb => hheads b (List.mem_cons_of_mem a hb)) (by omega) hgives.words).imp ?_
          rintro v ⟨hitems, hclosing⟩
          refine ⟨?_, hclosing⟩
          obtain ⟨a'', hvalue, herase⟩ := Option.map_eq_some_iff.1 hgives.value
          rw [hitems, hvalue]
          simp [herase]

theorem bracketed_returns (hsound : Sound item pieces) {b : Bracketed α}
    (hclosing : b.closing.isSome = true)
    (hitem : ∀ a ∈ b.items, Returns item pieces erase follow a)
    (hheads : ∀ a ∈ b.items, Begins heads (words (pieces a)))
    (hcloser : closer ∉ heads) (hfollow : ∀ kind ∈ closer :: heads, kind ∉ follow) :
    Returns (bracketed opener closer rule item) (Bracketed.pieces opener closer pieces)
      (Bracketed.erase erase) [] b := by
  intro c rest hwords _
  rw [Bracketed.pieces, words_mark, words_append, List.cons_append, List.append_assoc] at hwords
  obtain ⟨opening, c₁, hopening, hrest⟩ := punctuator_of_words hwords
  have hgives : Gives (itemsFrom closer rule item c₁.ahead 1 c₁ [] []) _ rest :=
    itemsFrom_gives hsound hitem hheads hcloser hfollow (Nat.le_refl _) hrest
  rw [bracketed_iff.2 (.opened hopening)]
  refine hgives.map ?_
  rintro ⟨items, closing⟩ ⟨hitems, hfound⟩
  obtain ⟨offset, rfl⟩ := Option.isSome_iff_exists.1 hfound
  obtain ⟨offset', hoffset⟩ := Option.isSome_iff_exists.1 hclosing
  simp only [List.reverse_nil, List.map_nil, List.nil_append] at hitems
  simp [Bracketed.erase, hitems, hoffset]

/-- A bracketed list that has an item is accepted also where an item is demanded. -/
theorem nonEmpty_returns {item : Nat → Cursor → Reading (Option α)} {height : α → Nat}
    {grammatical : α → Bool} {level : Nat} {b : Bracketed α} (hb : b.isFilled grammatical = true)
    (hlevel : 1 + tallest height b.items ≤ level) (hsound : ∀ level, Sound (item level) pieces)
    (hitem : ∀ {level a}, grammatical a = true → height a ≤ level →
      Returns (item level) pieces erase follow a)
    (hheads : ∀ a, Begins heads (words (pieces a)))
    (hcloser : closer ∉ heads) (hfollow : ∀ kind ∈ closer :: heads, kind ∉ follow) :
    Returns (nonEmpty opener closer list rule item level) (Bracketed.pieces opener closer pieces)
      (Bracketed.erase erase) [] b := by
  obtain ⟨level, rfl⟩ : ∃ n, level = n + 1 := ⟨level - 1, by omega⟩
  obtain ⟨hne, hclosing, hall⟩ := Bracketed.isFilled_iff.1 hb
  have hreturns : ∀ a ∈ b.items, Returns (item level) pieces erase follow a := by
    intro a ha
    have hheight : height a ≤ tallest height b.items := le_tallest ha
    exact hitem (hall a ha) (by omega)
  intro c rest hwords hclear
  have hgives : Gives (bracketed opener closer rule (item level) c) _ rest :=
    bracketed_returns (hsound level) hclosing hreturns (fun a _ => hheads a) hcloser hfollow c rest
      hwords hclear
  rw [nonEmpty]
  refine ⟨?_, hgives.value, hgives.words⟩
  rw [(hgives.within (.rule list)).faults, List.nil_append, Reading.value_within]
  obtain ⟨b', hvalue, herase⟩ := Option.map_eq_some_iff.1 hgives.value
  rw [hvalue]
  have hitems : b'.items ≠ [] := by
    intro hnil
    have hmap : b'.items.map erase = b.items.map erase := congrArg Bracketed.items herase
    rw [hnil, List.map_nil] at hmap
    exact hne (List.map_eq_nil_iff.1 hmap.symm)
  obtain ⟨opening, items, closing⟩ := b'
  cases items with
  | nil => exact absurd rfl hitems
  | cons a items => rfl

end Bracketed

end Grammar

end SelectionCheck
