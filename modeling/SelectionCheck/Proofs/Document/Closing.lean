import SelectionCheck.Proofs.Document.Account
import SelectionCheck.Proofs.Document.Faults.TypeSystem

/-!
# Whether a closing bracket is taken

A list that finds its closing bracket ends in one of two ways. Either its items lead up to the
bracket, which is then taken. Or it stalls: an item takes no token, the list is given up, and the
search for the bracket ends before it. The bracket is kept in the document in both cases, but in the
second it is still the next token.

The main statement says that nothing else decides it, for every list of the language. It also says
what becomes of a bracket that is left over where definitions are read: it is refused, and no
definition behind it is read.
-/

namespace SelectionCheck.Grammar

variable {α : Type} {ts : List Token} {c : Cursor} {opener closer : Token.Kind} {rule : Rule}
  {item : Cursor → Reading (Option α)} {t : Token} {rest : List Token} {closing : Nat}

/-! ## The lists of the language -/

/-- The lists that documents are made of: their brackets, the rule that faults name, and the reader
of their items. -/
inductive ListForm : {α : Type} → (opener closer : Token.Kind) → Rule →
    (Cursor → Reading (Option α)) → Prop
  | selections (level : Nat) : ListForm .lbrace .rbrace .selection (selection level)
  | values (constant : Bool) (level : Nat) :
      ListForm .lbracket .rbracket .listValue fun c => (value constant level c).map some
  | objectFields (constant : Bool) (level : Nat) :
      ListForm .lbrace .rbrace .objectField (objectField (value constant level))
  | arguments (constant : Bool) (level : Nat) :
      ListForm .lparen .rparen .argument (argument constant level)
  | variableDefinitions (level : Nat) :
      ListForm .lparen .rparen .variableDefinition (variableDefinition level)
  | argumentDefinitions (level : Nat) :
      ListForm .lparen .rparen .inputValueDefinition (inputValueDefinition level)
  | inputFields (level : Nat) :
      ListForm .lbrace .rbrace .inputValueDefinition (inputValueDefinition level)
  | fields (level : Nat) : ListForm .lbrace .rbrace .fieldDefinition (fieldDefinition level)
  | enumValues (level : Nat) :
      ListForm .lbrace .rbrace .enumValueDefinition (enumValueDefinition level)
  | roots : ListForm .lbrace .rbrace .rootDefinition rootDefinition

namespace ListForm

theorem isCloser (h : ListForm opener closer rule item) : closer.isCloser = true := by
  cases h <;> rfl

theorem orderly (h : ListForm opener closer rule item) : Orderly item := by
  cases h with
  | selections level => exact (selectionsOrderly level).selection
  | values constant level => exact fun _ _ hc => (value_orderly constant level hc).map some
  | objectFields constant level => exact objectField_orderly (value_orderly constant level)
  | arguments constant level => exact argument_orderly constant level
  | variableDefinitions level => exact variableDefinition_orderly level
  | argumentDefinitions level | inputFields level => exact inputValueDefinition_orderly level
  | fields level => exact fieldDefinition_orderly level
  | enumValues level => exact enumValueDefinition_orderly level
  | roots => exact rootDefinition_orderly

theorem sound (h : ListForm opener closer rule item) : ∃ pieces, Sound item pieces := by
  cases h with
  | selections level => exact ⟨_, (selectionsSound level).selection⟩
  | values constant level => exact ⟨_, (valuesFaithful constant level).value.some⟩
  | objectFields constant level =>
      exact ⟨_, objectField_sound (valuesFaithful constant level).value⟩
  | arguments constant level => exact ⟨_, argument_sound constant level⟩
  | variableDefinitions level => exact ⟨_, variableDefinition_sound level⟩
  | argumentDefinitions level | inputFields level => exact ⟨_, inputValueDefinition_sound level⟩
  | fields level => exact ⟨_, fieldDefinition_sound level⟩
  | enumValues level => exact ⟨_, enumValueDefinition_sound level⟩
  | roots => exact ⟨_, rootDefinition_sound⟩

end ListForm

/-! ## Lists that stall -/

/-- Reading items from the cursor comes to one that takes no token, before a closing bracket. -/
inductive Stalls (closer : Token.Kind) (item : Cursor → Reading (Option α)) : Cursor → Prop
  | here {c : Cursor} {t : Token} {rest : List Token} (hahead : c.ahead = t :: rest)
      (hkind : t.kind ≠ closer) (hstill : (item c).next.behind = c.behind) : Stalls closer item c
  | later {c : Cursor} {t : Token} {rest : List Token} (hahead : c.ahead = t :: rest)
      (hkind : t.kind ≠ closer) (hmoved : (item c).next.behind ≠ c.behind)
      (h : Stalls closer item (item c).next) : Stalls closer item c

theorem not_stalls_of_closer (hahead : c.ahead = t :: rest) (hkind : t.kind = closer) :
    ¬ Stalls closer item c := by
  intro h
  cases h with
  | here hahead' hkind' _ | later hahead' hkind' _ _ =>
      rw [hahead] at hahead'
      cases hahead'
      exact hkind' hkind

theorem stalls_iff_of_moved (hahead : c.ahead = t :: rest) (hkind : t.kind ≠ closer)
    (hmoved : (item c).next.behind ≠ c.behind) :
    Stalls closer item c ↔ Stalls closer item (item c).next := by
  constructor
  · intro h
    cases h with
    | here _ _ hstill => exact absurd hstill hmoved
    | later _ _ _ h => exact h
  · exact .later hahead hkind hmoved

/-- The closing bracket that was found is the token at `place`; it is taken unless the list
stalled. -/
structure ClosesAt (ts : List Token) (closer : Token.Kind) (closing place : Nat) (t : Token)
    (stalled : Prop) (next : Cursor) : Prop where
  on : next.On ts
  getElem? : ts[place]? = some t
  kind : t.kind = closer
  start : t.start = closing
  left : stalled → next.behind = place
  taken : ¬ stalled → next.behind = place + 1

theorem ClosesAt.next_eq {place : Nat} {stalled : Prop} {next : Cursor}
    (h : ClosesAt ts closer closing place t stalled next) :
    (stalled → next = ⟨ts.drop place, place⟩) ∧
      (¬ stalled → next = ⟨ts.drop (place + 1), place + 1⟩) := by
  have hnext : next = ⟨ts.drop next.behind, next.behind⟩ := by rw [← h.on.ahead]
  constructor
  · intro hstalled
    rw [hnext, h.left hstalled]
  · intro hstalled
    rw [hnext, h.taken hstalled]

theorem ClosesAt.drop_eq {place : Nat} {stalled : Prop} {next : Cursor}
    (h : ClosesAt ts closer closing place t stalled next) :
    ts.drop place = t :: ts.drop (place + 1) := by
  rw [List.drop_eq_getElem?_toList_append, h.getElem?]
  rfl

theorem ClosesAt.start_lt_iff {place : Nat} {stalled : Prop} {next : Cursor}
    (h : ClosesAt ts closer closing place t stalled next)
    (hts : ts.Pairwise fun t u => t.start < u.start) :
    (∀ u ∈ next.ahead, closing < u.start) ↔ ¬ stalled := by
  constructor
  · intro hlater hstalled
    rw [h.next_eq.1 hstalled, h.drop_eq] at hlater
    exact absurd (hlater t List.mem_cons_self) (by rw [h.start]; exact Nat.lt_irrefl _)
  · intro hstalled
    have hdrop := hts.drop (i := place)
    rw [h.drop_eq] at hdrop
    rw [h.next_eq.2 hstalled, ← h.start]
    exact (List.pairwise_cons.1 hdrop).1

theorem itemsFrom_closesAt (hitem : Orderly item) (steps : List Token) (number : Nat)
    (items : List α) (faults : List Fault) (hc : c.On ts)
    (hclosing : closing ∈ (itemsFrom closer rule item steps number c items faults).value.2) :
    ∃ place t, ClosesAt ts closer closing place t (Stalls closer item c)
      (itemsFrom closer rule item steps number c items faults).next := by
  fun_induction itemsFrom closer rule item steps number c items faults with
  | case1 steps number c items faults hahead => cases hclosing
  | case2 steps number c items faults t rest hahead hkind =>
      cases hclosing
      refine ⟨c.behind, t, (hc.past hahead).on, ?_, hkind, rfl, ?_, fun _ => rfl⟩
      · rw [hc.getElem?, hahead, List.head?_cons]
      · exact fun h => absurd h (not_stalls_of_closer hahead hkind)
  | case3 steps number c items faults t rest hahead hkind r items' faults' hstill skipped =>
      have hlast : ∀ k ∈ [closer].getLast?, k = closer := by simp
      obtain ⟨before, u, after, -, hu, hstart, hnext⟩ := skipTo_found hlast hclosing
      have hon := (skipTo_reaches [closer] (hitem hc).on).1.on
      have hget := hon.getElem?
      rw [show (skipTo [closer] r.next.behind r.next.ahead).2.ahead = u :: after by rw [hnext],
        List.head?_cons] at hget
      exact ⟨_, u, hon, hget, hu, hstart, fun _ => rfl,
        fun h => absurd (.here hahead hkind hstill) h⟩
  | case4 number c items faults t rest hahead hkind r items' faults' hmoved => cases hclosing
  | case5 number c items faults t rest hahead hkind r items' faults' hmoved step steps ih =>
      rw [stalls_iff_of_moved hahead hkind hmoved]
      exact ih (hitem hc).on hclosing

/-- A list without faults does not stall: an item without faults takes a token. -/
theorem not_stalls_of_faults_eq_nil {pieces : α → List Piece} (hitem : Sound item pieces)
    {steps : List Token} {number : Nat} {items : List α} {faults : List Fault}
    (hsteps : c.ahead.length ≤ steps.length)
    (hfaults : (itemsFrom closer rule item steps number c items faults).faults = []) :
    ¬ Stalls closer item c := by
  intro h
  induction h generalizing steps number items faults with
  | here hahead hkind hstill =>
      obtain ⟨a, -, htakes⟩ := hitem _ ((faults_eq_nil_of_itemsFrom hfaults).2 _ _ hahead hkind)
      exact absurd hstill (Nat.ne_of_gt htakes.2)
  | later hahead hkind hmoved _ ih =>
      obtain ⟨a, -, htakes⟩ := hitem _ ((faults_eq_nil_of_itemsFrom hfaults).2 _ _ hahead hkind)
      have hlength := htakes.1.length_add_behind
      have htaken := htakes.2
      cases steps with
      | nil => simp [hahead] at hsteps
      | cons step steps =>
          rw [itemsFrom_of_moves hahead hkind hmoved] at hfaults
          rw [List.length_cons] at hsteps
          exact ih (by omega) hfaults

/-! ## A bracket that is left over -/

def strayFault (t : Token) : Fault :=
  (Fault.expected .stringOrKeyword (some t)).within (.rule .typeDefinition)

theorem definition_of_isCloser (hahead : c.ahead = t :: rest) (ht : t.kind.isCloser = true) :
    definition c = .refuse none (strayFault t) c := by
  have hother : ∀ k : Token.Kind, k.isCloser = false → t.kind ≠ k := by
    rintro k hk rfl
    rw [hk] at ht
    cases ht
  rw [definition_iff.2 (.refused hahead (hother .name rfl) (hother .lbrace rfl)
    (hother .string rfl)), hahead]
  rfl

theorem definitionsFrom_of_isCloser (hahead : c.ahead = t :: rest) (ht : t.kind.isCloser = true)
    (step : Token) (steps : List Token) (definitions : List Definition) (faults : List Fault) :
    definitionsFrom (step :: steps) c definitions faults =
      (definitions.reverse, faults.reverse ++ [strayFault t]) := by
  rw [definitionsFrom, definition_of_isCloser hahead ht]
  simp [Reading.refuse]

/-! ## Closed lists -/

theorem past_of_punctuator {kind : Token.Kind} {offset : Nat} {c' : Cursor}
    (h : punctuator kind c = .ok (offset, c')) : c' = c.past c.ahead.tail := by
  cases punctuator_iff.1 h with
  | found hahead => rw [hahead, List.tail_cons]

/-- A list that finds its closing bracket takes it if and only if it does not stall. A list that
stalls has a fault and leaves the bracket: it is the next token, and where definitions are read it
is refused and ends the document. -/
theorem bracketed_closing_taken_iff (hlist : ListForm opener closer rule item) (hc : c.On ts)
    {b : Bracketed α} {faults : List Fault} {next : Cursor}
    (hread : bracketed opener closer rule item c = ⟨some b, faults, next⟩)
    (hclosing : b.closing = some closing) :
    ∃ place t, ts[place]? = some t ∧ t.kind = closer ∧ t.start = closing ∧
      (¬ Stalls closer item (c.past c.ahead.tail) → next = ⟨ts.drop (place + 1), place + 1⟩) ∧
      (Stalls closer item (c.past c.ahead.tail) →
        faults ≠ [] ∧ next = ⟨ts.drop place, place⟩ ∧
          ∀ step steps definitions met, definitionsFrom (step :: steps) next definitions met =
            (definitions.reverse, met.reverse ++ [strayFault t])) ∧
      ((ts.Pairwise fun t u => t.start < u.start) →
        ((∀ u ∈ next.ahead, closing < u.start) ↔
          ¬ Stalls closer item (c.past c.ahead.tail))) := by
  generalize hr : bracketed opener closer rule item c = r at hread
  cases bracketed_iff.1 hr with
  | unopened => cases hread
  | opened hopening =>
      obtain ⟨hreaches, -⟩ := reaches_of_punctuator hc hopening
      obtain rfl := past_of_punctuator hopening
      cases hread
      obtain ⟨place, t, hcloses⟩ :=
        itemsFrom_closesAt hlist.orderly (c.past c.ahead.tail).ahead 1 [] [] hreaches.on hclosing
      obtain ⟨pieces, hsound⟩ := hlist.sound
      have ht : t.kind.isCloser = true := by
        rw [hcloses.kind]
        exact hlist.isCloser
      refine ⟨place, t, hcloses.getElem?, hcloses.kind, hcloses.start, hcloses.next_eq.2,
        fun hstalls => ⟨?_, hcloses.next_eq.1 hstalls, ?_⟩, hcloses.start_lt_iff⟩
      · exact fun hfaults => not_stalls_of_faults_eq_nil hsound (Nat.le_refl _) hfaults hstalls
      · have hahead : (itemsFrom closer rule item (c.past c.ahead.tail).ahead 1
            (c.past c.ahead.tail) [] []).next.ahead = t :: ts.drop (place + 1) := by
          rw [hcloses.next_eq.1 hstalls, hcloses.drop_eq]
        exact fun step steps => definitionsFrom_of_isCloser hahead ht step steps

/-- The list of roots in `schema { query: Q ! }`. -/
def stalledRoots : List Token :=
  [⟨.lbrace, "\x7b", 7⟩, ⟨.name, "query", 9⟩, ⟨.colon, ":", 14⟩, ⟨.name, "Q", 16⟩, ⟨.bang, "!", 18⟩,
    ⟨.rbrace, "\x7d", 20⟩]

theorem bracketed_stalledRoots :
    Stalls .rbrace rootDefinition ⟨stalledRoots.drop 1, 1⟩ ∧
      ∃ b faults next, bracketed .lbrace .rbrace .rootDefinition rootDefinition
          (.ofTokens stalledRoots) = ⟨some b, faults, next⟩ ∧ b.closing = some 20 ∧
        ¬ ∀ u ∈ next.ahead, 20 < u.start := by
  have hstalls : Stalls .rbrace rootDefinition ⟨stalledRoots.drop 1, 1⟩ :=
    .later rfl (by decide) (by decide) (.here rfl (by decide) rfl)
  refine ⟨hstalls, _, _, _, rfl, rfl, ?_⟩
  obtain ⟨place, t, -, -, -, -, -, hlater⟩ :=
    bracketed_closing_taken_iff .roots (Cursor.on_ofTokens stalledRoots) rfl rfl
  exact fun h => (hlater (by decide)).1 h hstalls

def stalledArguments : Text :=
  "\x7b f(a: 1 !) \x7d fragment F on T \x7b h \x7d"

/-- The arguments keep the offset of the parenthesis that closes them, and the parenthesis is still
the next token. It is reported in its turn, and so is the brace behind it; the fragment is not
read. -/
theorem bracketed_stalledArguments :
    ((bracketed .lparen .rparen .argument (argument false partLevel)
        ⟨(lex stalledArguments).drop 2, 2⟩).value.bind (·.closing) = some 10 ∧
      (bracketed .lparen .rparen .argument (argument false partLevel)
        ⟨(lex stalledArguments).drop 2, 2⟩).next.ahead.head?.map Token.start = some 10) ∧
    (parse stalledArguments).errors.map (·.offset? stalledArguments.length) =
      [some 9, some 10, some 12] ∧
    (parse stalledArguments).document.map (·.definitions.length) = some 1 := by
  decide +kernel

end SelectionCheck.Grammar
