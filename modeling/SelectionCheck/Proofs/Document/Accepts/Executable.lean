import SelectionCheck.Proofs.Document.Accepts.Operand
import SelectionCheck.Proofs.Document.Reads.Executable

/-!
# Accepting operations and fragments

Words that look like keywords are names wherever a name is wanted, with two exceptions: behind an
ellipsis the word `on` begins a type condition, and so it is no name of a fragment. What follows a
field must not look like more of it; the next selection and the closing brace do not.
-/

namespace SelectionCheck.Grammar

variable {c : Cursor} {rest : List Word}

theorem begins_directive (d : Directive) : Begins [.atSign] (words d.pieces) :=
  begins_word .atSign List.mem_cons_self

theorem begins_bracketed {α : Type} {opener : Token.Kind} (closer : Token.Kind)
    (item : α → List Piece) (b : Bracketed α) :
    Begins [opener] (words (Bracketed.pieces opener closer item b)) :=
  begins_word opener List.mem_cons_self

/-! ## Selections -/

theorem typeCondition_of_words {level : Nat} (hlevel : 1 ≤ level) {condition : TypeCondition}
    (hwords : c.words = words condition.pieces ++ rest) :
    ∃ condition' c', typeCondition level c = .ok (condition', c') ∧
      condition'.erase = condition.erase ∧ c'.words = rest := by
  obtain ⟨level, rfl⟩ : ∃ n, level = n + 1 := ⟨level - 1, by omega⟩
  rw [TypeCondition.pieces, words_lexeme, words_name] at hwords
  obtain ⟨t, ts, hahead, hkind, htext, hrest⟩ := Cursor.exists_of_words hwords
  obtain ⟨start, c₁, hname, h₁⟩ := name_of_words hrest
  have hword := Token.isWord_iff.2 ⟨hkind, htext⟩
  exact ⟨⟨t.start, condition.name.value, start⟩, c₁,
    typeCondition_iff.2 (.whole hahead hword hname), rfl, h₁⟩

/-- A type condition, or the absence of one where no name follows. -/
theorem inlineCondition_of_words {level : Nat} (hlevel : 1 ≤ level)
    {condition : Option TypeCondition}
    (hwords : c.words = words (condition.elim [] TypeCondition.pieces) ++ rest)
    (hclear : Clear [.name] rest) :
    ∃ condition' c', inlineCondition level c = .ok (condition', c') ∧
      condition'.map TypeCondition.erase = condition.map TypeCondition.erase ∧
      c'.words = rest := by
  cases condition with
  | none =>
      refine ⟨none, c, inlineCondition_iff.2 (.absent fun t ht => ?_), rfl, hwords⟩
      have hhead : t.word ∈ rest.head? := by
        rw [← show c.words = rest from hwords, Cursor.words, List.head?_map, ht]
        rfl
      refine Bool.eq_false_iff.2 fun hword => ?_
      exact hclear t.word hhead (List.mem_singleton.2 (Token.isWord_iff.1 hword).1)
  | some condition =>
      rw [Option.elim_some] at hwords
      obtain ⟨condition', c₁, hcondition, herase, h₁⟩ := typeCondition_of_words hlevel hwords
      rw [TypeCondition.pieces, words_lexeme] at hwords
      obtain ⟨t, ts, hahead, hkind, htext, -⟩ := Cursor.exists_of_words hwords
      have hword := Token.isWord_iff.2 ⟨hkind, htext⟩
      exact ⟨some condition', c₁, inlineCondition_iff.2 (.whole hahead hword hcondition),
        congrArg some herase, h₁⟩

/-- The name of a field behind its alias, or the name alone where no colon follows. -/
theorem fieldName_of_words {aliasName : Option Name} {n : Name}
    (hwords : c.words = words (aliasPieces aliasName) ++ ⟨.name, n.value⟩ :: rest)
    (hclear : Clear [.colon] rest) :
    ∃ aliasName' n' c', fieldName c = .ok ((aliasName', n'), c') ∧
      aliasName'.map Name.erase = aliasName.map Name.erase ∧ n'.erase = n.erase ∧
      c'.words = rest := by
  cases aliasName with
  | none =>
      obtain ⟨start, c₁, hname, h₁⟩ := name_of_words hwords
      have hclear' : Clear [.colon] c₁.words := by rw [h₁]; exact hclear
      obtain ⟨fault, hfault⟩ := punctuator_of_clear hclear' List.mem_cons_self
      exact ⟨none, ⟨n.value, start⟩, c₁, fieldName_iff.2 (.plain hname hfault), rfl, rfl, h₁⟩
  | some key =>
      rw [aliasPieces, words_name, words_separator] at hwords
      obtain ⟨first, c₁, hfirst, h₁⟩ := name_of_words hwords
      obtain ⟨colon, c₂, hcolon, h₂⟩ := punctuator_of_words h₁
      obtain ⟨second, c₃, hsecond, h₃⟩ := name_of_words h₂
      exact ⟨some ⟨key.value, first⟩, ⟨n.value, second⟩, c₃,
        fieldName_iff.2 (.aliased hfirst hcolon hsecond), rfl, rfl, h₃⟩

/-- The kinds that would be read as more of a selection. -/
def selectionFollow : List Token.Kind := [.colon, .lparen, .atSign, .lbrace]

section Selections

variable {level : Nat} {selections : Cursor → Reading (Option SelectionSet)}

theorem fieldRest_gives {arguments : Option (Bracketed Argument)} {directives : List Directive}
    {set : Option SelectionSet} (harguments : argumentsAreGrammatical false arguments = true)
    (hdirectives : directives.all (Directive.isGrammatical false) = true)
    (hargumentsLevel : argumentsHeight arguments ≤ level)
    (hdirectivesLevel : directivesHeight directives ≤ level)
    (hset : ∀ s ∈ set, Returns selections SelectionSet.pieces SelectionSet.erase [] s)
    (aliasName : Option Name) (n : Name)
    (hwords : c.words = words (argumentPieces arguments) ++
      (words (directives.flatMap Directive.pieces) ++
        (words (set.elim [] SelectionSet.pieces) ++ rest)))
    (hclear : Clear selectionFollow rest) :
    Gives (fieldRest level selections aliasName n c)
      (fun v => v.map Selection.erase =
        some (Selection.field aliasName n arguments directives set).erase) rest := by
  have hsetClear : Clear [.atSign, .lparen] (words (set.elim [] SelectionSet.pieces) ++ rest) :=
    clear_optional .lbrace (by decide) (fun s _ => begins_bracketed .rbrace _ s)
      (hclear.mono (by decide))
  have hdirectivesClear : Clear [.lparen] (words (directives.flatMap Directive.pieces) ++
      (words (set.elim [] SelectionSet.pieces) ++ rest)) :=
    clear_flatMap .atSign (by decide) (fun d _ => begins_directive d)
      (hsetClear.mono (by decide))
  have ha := whenArguments_accepts harguments hargumentsLevel c _ hwords hdirectivesClear
  have hd := directives_accepts hdirectives hdirectivesLevel _ _ ha.words hsetClear
  have hsome : ∀ s ∈ set, Returns selections SelectionSet.pieces SelectionSet.erase [.lbrace] s :=
    fun s hs => (hset s hs).weaken
  have hs := whenNext_accepts hsome (fun s _ => begins_bracketed .rbrace _ s) List.mem_cons_self
    _ _ hd.words (hclear.mono (by decide))
  by_cases hahead : c.ahead = []
  · -- At the end of the tokens there is nothing left to read.
    rw [fieldRest_iff.2 (.ended hahead)]
    rw [Cursor.words, hahead] at hwords
    cases arguments with
    | some b => simp [argumentPieces, Bracketed.pieces] at hwords
    | none =>
        cases directives with
        | cons d ds => simp [argumentPieces, Directive.pieces] at hwords
        | nil =>
            cases set with
            | some s => simp [argumentPieces, SelectionSet.pieces, Bracketed.pieces] at hwords
            | none => exact ⟨rfl, rfl, by rw [Cursor.words, hahead]; exact hwords⟩
  · rw [fieldRest_iff.2 (.whole hahead rfl rfl rfl)]
    refine ⟨?_, ?_, hs.words⟩
    · simp only [ha.faults, hd.faults, hs.faults, List.append_nil]
      rfl
    · simp only [Option.map_some]
      rw [Selection.erase_field, Selection.erase_field, ha.value, hd.value, hs.value]

theorem field_returns {aliasName : Option Name} {n : Name}
    {arguments : Option (Bracketed Argument)} {directives : List Directive}
    {set : Option SelectionSet}
    (hgrammatical :
      (Selection.field aliasName n arguments directives set).isGrammatical = true)
    (hlevel : argumentsHeight arguments ≤ level ∧ directivesHeight directives ≤ level)
    (hset : ∀ s ∈ set, Returns selections SelectionSet.pieces SelectionSet.erase [] s) :
    Returns (field level selections) Selection.pieces Selection.erase selectionFollow
      (.field aliasName n arguments directives set) := by
  intro c rest hwords hclear
  rw [Selection.isGrammatical_field, Bool.and_eq_true, Bool.and_eq_true] at hgrammatical
  rw [Selection.pieces_field, words_append, words_name, words_append, words_append,
    List.append_assoc, List.cons_append, List.append_assoc, List.append_assoc] at hwords
  have hcolon : Clear [.colon] (words (argumentPieces arguments) ++
      (words (directives.flatMap Directive.pieces) ++
        (words (set.elim [] SelectionSet.pieces) ++ rest))) :=
    clear_optional .lparen (by decide) (fun b _ => begins_bracketed .rparen _ b)
      (clear_flatMap .atSign (by decide) (fun d _ => begins_directive d)
        (clear_optional .lbrace (by decide) (fun s _ => begins_bracketed .rbrace _ s)
          (hclear.mono (by decide))))
  obtain ⟨aliasName', n', c₁, hname, halias, hn, h₁⟩ := fieldName_of_words hwords hcolon
  rw [field_iff.2 (.whole hname)]
  refine (fieldRest_gives hgrammatical.1.1 hgrammatical.1.2 hlevel.1 hlevel.2 hset
    aliasName' n' h₁ hclear).imp ?_
  intro v hv
  rw [hv, Selection.erase_field, Selection.erase_field, halias, hn]

theorem inlineRest_gives {directives : List Directive} {set : SelectionSet}
    (hdirectives : directives.all (Directive.isGrammatical false) = true)
    (hlevel : directivesHeight directives ≤ level)
    (hset : Returns selections SelectionSet.pieces SelectionSet.erase [] set) (ellipsis : Nat)
    (condition : Option TypeCondition)
    (hwords : c.words =
      words (directives.flatMap Directive.pieces) ++ (words set.pieces ++ rest)) :
    Gives (inlineRest level selections ellipsis condition c)
      (fun v => v.map Selection.erase =
        some (Selection.inline ellipsis condition directives set).erase) rest := by
  have hd := directives_accepts hdirectives hlevel c _ hwords (clear_word .lbrace (by decide))
  have hs := hset _ _ hd.words (clear_nil rest)
  obtain ⟨t, ts, hahead, hkind, -, -⟩ := Cursor.exists_of_words hd.words
  rw [inlineRest_iff.2 (.whole rfl (by rw [hahead]; rintro _ ⟨⟩; exact hkind) rfl)]
  refine ⟨?_, ?_, hs.words⟩
  · rw [hd.faults, hs.faults]
    rfl
  · obtain ⟨set', hvalue, herase⟩ := Option.map_eq_some_iff.1 hs.value
    rw [hvalue, Option.map_some, Option.map_some, Selection.erase_inline, Selection.erase_inline,
      herase]
    exact congrArg (fun ds => some (Selection.inline 0 _ ds _)) hd.value

end Selections

theorem fragmentSpread_gives {level : Nat} {ellipsis : Token} {ts : List Token} {offset : Nat}
    {n : Name} {directives : List Directive}
    (hdirectives : directives.all (Directive.isGrammatical false) = true)
    (hlevel : 1 + directivesHeight directives ≤ level)
    (hwords : (c.past ts).words =
      ⟨.name, n.value⟩ :: (words (directives.flatMap Directive.pieces) ++ rest))
    (hclear : Clear selectionFollow rest) :
    Gives (fragmentSpread level ellipsis ts c)
      (fun v => v.map Selection.erase = some (Selection.spread offset n directives).erase)
      rest := by
  obtain ⟨level, rfl⟩ : ∃ n, level = n + 1 := ⟨level - 1, by omega⟩
  obtain ⟨start, c₁, hname, h₁⟩ := name_of_words hwords
  rw [fragmentSpread_iff.2 (.whole hname)]
  refine ((directives_accepts hdirectives (by omega) c₁ rest h₁
    (hclear.mono (by decide))).within _).map ?_
  intro ds hds
  rw [Option.map_some, Selection.erase, Selection.erase, hds]
  rfl

def selectionHeads : List Token.Kind := [.name, .ellipsis]

theorem begins_selection (s : Selection) : Begins selectionHeads (words s.pieces) := by
  cases s with
  | field aliasName n arguments directives set =>
      rw [Selection.pieces_field]
      cases aliasName with
      | none => exact begins_word .name (by decide)
      | some key => exact begins_word .name (by decide)
  | spread ellipsis n directives => exact begins_word .ellipsis (by decide)
  | inline ellipsis condition directives set =>
      rw [Selection.pieces_inline]
      exact begins_word .ellipsis (by decide)

/-- The token behind the ellipsis of an inline fragment tells it from a reference. -/
theorem inline_next {next : Token} {condition : Option TypeCondition} {directives : List Directive}
    {set : SelectionSet}
    (h : next.word ∈ (words (condition.elim [] TypeCondition.pieces) ++
      (words (directives.flatMap Directive.pieces) ++ (words set.pieces ++ rest))).head?) :
    next.isWord "on" = true ∨ next.kind = .lbrace ∨ next.kind = .atSign := by
  cases condition with
  | some condition =>
      obtain ⟨hkind, htext⟩ := Word.mk.inj (Option.some.inj h)
      exact .inl (Token.isWord_iff.2 ⟨hkind.symm, htext.symm⟩)
  | none =>
      cases directives with
      | nil => exact .inr (.inl (congrArg Word.kind (Option.some.inj h)).symm)
      | cons d ds => exact .inr (.inr (congrArg Word.kind (Option.some.inj h)).symm)

def AcceptsInline (level : Nat) : Prop :=
  ∀ (offset : Nat) (condition : Option TypeCondition) (directives : List Directive)
    (set : SelectionSet), directives.all (Directive.isGrammatical false) = true →
    set.isGrammatical = true → 1 + max (directivesHeight directives) set.height ≤ level →
    ∀ (t : Token) (ts : List Token) (c : Cursor) (rest : List Word),
    (c.past ts).words = words (condition.elim [] TypeCondition.pieces) ++
      (words (directives.flatMap Directive.pieces) ++ (words set.pieces ++ rest)) →
    Gives (inlineFragment level t ts c)
      (fun v => v.map Selection.erase =
        some (Selection.inline offset condition directives set).erase) rest

/-- What the readers of selections accept at one level. A selection set, a selection and an inline
fragment contain each other, one level further in each time. -/
structure SelectionsReturned (level : Nat) : Prop where
  set : ∀ set : SelectionSet, set.isGrammatical = true → set.height ≤ level →
    Returns (selectionSet level) SelectionSet.pieces SelectionSet.erase [] set
  selection : ∀ s : Selection, s.isGrammatical = true → s.height ≤ level →
    Returns (Grammar.selection level) Selection.pieces Selection.erase selectionFollow s
  inline : AcceptsInline level

theorem selectionsReturned_zero : SelectionsReturned 0 := by
  refine ⟨?_, ?_, ?_⟩
  · intro set _ hlevel
    rw [SelectionSet.height] at hlevel
    omega
  · intro s _ hlevel
    exact absurd hlevel (by cases s with
      | field => rw [Selection.height_field]; omega
      | spread => rw [Selection.height]; omega
      | inline => rw [Selection.height_inline]; omega)
  · intro offset condition directives set _ _ hlevel
    omega

section Succ

variable {level : Nat}

theorem SelectionsReturned.set_succ (h : SelectionsReturned level) {set : SelectionSet}
    (hset : set.isGrammatical = true) (hlevel : set.height ≤ level + 1) :
    Returns (selectionSet (level + 1)) SelectionSet.pieces SelectionSet.erase [] set := by
  intro c rest hwords hclear
  rw [SelectionSet.isGrammatical, Bracketed.isGrammatical, Bool.and_eq_true,
    List.all_eq_true] at hset
  rw [SelectionSet.height] at hlevel
  have hitem : ∀ s ∈ set.items,
      Returns (Grammar.selection level) Selection.pieces Selection.erase selectionFollow s := by
    intro s hs
    have hheight : s.height ≤ tallest Selection.height set.items := le_tallest hs
    exact h.selection s (hset.2 s hs) (by omega)
  rw [selectionSet]
  exact (bracketed_returns (selectionsSound level).selection hset.1 hitem
    (fun s _ => begins_selection s) (by decide) (by decide) c rest hwords hclear).within _

theorem SelectionsReturned.field_succ (h : SelectionsReturned level) {aliasName : Option Name}
    {n : Name} {arguments : Option (Bracketed Argument)} {directives : List Directive}
    {set : Option SelectionSet}
    (hs : (Selection.field aliasName n arguments directives set).isGrammatical = true)
    (hlevel : (Selection.field aliasName n arguments directives set).height ≤ level + 1) :
    Returns (Grammar.selection (level + 1)) Selection.pieces Selection.erase selectionFollow
      (.field aliasName n arguments directives set) := by
  intro c rest hwords hclear
  rw [Selection.height_field] at hlevel
  have hsets : ∀ s ∈ set,
      Returns (selectionSet level) SelectionSet.pieces SelectionSet.erase [] s := by
    rintro s rfl
    rw [Selection.isGrammatical_field, Bool.and_eq_true] at hs
    exact h.set s hs.2 (by rw [Option.elim_some] at hlevel; omega)
  have hkind : c.kind? = some .name := by
    rw [kind?_eq_head?, hwords, Selection.pieces_field]
    cases aliasName <;> rfl
  rw [selection_iff.2 (.field (by simp [hkind]))]
  exact field_returns hs ⟨by omega, by omega⟩ hsets c rest hwords hclear

theorem spread_succ {offset : Nat} {n : Name} {directives : List Directive}
    (hs : (Selection.spread offset n directives).isGrammatical = true)
    (hlevel : (Selection.spread offset n directives).height ≤ level + 1) :
    Returns (Grammar.selection (level + 1)) Selection.pieces Selection.erase selectionFollow
      (.spread offset n directives) := by
  intro c rest hwords hclear
  rw [Selection.height] at hlevel
  rw [Selection.isGrammatical, Bool.and_eq_true] at hs
  rw [Selection.pieces, words_mark, words_name, List.cons_append, List.cons_append] at hwords
  obtain ⟨t, ts, hahead, hkind, -, hrest⟩ := Cursor.exists_of_words hwords
  obtain ⟨next, more, hmore, hnext, htext, -⟩ := Cursor.exists_of_words hrest
  obtain rfl : ts = next :: more := hmore
  have hword : next.isWord "on" = false := by
    rw [← Bool.not_eq_true, Token.isWord_iff, htext]
    simpa [isConditionWord] using fun _ : next.kind = .name => hs.1
  rw [selection_iff.2 (.spread hahead hkind hnext hword)]
  exact fragmentSpread_gives hs.2 (by omega) hrest hclear

theorem SelectionsReturned.inline_succ (h : SelectionsReturned level) {offset : Nat}
    {condition : Option TypeCondition} {directives : List Directive} {set : SelectionSet}
    (hs : (Selection.inline offset condition directives set).isGrammatical = true)
    (hlevel : (Selection.inline offset condition directives set).height ≤ level + 1) :
    Returns (Grammar.selection (level + 1)) Selection.pieces Selection.erase selectionFollow
      (.inline offset condition directives set) := by
  intro c rest hwords hclear
  rw [Selection.height_inline] at hlevel
  rw [Selection.isGrammatical_inline, Bool.and_eq_true] at hs
  rw [Selection.pieces_inline, words_mark, words_append, words_append, List.cons_append,
    List.append_assoc, List.append_assoc] at hwords
  obtain ⟨t, ts, hahead, hkind, -, hrest⟩ := Cursor.exists_of_words hwords
  cases ts with
  | nil => simp [Cursor.words, Cursor.past, SelectionSet.pieces, Bracketed.pieces] at hrest
  | cons next more =>
      have hhead : next.word ∈ (Cursor.past c (next :: more)).words.head? := rfl
      rw [hrest] at hhead
      rw [selection_iff.2 (.inline hahead hkind (inline_next hhead))]
      exact h.inline offset condition directives set hs.1 hs.2 (by omega) t _ c rest hrest

theorem SelectionsReturned.acceptsInline_succ (h : SelectionsReturned level) :
    AcceptsInline (level + 1) := by
  intro offset condition directives set hdirectives hset hlevel t ts c rest hwords
  have hclear : Clear [.name] (words (directives.flatMap Directive.pieces) ++
      (words set.pieces ++ rest)) :=
    clear_flatMap .atSign (by decide) (fun d _ => begins_directive d)
      (clear_word .lbrace (by decide))
  have hpos : 1 ≤ level := by rw [directivesHeight] at hlevel; omega
  obtain ⟨condition', c₁, hcondition, herase, h₁⟩ := inlineCondition_of_words hpos hwords hclear
  rw [inlineFragment_iff.2 (.whole hcondition)]
  refine (inlineRest_gives hdirectives (by omega) (h.set set hset (by omega)) t.start
    condition' h₁).imp ?_
  intro v hv
  rw [hv, Selection.erase_inline, Selection.erase_inline, herase]

end Succ

theorem selectionsReturned (level : Nat) : SelectionsReturned level := by
  induction level with
  | zero => exact selectionsReturned_zero
  | succ level ih =>
      refine ⟨fun set => ih.set_succ, fun s hs hlevel => ?_, ih.acceptsInline_succ⟩
      cases s with
      | field => exact ih.field_succ hs hlevel
      | spread => exact spread_succ hs hlevel
      | inline => exact ih.inline_succ hs hlevel

theorem selectionSet_returns {level : Nat} {set : SelectionSet} (hset : set.isGrammatical = true)
    (hlevel : set.height ≤ level) :
    Returns (selectionSet level) SelectionSet.pieces SelectionSet.erase [] set :=
  (selectionsReturned level).set set hset hlevel

/-! ## Operations -/

theorem variableDefinition_returns {level : Nat} {d : VariableDefinition}
    (hd : d.isGrammatical = true) (hlevel : d.height ≤ level) :
    Returns (variableDefinition level) VariableDefinition.pieces VariableDefinition.erase
      [.bang, .equals] d := by
  intro c rest hwords hclear
  rw [VariableDefinition.height] at hlevel
  obtain ⟨level, rfl⟩ : ∃ n, level = n + 1 := ⟨level - 1, by omega⟩
  rw [VariableDefinition.isGrammatical, Bool.and_eq_true, Bool.and_eq_true] at hd
  obtain ⟨⟨hcolon, htype⟩, hdefault⟩ := hd
  rw [VariableDefinition.pieces, words_append, words_mark, words_append, List.append_assoc,
    List.cons_append, List.append_assoc] at hwords
  obtain ⟨v, c₁, hvariable, hv, h₁⟩ := variableRef_of_words hwords
  obtain ⟨offset, c₂, hoffset, h₂⟩ := punctuator_of_words h₁
  have hafter : Clear [.bang] (words (d.defaultValue.elim [] DefaultValue.pieces) ++ rest) :=
    clear_optional .equals (by decide) (fun _ _ => begins_word .equals List.mem_cons_self)
      (hclear.mono (by decide))
  have htypeLevel : d.type.height ≤ level := by omega
  have ht := typeRef_accepts htype htypeLevel c₂ _ h₂ hafter
  rw [variableDefinition_iff.2 (.typed hvariable hoffset (.whole rfl ht.faults))]
  refine (defaultValue_accepts hdefault (by omega) _ rest ht.words
    (hclear.mono (by decide))).map ?_
  intro o ho
  obtain ⟨colon, hsome⟩ := Option.isSome_iff_exists.1 hcolon
  rw [Option.map_some, VariableDefinition.erase, VariableDefinition.erase, hv, ht.value, ho, hsome]
  rfl

theorem variableDefinitions_returns {level : Nat} {b : Bracketed VariableDefinition}
    (hb : b.isFilled VariableDefinition.isGrammatical = true)
    (hlevel : 1 + tallest VariableDefinition.height b.items ≤ level) :
    Returns (variableDefinitions level)
      (Bracketed.pieces .lparen .rparen VariableDefinition.pieces)
      (Bracketed.erase VariableDefinition.erase) [] b :=
  nonEmpty_returns hb hlevel variableDefinition_sound variableDefinition_returns
    (fun _ => begins_word .dollar (List.mem_singleton.2 rfl)) (by decide) (by decide)

theorem operationRest_gives {level : Nat} {o : Operation} (ho : o.isGrammatical = true)
    (hlevel : o.height ≤ level + 2) (start : Nat) (n : Option Name)
    (hwords : c.words =
      words (o.parameters.elim [] (Bracketed.pieces .lparen .rparen VariableDefinition.pieces)) ++
        (words (o.directives.flatMap Directive.pieces) ++ (words o.selections.pieces ++ rest))) :
    Gives (operationRest level start o.type n c)
      (fun v => v.map Operation.erase = some { o.erase with name := n.map Name.erase }) rest := by
  rw [Operation.isGrammatical, Bool.and_eq_true, Bool.and_eq_true] at ho
  obtain ⟨⟨hparameters, hdirectives⟩, hselections⟩ := ho
  rw [Operation.height] at hlevel
  have hdirectivesLevel : directivesHeight o.directives ≤ level := by omega
  have hsetLevel : o.selections.height ≤ level := by omega
  have hsetClear : Clear [.atSign, .lparen] (words o.selections.pieces ++ rest) :=
    clear_word .lbrace (by decide)
  have hsome : ∀ b ∈ o.parameters, Returns (variableDefinitions level)
      (Bracketed.pieces .lparen .rparen VariableDefinition.pieces)
      (Bracketed.erase VariableDefinition.erase) [.lparen] b := by
    intro b hb
    rw [hb] at hparameters hlevel
    exact (variableDefinitions_returns hparameters
      (by rw [Option.elim_some] at hlevel; omega)).weaken
  have hv := whenNext_accepts hsome (fun b _ => begins_bracketed .rparen _ b) List.mem_cons_self
    c _ hwords (clear_flatMap .atSign (by decide) (fun d _ => begins_directive d)
      (hsetClear.mono (by decide)))
  have hd := directives_accepts hdirectives hdirectivesLevel _ _ hv.words hsetClear
  have hs := selectionSet_returns hselections hsetLevel _ _ hd.words (clear_nil rest)
  rw [operationRest]
  refine ⟨?_, ?_, hs.words⟩
  · simp only [hv.faults, hd.faults, hs.faults, List.append_nil]
    rfl
  · obtain ⟨set, hvalue, herase⟩ := Option.map_eq_some_iff.1 hs.value
    simp only [hvalue, Option.map_some, Operation.erase, hv.value, hd.value, herase]

/-- An operation behind its keyword. The next word is the operation's name only if it has one. -/
theorem operation_accepts {level : Nat} {o : Operation} (ho : o.isGrammatical = true)
    (hlevel : o.height ≤ level + 2) (start : Nat) :
    Accepts (operation level start o.type)
      (words (o.name.toList.map Name.piece ++
        (o.parameters.elim [] (Bracketed.pieces .lparen .rparen VariableDefinition.pieces) ++
          (o.directives.flatMap Directive.pieces ++ o.selections.pieces)))) []
      fun v => v.map Operation.erase = some o.erase := by
  intro c rest hwords _
  simp only [words_append, List.append_assoc] at hwords
  cases hname : o.name with
  | none =>
      rw [hname] at hwords
      have hclear : Clear [.name] c.words := by
        rw [show c.words = _ from hwords]
        exact clear_optional .lparen (by decide) (fun b _ => begins_bracketed .rparen _ b)
          (clear_flatMap .atSign (by decide) (fun d _ => begins_directive d)
            (clear_word .lbrace (by decide)))
      have hgives := (operationRest_gives ho hlevel start none hwords).imp
        fun v hv => hv.trans (show _ = some o.erase by rw [Operation.erase, hname])
      cases hahead : c.ahead with
      | nil =>
          rw [Cursor.words, hahead] at hwords
          simp [SelectionSet.pieces, Bracketed.pieces] at hwords
      | cons t ts =>
          have hkind : t.kind ≠ .name := by
            intro hkind
            exact hclear t.word (by rw [Cursor.words, hahead]; rfl) (List.mem_singleton.2 hkind)
          rw [operation_iff.2 (.anonymous hahead hkind)]
          exact hgives
  | some n =>
      rw [hname] at hwords
      obtain ⟨t, ts, hahead, hkind, htext, hrest⟩ := Cursor.exists_of_words hwords
      have hgives := (operationRest_gives ho hlevel start (some ⟨t.text, t.start⟩) hrest).imp
        fun v hv => hv.trans (show _ = some o.erase by
          rw [Operation.erase, hname, htext]
          rfl)
      cases ts with
      | nil =>
          simp [Cursor.words, Cursor.past, SelectionSet.pieces, Bracketed.pieces] at hrest
      | cons next more =>
          rw [operation_iff.2 (.named hahead hkind)]
          exact hgives

theorem shorthandQuery_accepts {level : Nat} {o : Operation} (ho : o.isGrammatical = true)
    (hlevel : o.height ≤ level + 2) (hshort : o.isShorthand = true) (start : Nat) :
    Accepts (shorthandQuery level start) (words o.selections.pieces) [] fun v =>
      v.map Operation.erase = some o.erase := by
  intro c rest hwords hclear
  rw [Operation.isGrammatical, Bool.and_eq_true] at ho
  rw [Operation.height] at hlevel
  have hsetLevel : o.selections.height ≤ level := by omega
  rw [shorthandQuery]
  refine ((selectionSet_returns ho.2 hsetLevel c rest hwords hclear).within _).map ?_
  intro v hv
  obtain ⟨set, rfl, herase⟩ := Option.map_eq_some_iff.1 hv
  simp only [Operation.isShorthand, Bool.and_eq_true, decide_eq_true_eq, Option.isNone_iff_eq_none,
    List.isEmpty_iff] at hshort
  obtain ⟨⟨⟨⟨-, htype⟩, hname⟩, hparameters⟩, hdirectives⟩ := hshort
  simp [Operation.erase, herase, htype, hname, hparameters, hdirectives]

/-! ## Fragments -/

theorem fragmentDefinition_accepts {level : Nat} {f : Fragment} (hf : f.isGrammatical = true)
    (hlevel : f.height ≤ level + 2) (keyword : Nat) :
    Accepts (fragmentDefinition level keyword)
      (words (f.name.piece ::
        (f.condition.pieces ++ (f.directives.flatMap Directive.pieces ++ f.selections.pieces)))) []
      fun v => v.map Fragment.erase = some f.erase := by
  intro c rest hwords _
  rw [Fragment.isGrammatical, Bool.and_eq_true, Bool.and_eq_true, Bool.not_eq_true',
    isConditionWord, decide_eq_false_iff_not] at hf
  obtain ⟨⟨hon, hdirectives⟩, hselections⟩ := hf
  rw [Fragment.height] at hlevel
  have hdirectivesLevel : directivesHeight f.directives ≤ level := by omega
  have hsetLevel : f.selections.height ≤ level := by omega
  have hpos : 1 ≤ level := by rw [directivesHeight] at hdirectivesLevel; omega
  simp only [words_name, words_append, List.cons_append, List.append_assoc] at hwords
  obtain ⟨start, c₁, hname, h₁⟩ := name_of_words hwords
  obtain ⟨condition, c₂, hcondition, herase, h₂⟩ := typeCondition_of_words hpos h₁
  have hd := directives_accepts hdirectives hdirectivesLevel c₂ _ h₂
    (clear_word .lbrace (by decide))
  have hs := selectionSet_returns hselections hsetLevel _ _ hd.words (clear_nil rest)
  rw [fragmentDefinition_iff.2 (.whole hname hon hcondition rfl rfl)]
  refine ⟨?_, ?_, hs.words⟩
  · simp only [hd.faults, hs.faults, List.append_nil]
    rfl
  · obtain ⟨set, hvalue, hset⟩ := Option.map_eq_some_iff.1 hs.value
    simp only [hvalue, Option.map_some, Fragment.erase, hd.value, herase, hset]
    rfl

end SelectionCheck.Grammar
