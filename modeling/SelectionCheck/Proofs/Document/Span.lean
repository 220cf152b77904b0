import SelectionCheck.Proofs.Document.Consumed
import SelectionCheck.Proofs.Token.Gaps

/-!
# The span of a field

A field says where it begins and where it ends. It begins with its first token. The end is looked
for behind its selection set, else behind its arguments, else behind its name, and so it is behind
its last token unless directives stand there: directives with no selection set behind them are read
as a part of the field and lie outside its span.

The tokens of a field are therefore taken in two parts, those up to the end that the field says and
the directives behind it. Tokens lie apart and in order, so everything else about spans follows from
the first and the last token of the first part.
-/

namespace SelectionCheck

variable {ts : List Token} {c c' : Cursor} {set : SelectionSet} {source : Text} {d : Document}

/-! ## The selection sets of a document -/

def Selection.set? : Selection → Option SelectionSet
  | .field _ _ _ _ selections => selections
  | .spread _ _ _ => none
  | .inline _ _ _ selections => some selections

def Definition.set? : Definition → Option SelectionSet
  | .operation o => some o.selections
  | .fragment f => some f.selections
  | .type _ | .schema _ => none

inductive Document.HasSet (d : Document) : SelectionSet → Prop
  | outer {definition : Definition} {set : SelectionSet} (hmem : definition ∈ d.definitions)
      (hset : definition.set? = some set) : HasSet d set
  | inner {set inner : SelectionSet} {s : Selection} (hset : HasSet d set) (hmem : s ∈ set.items)
      (hinner : s.set? = some inner) : HasSet d inner

namespace Grammar

variable {level : Nat}

def SetGiven (ts : List Token) (set : SelectionSet) : Prop :=
  ∃ level, GivenIn ts (selectionSet level) (some set)

theorem selectionSet_finds (level : Nat) :
    Finds ts (optionalParts fun set => [set]) (SetGiven ts) (selectionSet level) := by
  intro c hc hfaults set hset
  obtain ⟨_, hvalue, hset⟩ := mem_optionalParts.1 hset
  cases List.mem_singleton.1 hset
  exact ⟨level, .intro hc hfaults hvalue⟩

theorem setGiven_of_map {β : Type} {make : SelectionSet → β} {set? : β → Option SelectionSet}
    (hmake : ∀ set, set? (make set) = some set) (hc : c.On ts)
    (hfaults : (selectionSet level c).faults = []) :
    ∀ set ∈ optionalParts (fun b => (set? b).toList) ((selectionSet level c).value.map make),
      SetGiven ts set := by
  intro set hset
  obtain ⟨_, hvalue, hset⟩ := mem_optionalParts.1 hset
  obtain ⟨inner, hinner, rfl⟩ := Option.map_eq_some_iff.1 hvalue
  rw [hmake] at hset
  cases Option.some.inj (Option.mem_toList.1 hset)
  exact ⟨level, .intro hc hfaults hinner⟩

theorem fieldRest_finds {aliasName : Option Name} {n : Name} :
    Finds ts (optionalParts fun s => s.set?.toList) (SetGiven ts)
      (fieldRest level (selectionSet level) aliasName n) := by
  intro c hc hfaults
  generalize hr : fieldRest level (selectionSet level) aliasName n c = r at hfaults ⊢
  cases fieldRest_iff.1 hr with
  | ended => simp [optionalParts, Selection.set?]
  | whole _ ha hd hs =>
      subst ha hd hs
      intro set hset
      simp only [withinAll_eq_nil, List.append_eq_nil_iff] at hfaults
      obtain ⟨⟨harguments, hdirectives⟩, hselections⟩ := hfaults
      have hbehind := (hc.of_reads ((arguments_sound false level).whenNext .lparen
        harguments)).of_reads (directives_reads hdirectives)
      refine (selectionSet_finds level).whenNext .lbrace _ hbehind hselections set ?_
      exact mem_optionalParts.2 ⟨set, Option.mem_toList.1 hset, List.mem_singleton_self set⟩

theorem field_finds :
    Finds ts (optionalParts fun s => s.set?.toList) (SetGiven ts)
      (field level (selectionSet level)) := by
  intro c hc hfaults
  generalize hr : field level (selectionSet level) c = r at hfaults ⊢
  cases field_iff.1 hr with
  | noName => cases hfaults
  | whole hname => exact fieldRest_finds _ (hc.of_reads (takes_of_fieldName hname).1) hfaults

theorem inlineRest_finds {ellipsis : Nat} {condition : Option TypeCondition} :
    Finds ts (optionalParts fun s => s.set?.toList) (SetGiven ts)
      (inlineRest level (selectionSet level) ellipsis condition) := by
  intro c hc hfaults
  generalize hr : inlineRest level (selectionSet level) ellipsis condition c = r at hfaults ⊢
  cases inlineRest_iff.1 hr with
  | noSet => simp [withinAll] at hfaults
  | whole hd _ hs =>
      subst hd hs
      simp only [withinAll_eq_nil, List.append_eq_nil_iff] at hfaults
      exact setGiven_of_map (fun _ => rfl) (hc.of_reads (directives_reads hfaults.1)) hfaults.2

theorem inlineFragment_finds {ellipsis : Token} {rest : List Token} (hc : c.On ts)
    (hahead : c.ahead = ellipsis :: rest)
    (hfaults : (inlineFragment level ellipsis rest c).faults = []) :
    ∀ set ∈ optionalParts (fun s => s.set?.toList) (inlineFragment level ellipsis rest c).value,
      SetGiven ts set := by
  generalize hr : inlineFragment level ellipsis rest c = r at hfaults ⊢
  cases inlineFragment_iff.1 hr with
  | whole hcondition =>
      have hc₁ := (hc.past hahead).on.of_reads (reads_of_inlineCondition hcondition)
      exact inlineRest_finds _ hc₁ hfaults
  | _ => cases hfaults

theorem fragmentSpread_value {ellipsis : Token} {rest : List Token} :
    optionalParts (fun s => s.set?.toList) (fragmentSpread level ellipsis rest c).value = [] := by
  generalize hr : fragmentSpread level ellipsis rest c = r
  cases fragmentSpread_iff.1 hr <;> rfl

/-- The selection set of a selection is read in its turn. -/
theorem selection_finds (level : Nat) :
    Finds ts (optionalParts fun s => s.set?.toList) (SetGiven ts) (selection level) := by
  intro c hc hfaults
  generalize hr : selection level c = r at hfaults ⊢
  cases selection_iff.1 hr with
  | tooDeep | ended | noFragment => cases hfaults
  | field => exact field_finds c hc hfaults
  | spread =>
      rw [fragmentSpread_value]
      exact List.forall_mem_nil _
  | inline hahead => exact inlineFragment_finds hc hahead hfaults

/-- The items of a selection set are read in a row, at the level below. -/
theorem selectionSet_row (h : selectionSet level c = ⟨some set, [], c'⟩) :
    ∃ inside c₁ c₂ closing, punctuator .lbrace c = .ok (set.opening, c₁) ∧
      Row (selection inside) c₁ set.items c₂ ∧ punctuator .rbrace c₂ = .ok (closing, c') := by
  cases level with
  | zero => rw [selectionSet] at h; cases h
  | succ level =>
      rw [selectionSet] at h
      obtain ⟨c₁, c₂, closing, hopening, hrow, hclosing, -⟩ :=
        bracketed_row (selectionsSound level).selection (Reading.eq_of_within h)
      exact ⟨level, c₁, c₂, closing, hopening, hrow, hclosing⟩

/-- The items of a selection set read among the tokens are a row among the tokens. -/
theorem SetGiven.exists_row (h : SetGiven ts set) :
    ∃ level c c', c.On ts ∧ Row (selection level) c set.items c' := by
  obtain ⟨level, c, c', hc, hread⟩ := h
  obtain ⟨inside, c₁, c₂, closing, hopening, hrow, -⟩ := selectionSet_row hread
  exact ⟨inside, c₁, c₂, (reaches_of_punctuator hc hopening).1.on, hrow⟩

theorem operationRest_finds {start : Nat} {type : OperationType} {name : Option Name} :
    Finds ts (optionalParts fun o => (Definition.operation o).set?.toList) (SetGiven ts)
      (operationRest level start type name) := by
  intro c hc hfaults
  rw [operationRest] at hfaults ⊢
  simp only [withinAll_eq_nil, List.append_eq_nil_iff] at hfaults
  obtain ⟨⟨hparameters, hdirectives⟩, hselections⟩ := hfaults
  have hbehind := (hc.of_reads ((variableDefinitions_sound level).whenNext .lparen
    hparameters)).of_reads (directives_reads hdirectives)
  exact setGiven_of_map (fun _ => rfl) hbehind hselections

theorem shorthandQuery_finds {start : Nat} :
    Finds ts (optionalParts fun o => (Definition.operation o).set?.toList) (SetGiven ts)
      (shorthandQuery level start) :=
  fun _ hc hfaults => setGiven_of_map (fun _ => rfl) hc ((Reading.faults_within _ _).1 hfaults)

theorem fragmentDefinition_finds {keyword : Nat} :
    Finds ts (optionalParts fun f => (Definition.fragment f).set?.toList) (SetGiven ts)
      (fragmentDefinition level keyword) := by
  intro c hc hfaults
  generalize hr : fragmentDefinition level keyword c = r at hfaults ⊢
  cases fragmentDefinition_iff.1 hr with
  | whole hname _ hcondition hd hs =>
      subst hd hs
      simp only [withinAll_eq_nil, List.append_eq_nil_iff] at hfaults
      obtain ⟨hdirectives, hselections⟩ := hfaults
      have hbehind := ((hc.of_reads (takes_of_name hname).1).of_reads
        (takes_of_typeCondition hcondition).1).of_reads (directives_reads hdirectives)
      exact setGiven_of_map (fun _ => rfl) hbehind hselections
  | _ => cases hfaults

theorem definition_finds_set :
    Finds ts (optionalParts fun d => d.set?.toList) (SetGiven ts) definition :=
  definition_finds (fun _ _ _ => operationRest_finds) (fun _ => shorthandQuery_finds)
    (fun _ => fragmentDefinition_finds) (fun _ _ _ _ _ _ => List.forall_mem_nil _) fun _ => rfl

end Grammar

/-- Every selection set of a document without errors was read from tokens of its source. -/
theorem setGiven_of_parse (h : parse source = ⟨some d, []⟩) (hset : d.HasSet set) :
    Grammar.SetGiven (lex source) set := by
  induction hset with
  | outer hmem hset =>
      exact finds_of_parse h Grammar.definition_finds_set _
        (List.mem_flatMap.2 ⟨_, hmem, Option.mem_toList.2 hset⟩)
  | inner _ hmem hinner ih =>
      obtain ⟨level, c, c', hc, hrow⟩ := ih.exists_row
      obtain ⟨c₁, c₂, hc₁, hread⟩ :=
        hrow.givenIn (Grammar.selectionsSound level).selection.taking hc hmem
      refine Grammar.selection_finds level c₁ hc₁ (by rw [hread]) _ ?_
      rw [hread]
      exact Option.mem_toList.2 hinner

/-! ## The tokens of a field -/

theorem Piece.Denotes.stop_eq {α : Type} {b : Bracketed α} {closer : Token.Kind} {t : Token}
    (h : (Piece.mark closer b.closing).Denotes t) (hlength : (closer.spelling : Text).length = 1) :
    t.stop = b.stop := by
  have hclosing : b.closing = some t.start := h.agrees
  have htext : t.text = closer.spelling := h.text_eq
  rw [Token.stop, htext, hlength, Bracketed.stop, hclosing]

namespace Selection

variable {aliasName : Option Name} {name : Name} {arguments : Option (Bracketed Argument)}
  {directives : List Directive} {selections : Option SelectionSet}

/-- Where a field says that it begins and ends. -/
def span? : Selection → Option (Nat × Nat)
  | .field aliasName name arguments _ selections =>
    some ((fieldKey aliasName name).start, fieldStop name arguments selections)
  | .spread _ _ _ | .inline _ _ _ _ => none

def trailing : Selection → List Directive
  | .field _ _ _ directives none => directives
  | .field _ _ _ _ (some _) | .spread _ _ _ | .inline _ _ _ _ => []

/-- A field up to the end that it says. -/
def ownPieces (aliasName : Option Name) (name : Name) (arguments : Option (Bracketed Argument))
    (directives : List Directive) : Option SelectionSet → List Piece
  | none => aliasPieces aliasName ++ name.piece :: argumentPieces arguments
  | some set =>
    aliasPieces aliasName ++ name.piece ::
      (argumentPieces arguments ++ (directives.flatMap Directive.pieces ++ set.pieces))

theorem pieces_field_eq :
    (Selection.field aliasName name arguments directives selections).pieces =
      ownPieces aliasName name arguments directives selections ++
        (trailing (.field aliasName name arguments directives selections)).flatMap
          Directive.pieces := by
  rw [pieces_field]
  cases selections <;> simp [ownPieces, trailing]

theorem ownPieces_eq_cons (aliasName : Option Name) (name : Name)
    (arguments : Option (Bracketed Argument)) (directives : List Directive)
    (selections : Option SelectionSet) :
    ∃ p ps, ownPieces aliasName name arguments directives selections = p :: ps ∧
      p.place = .recorded (some (fieldKey aliasName name).start) ∧ p.optional = false := by
  cases aliasName <;> cases selections <;> exact ⟨_, _, rfl, rfl, rfl⟩

theorem pieces_eq_cons (s : Selection) :
    ∃ p ps, s.pieces = p :: ps ∧ p.place = .recorded (some s.start) ∧ p.optional = false := by
  cases s with
  | field aliasName name arguments directives selections =>
      obtain ⟨p, ps, hpieces, hplace, hp⟩ :=
        ownPieces_eq_cons aliasName name arguments directives selections
      exact ⟨p, _, by rw [pieces_field_eq, hpieces, List.cons_append], hplace, hp⟩
  | spread ellipsis name directives => exact ⟨_, _, rfl, rfl, rfl⟩
  | inline ellipsis condition directives selections => exact ⟨_, _, pieces_inline .., rfl, rfl⟩

/-- The last of these tokens is the one behind which the field ends: the closing brace of the
selection set, the closing parenthesis of the arguments or the name. -/
theorem ownPieces_eq_concat (aliasName : Option Name) (name : Name)
    (arguments : Option (Bracketed Argument)) (directives : List Directive)
    (selections : Option SelectionSet) :
    ∃ ps p, ownPieces aliasName name arguments directives selections = ps ++ [p] ∧
      p.optional = false ∧
      ∀ t, p.Denotes t → t.stop = fieldStop name arguments selections := by
  cases selections with
  | some set =>
      refine ⟨aliasPieces aliasName ++ name.piece :: (argumentPieces arguments ++
        (directives.flatMap Directive.pieces ++
          .mark .lbrace (some set.opening) :: set.items.flatMap Selection.pieces)),
        .mark .rbrace set.closing, ?_, rfl, fun t ht => ht.stop_eq rfl⟩
      simp [ownPieces, SelectionSet.pieces, Bracketed.pieces]
  | none =>
      cases arguments with
      | some arguments =>
          refine ⟨aliasPieces aliasName ++ name.piece ::
            .mark .lparen (some arguments.opening) :: arguments.items.flatMap Argument.pieces,
            .mark .rparen arguments.closing, ?_, rfl, fun t ht => ht.stop_eq rfl⟩
          simp [ownPieces, argumentPieces, Bracketed.pieces]
      | none =>
          refine ⟨aliasPieces aliasName, name.piece, rfl, rfl, fun t ht => ?_⟩
          have htext : t.text = name.value := ht.text_eq
          have hstart : name.start = t.start := ht.start_eq rfl
          rw [Token.stop, htext, ← hstart]
          rfl

/-- The tokens of a field in two parts: those from its first token to the end that it says, and
the directives with no selection set behind them. -/
theorem exists_own {s : Selection} {start stop : Nat} {taken : List Token}
    (h : Spells s.pieces taken) (hspan : s.span? = some (start, stop)) :
    ∃ own behind, taken = own ++ behind ∧ own.head?.map Token.start = some start ∧
      own.getLast?.map Token.stop = some stop ∧
      Spells (s.trailing.flatMap Directive.pieces) behind := by
  cases s with
  | spread ellipsis name directives => cases hspan
  | inline ellipsis condition directives selections => cases hspan
  | field aliasName name arguments directives selections =>
      cases hspan
      rw [pieces_field_eq] at h
      obtain ⟨own, behind, rfl, hown, hbehind⟩ := h.exists_of_append
      refine ⟨own, behind, rfl, ?_, ?_, hbehind⟩
      · obtain ⟨p, ps, hpieces, hplace, hp⟩ :=
          ownPieces_eq_cons aliasName name arguments directives selections
        rw [hpieces] at hown
        obtain ⟨first, rest, rfl, hfirst, -⟩ := hown.exists_of_cons hp
        rw [hfirst.start_eq hplace]
        rfl
      · obtain ⟨ps, p, hpieces, hp, hstop⟩ :=
          ownPieces_eq_concat aliasName name arguments directives selections
        rw [hpieces] at hown
        obtain ⟨front, _, rfl, -, hend⟩ := hown.exists_of_append
        obtain ⟨last, _, rfl, hlast, hnil⟩ := hend.exists_of_cons hp
        cases hnil
        rw [List.getLast?_concat, ← hstop last hlast]
        rfl

theorem eq_nil_iff_of_spells {directives : List Directive} {behind : List Token}
    (h : Spells (directives.flatMap Directive.pieces) behind) : behind = [] ↔ directives = [] := by
  cases directives with
  | nil =>
      cases h
      simp
  | cons directive directives =>
      obtain ⟨t, us, rfl, -⟩ := h.exists_of_cons rfl
      simp

end Selection

/-! ## Tokens lie apart -/

/-- Tokens of at least one byte, each behind the end of those before it. -/
structure Apart (ts : List Token) : Prop where
  start_lt : ∀ t ∈ ts, t.start < t.stop
  ordered : ts.Pairwise fun t u => t.stop ≤ u.start

theorem apart_lex (source : Text) : Apart (lex source) := by
  obtain ⟨htokens, hordered⟩ := (tiled_lex source).tokens List.drop_zero (Nat.zero_le _)
  refine ⟨fun t ht => ?_, hordered⟩
  have hpos := List.length_pos_iff.2 (htokens t ht).2.1
  rw [Token.stop]
  omega

namespace Apart

variable {before own rest : List Token} {start stop : Nat} {t : Token}

theorem left (h : Apart (own ++ rest)) : Apart own where
  start_lt t ht := h.start_lt t (List.mem_append_left rest ht)
  ordered := (List.pairwise_append.1 h.ordered).1

theorem right (h : Apart (own ++ rest)) : Apart rest where
  start_lt t ht := h.start_lt t (List.mem_append_right own ht)
  ordered := (List.pairwise_append.1 h.ordered).2.1

theorem start_le (h : Apart own) (hstart : own.head?.map Token.start = some start) (ht : t ∈ own) :
    start ≤ t.start := by
  obtain ⟨first, hfirst, rfl⟩ := Option.map_eq_some_iff.1 hstart
  obtain ⟨behind, rfl⟩ := List.head?_eq_some_iff.1 hfirst
  rcases List.mem_cons.1 ht with rfl | hbehind
  · exact Nat.le_refl _
  · have hlt := h.start_lt first List.mem_cons_self
    have hle := List.rel_of_pairwise_cons h.ordered hbehind
    omega

theorem stop_le (h : Apart own) (hstop : own.getLast?.map Token.stop = some stop) (ht : t ∈ own) :
    t.stop ≤ stop := by
  obtain ⟨last, hlast, rfl⟩ := Option.map_eq_some_iff.1 hstop
  obtain ⟨front, rfl⟩ := List.getLast?_eq_some_iff.1 hlast
  rcases List.mem_append.1 ht with hfront | hlast
  · have hlt := h.start_lt last (List.mem_append_right front List.mem_cons_self)
    have hle := (List.pairwise_append.1 h.ordered).2.2 t hfront last List.mem_cons_self
    omega
  · exact Nat.le_of_eq (congrArg Token.stop (List.mem_singleton.1 hlast))

theorem stop_le_start (h : Apart (own ++ rest)) (hstop : own.getLast?.map Token.stop = some stop)
    (ht : t ∈ rest) : stop ≤ t.start := by
  obtain ⟨last, hlast, rfl⟩ := Option.map_eq_some_iff.1 hstop
  exact (List.pairwise_append.1 h.ordered).2.2 last (List.mem_of_getLast? hlast) t ht

theorem start_lt_start (h : Apart (before ++ own))
    (hstart : own.head?.map Token.start = some start) (ht : t ∈ before) : t.start < start := by
  obtain ⟨first, hfirst, rfl⟩ := Option.map_eq_some_iff.1 hstart
  have hle := (List.pairwise_append.1 h.ordered).2.2 t ht first (List.mem_of_head? hfirst)
  have hlt := h.start_lt t (List.mem_append_left own ht)
  omega

/-- The tokens between two offsets, the first where one of them begins and the second where one of
them ends. -/
theorem mem_iff (h : Apart (before ++ (own ++ rest)))
    (hstart : own.head?.map Token.start = some start)
    (hstop : own.getLast?.map Token.stop = some stop) (ht : t ∈ before ++ (own ++ rest)) :
    t ∈ own ↔ start ≤ t.start ∧ t.start < stop := by
  constructor
  · intro hown
    have hlt := h.start_lt t ht
    have hle := h.right.left.stop_le hstop hown
    exact ⟨h.right.left.start_le hstart hown, by omega⟩
  · rintro ⟨hle, hlt⟩
    rcases List.mem_append.1 ht with hbefore | hbehind
    · have hbefore := (List.append_assoc before own rest ▸ h).left.start_lt_start hstart hbefore
      omega
    · rcases List.mem_append.1 hbehind with hown | hrest
      · exact hown
      · have hrest := h.right.stop_le_start hstop hrest
        omega

/-- Where the last token ends: behind all of them, and so at `stop` only if nothing follows. -/
theorem getLast?_stop_iff (h : Apart (own ++ rest))
    (hstop : own.getLast?.map Token.stop = some stop) :
    (own ++ rest).getLast?.map Token.stop = some stop ↔ rest = [] := by
  constructor
  · intro hlast
    refine List.eq_nil_iff_forall_not_mem.2 fun t ht => ?_
    have hle := h.stop_le hlast (List.mem_append_right own ht)
    have hlt := h.start_lt t (List.mem_append_right own ht)
    have hbehind := h.stop_le_start hstop ht
    omega
  · rintro rfl
    rwa [List.append_nil]

/-- All tokens begin before `stop` only if nothing follows. -/
theorem forall_start_lt_iff (h : Apart (own ++ rest))
    (hstop : own.getLast?.map Token.stop = some stop) :
    (∀ t ∈ own ++ rest, t.start < stop) ↔ rest = [] := by
  constructor
  · intro hall
    refine List.eq_nil_iff_forall_not_mem.2 fun t ht => ?_
    exact absurd (h.stop_le_start hstop ht) (Nat.not_le.2 (hall t (List.mem_append_right own ht)))
  · rintro rfl t ht
    rw [List.append_nil] at ht h
    exact Nat.lt_of_lt_of_le (h.start_lt t ht) (h.stop_le hstop ht)

end Apart

/-! ## Fields in a document -/

/-- A field of a document without errors is read from the tokens `own ++ behind`. It begins where
`own` begins and says that it ends where `own` ends, so a token belongs to `own` exactly if it
stands between the two, and all selections after the field begin behind its end. The tokens
`behind` are the directives with no selection set behind them: the field ends with its last token,
and none of its tokens stands behind its end, exactly if there are none. -/
theorem span_field {earlier later : List Selection} {s : Selection} {start stop : Nat}
    (h : parse source = ⟨some d, []⟩) (hset : d.HasSet set)
    (hitems : set.items = earlier ++ s :: later) (hspan : s.span? = some (start, stop)) :
    ∃ level before own behind after,
      lex source = before ++ (own ++ behind) ++ after ∧
      Grammar.Consumes (Grammar.selection level) before (own ++ behind) after (some s) ∧
      own.head?.map Token.start = some start ∧ own.getLast?.map Token.stop = some stop ∧
      Spells (s.trailing.flatMap Directive.pieces) behind ∧
      ((own ++ behind).getLast?.map Token.stop = some stop ↔ s.trailing = []) ∧
      (∀ t ∈ lex source, t ∈ own ↔ start ≤ t.start ∧ t.start < stop) ∧
      ((∀ t ∈ own ++ behind, t.start < stop) ↔ s.trailing = []) ∧
      ∀ s' ∈ later, stop ≤ s'.start := by
  obtain ⟨level, c, c', hc, hrow⟩ := (setGiven_of_parse h hset).exists_row
  have htaking := (Grammar.selectionsSound level).selection.taking
  rw [hitems] at hrow
  obtain ⟨c₁, c₂, hearlier, hread, hlater⟩ := hrow.exists_of_append_cons
  have hc₁ := hc.of_reads (hearlier.reads htaking)
  obtain ⟨before, taken, hcut, hc₁_eq, hc₂_eq, hspells⟩ :=
    hc₁.exists_cut (htaking hread).1 (lexed_lex source)
  obtain ⟨own, behind, rfl, hstart, hstop, hbehind⟩ := Selection.exists_own hspells hspan
  have hnil := Selection.eq_nil_iff_of_spells hbehind
  have hparts : lex source = before ++ (own ++ (behind ++ c₂.ahead)) := by
    rw [hcut, List.append_assoc, List.append_assoc]
  have hapart := hparts ▸ apart_lex source
  have htaken : Apart (own ++ behind) := (hcut ▸ apart_lex source).left.right
  refine ⟨level, before, own, behind, c₂.ahead, hcut, ?_, hstart, hstop, hbehind,
    (htaken.getLast?_stop_iff hstop).trans hnil,
    fun t ht => hapart.mem_iff hstart hstop (hparts ▸ ht),
    (htaken.forall_start_lt_iff hstop).trans hnil, fun s' hs' => ?_⟩
  · rw [Grammar.Consumes, ← hc₁_eq, ← hc₂_eq]
    exact hread
  · obtain ⟨taken, htaken, -, hspelled⟩ := hlater.reads htaking
    obtain ⟨p, ps, hpieces, hplace, hp⟩ := s'.pieces_eq_cons
    have hlexed : Lexed taken := (htaken ▸ (hcut ▸ lexed_lex source).right).left
    have hmem : p ∈ later.flatMap Selection.pieces :=
      List.mem_flatMap.2 ⟨s', hs', by rw [hpieces]; exact List.mem_cons_self⟩
    obtain ⟨t, ht, hstart'⟩ := (hspelled hlexed).exists_start hmem hplace hp
    rw [← hstart']
    refine hapart.right.stop_le_start hstop (List.mem_append_right behind ?_)
    rw [htaken]
    exact List.mem_append_left _ ht

/-- A field with a directive alone, and one with arguments, a directive and a selection set. -/
def directedQuery : Text := "\x7b a @b c: d(x: 1) @e \x7b f \x7d \x7d"

theorem span_field_directedQuery :
    ∃ d set s s', parse directedQuery = ⟨some d, []⟩ ∧ d.HasSet set ∧
      set.items = [] ++ s :: [s'] ∧ s.span? = some (2, 3) ∧ s'.span? = some (7, 26) ∧
      ∃ level before own behind after,
        lex directedQuery = before ++ (own ++ behind) ++ after ∧
        Grammar.Consumes (Grammar.selection level) before (own ++ behind) after (some s) ∧
        own.getLast?.map Token.stop = some 3 ∧ (own ++ behind).getLast?.map Token.stop ≠ some 3 ∧
        3 ≤ s'.start := by
  have hview : (parse directedQuery).document.map (fun d =>
      (d.definitions.flatMap fun x => x.set?.toList).map fun set =>
        set.items.map fun s => (s.span?, s.trailing.length)) =
      some [[(some (2, 3), 1), (some (7, 26), 0)]] := by
    decide +kernel
  obtain ⟨d, hparse, hd⟩ := exists_of_map_document (by decide +kernel) hview
  simp only [List.map_eq_cons_iff, List.map_eq_nil_iff, Prod.mk.injEq] at hd
  obtain ⟨set, _, hsets, ⟨s, _, hitems, ⟨hspan, htrailing⟩, s', _, rfl, ⟨hspan', -⟩, rfl⟩, -⟩ := hd
  have hset : d.HasSet set := by
    obtain ⟨x, hx, hset⟩ := List.mem_flatMap.1 (hsets ▸ List.mem_cons_self)
    exact .outer hx (Option.mem_toList.1 hset)
  have hcut : set.items = [] ++ s :: [s'] := hitems
  obtain ⟨level, before, own, behind, after, hlex, hread, -, hstop, -, hlast, -, -, hlater⟩ :=
    span_field hparse hset hcut hspan
  refine ⟨d, set, s, s', hparse, hset, hcut, hspan, hspan', level, before, own, behind, after, hlex,
    hread, hstop, fun h => ?_, hlater s' List.mem_cons_self⟩
  rw [hlast.1 h] at htrailing
  cases htrailing

def directedField : Text := "\x7b a @b \x7d"

/-- The field says that it ends at the offset 3, and its directive stands from 4 to 6. -/
theorem span_directedField :
    ∃ d set s directive, parse directedField = ⟨some d, []⟩ ∧ d.HasSet set ∧ set.items = [s] ∧
      s.span? = some (2, 3) ∧ s.trailing = [directive] ∧ directive.sign = 4 ∧
      directive.name.stop = 6 := by
  have hview : (parse directedField).document.map (fun d =>
      (d.definitions.flatMap fun x => x.set?.toList).map fun set =>
        set.items.map fun s => (s.span?, s.trailing.map fun x => (x.sign, x.name.stop))) =
      some [[(some (2, 3), [(4, 6)])]] := by
    decide +kernel
  obtain ⟨d, hparse, hd⟩ := exists_of_map_document (by decide +kernel) hview
  simp only [List.map_eq_cons_iff, List.map_eq_nil_iff, Prod.mk.injEq] at hd
  obtain ⟨set, _, hsets, ⟨s, _, hitems, ⟨hspan, directive, _, hbehind, hplace, rfl⟩, rfl⟩, -⟩ := hd
  obtain ⟨x, hx, hset⟩ := List.mem_flatMap.1 (hsets ▸ List.mem_cons_self)
  exact ⟨d, set, s, directive, hparse, .outer hx (Option.mem_toList.1 hset), hitems, hspan, hbehind,
    hplace⟩

end SelectionCheck
