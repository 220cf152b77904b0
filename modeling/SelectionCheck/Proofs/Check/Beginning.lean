import SelectionCheck.Proofs.Check.Joined
import SelectionCheck.Proofs.Document.Consumed

/-!
# Where definitions begin

A definition keeps the offset of its first token, unless a description stands in front of it: a
type definition keeps the offset of its keyword, and the description has its own. So the offset of
a definition is where the definitions before it end, exactly if it has no description.

The finding about a definition that is neither an operation nor a fragment points to the offset
kept. Positions of different tokens differ, so for a type with a description it points to the
keyword and not to the token with which the definition begins.
-/

namespace SelectionCheck

/-! ## The first tokens of a definition -/

namespace Definition

def description? : Definition → Option Description
  | .type d => d.description
  | .operation _ | .fragment _ | .schema _ => none

/-- A definition over the tokens `first :: rest`. Its offset is the offset of `first` exactly if
there is no description; a description is `first`, and the offset is the one of the next token. -/
structure Begins (d : Definition) (first : Token) (rest : List Token) : Prop where
  start_iff : d.start = first.start ↔ d.description? = none
  described : ∀ description, d.description? = some description →
    description.start = first.start ∧
      ∃ keyword behind, rest = keyword :: behind ∧ keyword.start = d.start

/-- Behind its description a definition is written with the token whose offset it keeps. -/
theorem exists_pieces (d : Definition) :
    ∃ p ps, d.pieces = d.description?.toList.map Description.piece ++ p :: ps ∧
      p.place = .recorded (some d.start) ∧ p.optional = false := by
  cases d with
  | operation o =>
      by_cases hshort : o.isShorthand = true
      · have hstart : o.start = o.selections.opening := by
          simp only [Operation.isShorthand, Bool.and_eq_true, decide_eq_true_eq] at hshort
          exact hshort.1.1.1.1
        exact ⟨.mark .lbrace (some o.selections.opening), _, if_pos hshort,
          congrArg (fun n => Place.recorded (some n)) hstart.symm, rfl⟩
      · exact ⟨.lexeme .name o.type.keyword o.start, _, if_neg hshort, rfl, rfl⟩
  | fragment f => exact ⟨_, _, rfl, rfl, rfl⟩
  | type d => exact ⟨_, _, rfl, rfl, rfl⟩
  | schema d => exact ⟨_, _, rfl, rfl, rfl⟩

theorem exists_begins {d : Definition} {ts : List Token} (h : Spells d.pieces ts)
    (hlexed : Lexed ts) : ∃ first rest, ts = first :: rest ∧ d.Begins first rest := by
  obtain ⟨p, ps, hpieces, hplace, hp⟩ := d.exists_pieces
  rw [hpieces] at h
  cases hdescription : d.description? with
  | none =>
      rw [hdescription] at h
      obtain ⟨first, rest, rfl, hfirst, -⟩ := h.exists_of_cons hp
      have hstart : d.start = first.start := hfirst.start_eq hplace
      exact ⟨first, rest, rfl, iff_of_true hstart hdescription, by simp [hdescription]⟩
  | some description =>
      rw [hdescription] at h
      obtain ⟨first, _, rfl, hfirst, h⟩ := h.exists_of_cons rfl
      obtain ⟨keyword, behind, rfl, hkeyword, -⟩ := h.exists_of_cons hp
      have hstart : d.start = keyword.start := hkeyword.start_eq hplace
      have hlt : first.start < keyword.start :=
        List.rel_of_pairwise_cons hlexed.increasing List.mem_cons_self
      refine ⟨first, keyword :: behind, rfl, ?_, ?_⟩
      · rw [hstart, hdescription]
        exact iff_of_false (Nat.ne_of_gt hlt) (Option.some_ne_none description)
      · rintro _ hsome
        cases hdescription.symm.trans hsome
        exact ⟨hfirst.start_eq rfl, keyword, behind, rfl, hstart.symm⟩

end Definition

/-! ## Definitions that are refused -/

theorem Location.ofPosition_injective : Function.Injective Location.ofPosition := by
  rintro ⟨line, column⟩ ⟨line', column'⟩ h
  simp only [ofPosition, Location.mk.injEq, Int.natCast_inj] at h
  rw [h.1, h.2]

namespace Query

variable {source : Text} {x : Definition}

/-- What is reported about a definition that is neither an operation nor a fragment. -/
def refusal (source : Text) (x : Definition) : Finding :=
  .atPosition "not an operation nor a fragment" (.ofOffset source x.start)

theorem notExecutable?_eq (source : Text) (x : Definition) :
    notExecutable? source x = if x.isExecutable then none else some (refusal source x) := by
  cases x <;> rfl

theorem filterMap_notExecutable? (source : Text) (ds : List Definition) :
    ds.filterMap (notExecutable? source) =
      (ds.filter fun d => !d.isExecutable).map (refusal source) := by
  induction ds with
  | nil => rfl
  | cons d ds ih =>
      rw [List.filterMap_cons, notExecutable?_eq, List.filter_cons]
      cases d.isExecutable <;> simp [ih]

theorem ofSource_of_not_isExecutable {d : Document} (h : parse source = ⟨some d, []⟩)
    (hx : x ∈ d.definitions) (hrefused : x.isExecutable = false) :
    ofSource source =
      .error ((d.definitions.filter fun d => !d.isExecutable).map (refusal source)) := by
  have hmem : x ∈ d.definitions.filter fun d => !d.isExecutable :=
    List.mem_filter.2 ⟨hx, by rw [hrefused]; rfl⟩
  rw [ofSource, h]
  simp only [filterMap_notExecutable?]
  cases hfindings : (d.definitions.filter fun d => !d.isExecutable).map (refusal source) with
  | nil =>
      rw [List.map_eq_nil_iff.1 hfindings] at hmem
      cases hmem
  | cons finding findings => rfl

/-- A refusal points to the offset that the definition keeps. It points to another token only if the
definition does not keep the offset of that one. -/
theorem locations_refusal_iff {first : Token} {rest : List Token} (hfirst : first ∈ lex source)
    (hkind : first.kind ≠ .unknown) (hlexed : Lexed (first :: rest)) (hx : x.Begins first rest) :
    (refusal source x).locations = [.ofPosition (.ofOffset source first.start)] ↔
      x.description? = none := by
  rw [← hx.start_iff]
  constructor
  · intro h
    have hposition := Location.ofPosition_injective (List.singleton_inj.1 h)
    by_contra hne
    obtain ⟨description, hdescription⟩ := Option.ne_none_iff_exists'.1 (mt hx.start_iff.2 hne)
    obtain ⟨-, keyword, behind, rfl, hkeyword⟩ := hx.described description hdescription
    have hlt : first.start < x.start := by
      rw [← hkeyword]
      exact List.rel_of_pairwise_cons hlexed.increasing List.mem_cons_self
    exact (ofOffset_lt_of_mem_lex hfirst hkind hlt).ne' hposition
  · intro h
    rw [← h]
    rfl

end Query

/-! ## Documents -/

/-- The definitions of a source without errors divide its tokens among them. Each is read from the
first token that those before it have left, and keeps the offset of this token exactly if it has no
description. If it is refused in a query, it is reported in its turn, and what is reported points to
this token exactly if it has no description. -/
theorem start_definition_eq_iff {source : Text} {d : Document} (h : parse source = ⟨some d, []⟩)
    {earlier later : List Definition} {x : Definition}
    (hx : d.definitions = earlier ++ x :: later) :
    ∃ before first rest after,
      lex source = before ++ (first :: rest) ++ after ∧
      Spells (earlier.flatMap Definition.pieces) before ∧
      Grammar.Row Grammar.definition (.ofTokens (lex source)) earlier
        ⟨(first :: rest) ++ after, before.length⟩ ∧
      Grammar.Consumes Grammar.definition before (first :: rest) after (some x) ∧
      x.Begins first rest ∧ (∀ t, x = .type t → t.keyword = x.start) ∧
      (x.isExecutable = false → ∃ findings finding,
        Query.ofSource source = .error findings ∧
        findings[(earlier.filter fun d => !d.isExecutable).length]? = some finding ∧
        finding.message = "not an operation nor a fragment" ∧
        (finding.locations = [.ofPosition (.ofOffset source first.start)] ↔
          x.description? = none)) := by
  obtain ⟨c', hrow, -⟩ := row_of_parse h
  rw [hx] at hrow
  obtain ⟨c₁, c₂, hearlier, hread, -⟩ := hrow.exists_of_append_cons
  obtain ⟨before, taken, hcut, hc₁, hc₂, hbefore, hspells⟩ :=
    (hearlier.reads Grammar.definition_taking).exists_cut (Grammar.definition_taking hread).1
      (lexed_lex source)
  have hlexed : Lexed taken := (hcut ▸ lexed_lex source).left.right
  obtain ⟨first, rest, rfl, hbegins⟩ := Definition.exists_begins hspells hlexed
  have hfirst : first ∈ lex source := by
    rw [hcut]
    simp
  have hkind := Token.kind_ne_unknown_of_errors
    (List.flatMap_eq_nil_iff.1 (tokens_of_parse h).1 first hfirst)
  refine ⟨before, first, rest, c₂.ahead, hcut, hbefore, hc₁ ▸ hearlier, ?_, hbegins, ?_,
    fun hrefused => ?_⟩
  · rw [Grammar.Consumes, ← hc₁, ← hc₂]
    exact hread
  · rintro t rfl
    rfl
  · refine ⟨_, Query.refusal source x,
      Query.ofSource_of_not_isExecutable h (by rw [hx]; simp) hrefused, ?_, rfl,
      Query.locations_refusal_iff hfirst hkind hlexed hbegins⟩
    rw [hx, List.filter_append, List.filter_cons, hrefused]
    simp

/-- A query, a type with a description, and the roots of a schema. -/
def describedSource : Text := "\x7b a \x7d \"d\" scalar S schema \x7b query: Q \x7d"

theorem start_definition_describedSource :
    ∃ d query scalar schema, parse describedSource = ⟨some d, []⟩ ∧
      d.definitions = [query] ++ scalar :: [schema] ∧ scalar.start = 10 ∧
      ∃ before first rest after, lex describedSource = before ++ (first :: rest) ++ after ∧
        Spells query.pieces before ∧
        Grammar.Consumes Grammar.definition before (first :: rest) after (some scalar) ∧
        first.start = 6 ∧
        ∃ findings finding, Query.ofSource describedSource = .error findings ∧
          findings[0]? = some finding ∧
          finding.locations ≠ [.ofPosition (.ofOffset describedSource 6)] := by
  have hview : (parse describedSource).document.map (fun d => d.definitions.map fun x =>
      (x.isExecutable, x.start, x.description?)) =
        some [(true, 0, none), (false, 10, some ⟨6, "\"d\""⟩), (false, 19, none)] := by
    decide +kernel
  obtain ⟨d, hparse, hd⟩ := exists_of_map_document (by decide +kernel) hview
  simp only [List.map_eq_cons_iff, List.map_eq_nil_iff, Prod.mk.injEq] at hd
  obtain ⟨query, _, hdefinitions, ⟨hquery, -, -⟩, scalar, _, rfl, ⟨hscalar, hstart, hdescription⟩,
    schema, _, rfl, -, rfl⟩ := hd
  have hcut : d.definitions = [query] ++ scalar :: [schema] := hdefinitions
  obtain ⟨before, first, rest, after, hlex, hbefore, -, hread, hbegins, -, hfindings⟩ :=
    start_definition_eq_iff hparse hcut
  have hfirst := (hbegins.described _ hdescription).1
  obtain ⟨findings, finding, hsource, hfinding, -, hlocations⟩ := hfindings hscalar
  rw [List.flatMap_singleton] at hbefore
  rw [List.filter_cons, hquery] at hfinding
  refine ⟨d, query, scalar, schema, hparse, hcut, hstart, before, first, rest, after, hlex,
    hbefore, hread, hfirst.symm, findings, finding, hsource, hfinding, ?_⟩
  rw [← hfirst, hdescription] at hlocations
  exact mt hlocations.1 (Option.some_ne_none _)

def describedScalar : Text := "\"d\" scalar S"

/-- The definition begins with the description at the offset 0 and keeps the offset 4, and so does
what is reported about it. -/
theorem start_definition_describedScalar :
    ∃ d x, parse describedScalar = ⟨some d, []⟩ ∧ d.definitions = [x] ∧
      (lex describedScalar).head?.map Token.start = some 0 ∧ x.start = 4 ∧
      Query.ofSource describedScalar =
        .error [.atPosition "not an operation nor a fragment" ⟨1, 5⟩] := by
  have hview : (parse describedScalar).document.map (fun d => d.definitions.map fun x =>
      (x.isExecutable, x.start)) = some [(false, 4)] := by
    decide +kernel
  obtain ⟨d, hparse, hd⟩ := exists_of_map_document (by decide +kernel) hview
  simp only [List.map_eq_cons_iff, List.map_eq_nil_iff, Prod.mk.injEq] at hd
  obtain ⟨x, _, hdefinitions, ⟨hrefused, hstart⟩, rfl⟩ := hd
  have hposition : Position.ofOffset describedScalar 4 = ⟨1, 5⟩ := by decide +kernel
  refine ⟨d, x, hparse, hdefinitions, by decide +kernel, hstart, ?_⟩
  rw [Query.ofSource_of_not_isExecutable hparse (by rw [hdefinitions]; simp) hrefused, hdefinitions,
    List.filter_cons, hrefused, ← hposition, ← hstart]
  rfl

end SelectionCheck
