import SelectionCheck.Proofs.Check.Layout
import SelectionCheck.Proofs.Check.Order
import SelectionCheck.Proofs.Document.Locality
import SelectionCheck.Proofs.Document.Strings
import SelectionCheck.Proofs.Token.Joined

/-!
# Two queries in one

Two queries joined by a line feed are a query again. Its operations are those of the first and then
those of the second, and so are its findings; the findings of the second are as many lines further
down as the first query and the line feed take up. Each stage of the check is a homomorphism in this
sense: the tokens are joined (`lex_append_feed`), the definitions are (`definitions_append`), the walk
through them is one definition after the other, and a position in the second text is counted on from
the line behind the seam (`ofOffset_append_feed`).
-/

namespace SelectionCheck

open Placed (relocate)

/-! ## Queries and their tokens -/

namespace Query

variable {source : Text} {query : Query}

theorem isExecutable_of_ofSource (h : ofSource source = .ok query) :
    ∀ d ∈ query.document.definitions, d.isExecutable = true := by
  rw [ofSource] at h
  split at h
  · split at h
    · next d _ hrefused =>
        cases h
        intro definition hdefinition
        have hnone := List.filterMap_eq_nil_iff.1 hrefused definition hdefinition
        cases definition with
        | operation o => rfl
        | fragment f => rfl
        | type t => cases hnone
        | schema s => cases hnone
    · cases h
  · cases h

theorem ofSource_of_isExecutable {d : Document} (hparse : parse source = ⟨some d, []⟩)
    (hd : ∀ definition ∈ d.definitions, definition.isExecutable = true) :
    ofSource source = .ok ⟨source, d⟩ := by
  have hnone : d.definitions.filterMap (notExecutable? source) = [] := by
    rw [List.filterMap_eq_nil_iff]
    intro definition hdefinition
    have hexecutable := hd definition hdefinition
    cases definition with
    | operation o => rfl
    | fragment f => rfl
    | type t => cases hexecutable
    | schema s => cases hexecutable
  rw [ofSource, hparse]
  simp only [hnone]

/-- What it takes for a source to be a query, said of its tokens. -/
structure ReadAs (source : Text) (d : Document) : Prop where
  tokens : (lex source).flatMap Token.errors = []
  definitions : Grammar.definitions (lex source) = (d.definitions, [])
  executable : ∀ definition ∈ d.definitions, definition.isExecutable = true

theorem readAs_of_ofSource (h : ofSource source = .ok query) : ReadAs source query.document := by
  obtain ⟨htokens, hdefinitions⟩ := tokens_of_parse (parse_of_ofSource h).2
  exact ⟨htokens, hdefinitions, isExecutable_of_ofSource h⟩

namespace ReadAs

variable {d : Document} (h : ReadAs source d)
include h

theorem spells : Spells d.pieces (lex source) :=
  Grammar.definitions_spell (lexed_lex source) h.definitions

theorem settled : Token.Settled (lex source) :=
  ⟨h.tokens, h.spells.getLast?_kind d.getLast?_words⟩

theorem ofSource (hsize : source.length ≤ sizeLimit) : ofSource source = .ok ⟨source, d⟩ := by
  refine ofSource_of_isExecutable ?_ h.executable
  rw [parse_of_lexical hsize h.tokens, h.definitions]
  rfl

theorem offset_lt (schema : Schema) {v : Violated} (hv : v ∈ d.violated schema) :
    v.offset < source.length := by
  have hoffset := h.spells.offsets_sublist.subset ((d.ordered schema).mem v hv)
  obtain ⟨t, ht, hstart⟩ := List.mem_map.1 hoffset
  have hkind := Token.kind_ne_unknown_of_errors (List.flatMap_eq_nil_iff.1 h.tokens t ht)
  obtain ⟨i, b, hi, hbyte, -⟩ := Token.exists_moves_of_mem_lexFrom ht hkind
  obtain ⟨hlt, -⟩ := List.getElem?_eq_some_iff.1 hbyte
  omega

end ReadAs

end Query

/-! ## Definitions further on -/

theorem Definition.isExecutable_relocate (f : Nat → Nat) (d : Definition) :
    (relocate f d).isExecutable = d.isExecutable := by
  cases d <;> rfl

theorem Query.operationNames_relocate (f : Nat → Nat) (source source' : Text) (d : Document) :
    (Query.mk source' (relocate f d)).operationNames = (Query.mk source d).operationNames := by
  refine filterMap_relocate f ?_ d.definitions
  intro definition
  cases definition with
  | operation o =>
      obtain ⟨start, type, name, parameters, directives, selections⟩ := o
      cases name <;> rfl
  | fragment | type | schema => rfl

namespace Query.ReadAs

variable {s₁ s₂ : Text} {d₁ d₂ : Document}

theorem append_feed (h₁ : ReadAs s₁ d₁) (h₂ : ReadAs s₂ d₂) :
    ReadAs (s₁ ++ 0x0A :: s₂)
      ⟨d₁.definitions ++ (relocate (· + (s₁.length + 1)) d₂).definitions⟩ := by
  have htokens := lex_append_feed h₁.settled s₂
  have hmoved : ∀ definition ∈ (relocate (· + (s₁.length + 1)) d₂).definitions,
      definition.isExecutable = true := by
    intro definition hdefinition
    obtain ⟨original, horiginal, rfl⟩ := List.mem_map.1 hdefinition
    rw [Definition.isExecutable_relocate]
    exact h₂.executable original horiginal
  have hexecutable : ∀ definition ∈
      d₁.definitions ++ (relocate (· + (s₁.length + 1)) d₂).definitions,
      definition.isExecutable = true := by
    intro definition hdefinition
    rcases List.mem_append.1 hdefinition with hfirst | hsecond
    · exact h₁.executable definition hfirst
    · exact hmoved definition hsecond
  have hsecond : Grammar.definitions (relocate (· + (s₁.length + 1)) (lex s₂)) =
      ((relocate (· + (s₁.length + 1)) d₂).definitions, []) := by
    rw [Grammar.definitions_equivariant, h₂.definitions]
    rfl
  refine ⟨?_, ?_, hexecutable⟩
  · rw [htokens, List.flatMap_append, h₁.tokens,
      relocate_flatMap _ fun t _ => Token.errors_equivariant _ t, h₂.tokens]
    rfl
  · rw [htokens, Grammar.definitions_append _ (by rw [h₁.definitions]) (by rw [hsecond]) ?_,
      h₁.definitions, hsecond]
    rw [h₁.definitions, hsecond]
    exact hexecutable

end Query.ReadAs

/-! ## Findings further down -/

def Finding.lower (lines : Nat) (e : Finding) : Finding :=
  { e with locations := e.locations.map fun l => ⟨l.line + lines, l.column⟩ }

theorem Violated.finding_append_of_lt (more : Text) {source : Text} {v : Violated}
    (h : v.offset < source.length) : v.finding (source ++ 0x0A :: more) = v.finding source := by
  rw [Violated.finding, Violated.finding, Position.ofOffset_append_of_lt more h]

theorem Violated.finding_append_feed (source more : Text) (v : Violated) :
    (relocate (· + (source.length + 1)) v).finding (source ++ 0x0A :: more) =
      (v.finding more).lower (Position.linesOf source) := by
  have hoffset : (relocate (· + (source.length + 1)) v).offset = source.length + 1 + v.offset :=
    Nat.add_comm _ _
  have hmessage : (relocate (· + (source.length + 1)) v).misuse.message = v.misuse.message :=
    v.misuse.message_relocate _
  have hkind : (relocate (· + (source.length + 1)) v).misuse.kind = v.misuse.kind :=
    v.misuse.kind_relocate _
  rw [Violated.finding, hoffset, Position.ofOffset_append_feed, hmessage, hkind]
  rfl

/-- Two queries joined by a line feed are one query, with the operations and the findings of the
first before those of the second; the findings of the second are further down by the lines of the
first. -/
theorem check_append_feed {s₁ s₂ : Text} {q₁ q₂ : Query} (h₁ : Query.ofSource s₁ = .ok q₁)
    (h₂ : Query.ofSource s₂ = .ok q₂) (hsize : s₁.length + 1 + s₂.length ≤ sizeLimit) :
    ∃ q, Query.ofSource (s₁ ++ "\n" ++ s₂) = .ok q ∧
      q.operationNames = q₁.operationNames ++ q₂.operationNames ∧
      ∀ schema : Schema, schema.check (s₁ ++ "\n" ++ s₂) = schema.check s₁ ++
        (schema.check s₂).map
          (Finding.lower ((Position.ofOffset (s₁ ++ "\n") (s₁.length + 1)).line - 1)) := by
  have hread₁ := Query.readAs_of_ofSource h₁
  have hread := hread₁.append_feed (Query.readAs_of_ofSource h₂)
  have hlength : (s₁ ++ 0x0A :: s₂).length ≤ sizeLimit := by
    rw [List.length_append, List.length_cons]
    omega
  have hjoined : s₁ ++ "\n" ++ s₂ = s₁ ++ 0x0A :: s₂ := List.append_assoc s₁ [0x0A] s₂
  have hsource := hread.ofSource hlength
  rw [hjoined]
  refine ⟨_, hsource, ?_, ?_⟩
  · have hnames := Query.operationNames_relocate (· + (s₁.length + 1)) q₂.source
      (s₁ ++ 0x0A :: s₂) q₂.document
    rw [Query.operationNames, List.filterMap_append]
    exact congrArg (q₁.operationNames ++ ·) hnames
  · intro schema
    rw [Schema.check, hsource, Schema.check, h₁, Schema.check, h₂]
    simp only [Schema.validate, (Query.parse_of_ofSource h₁).1, (Query.parse_of_ofSource h₂).1]
    rw [Document.violated, List.flatMap_append, List.map_append]
    congr 1
    · refine List.map_congr_left fun v hv => ?_
      exact Violated.finding_append_of_lt s₂ (hread₁.offset_lt schema hv)
    · have hmoved := Document.violated_equivariant schema (· + (s₁.length + 1)) q₂.document
      rw [Document.violated] at hmoved
      rw [hmoved, List.map_map]
      exact map_relocate _ (fun v => v.finding_append_feed s₁ s₂) _

def commentedQuery : Text := "query A \x7b pet \x7d\n# c\r"

def markedQuery : Text := "\uFEFFquery B \x7b\nkind \x7b a \x7d \x7d"

theorem check_append_feed_commentedQuery :
    ∃ schema q₁ q₂ q, Schema.ofSource animalTypes = .ok schema ∧
      Query.ofSource commentedQuery = .ok q₁ ∧ Query.ofSource markedQuery = .ok q₂ ∧
      (schema.check commentedQuery).map Finding.locations = [[⟨1, 11⟩]] ∧
      (schema.check markedQuery).map Finding.locations = [[⟨2, 1⟩]] ∧
      Query.ofSource (commentedQuery ++ "\n" ++ markedQuery) = .ok q ∧
      q.operationNames = (["A", "B"] : List Text) ∧
      schema.check (commentedQuery ++ "\n" ++ markedQuery) = schema.check commentedQuery ++
        (schema.check markedQuery).map (Finding.lower 2) := by
  have hplaces :
      ((Schema.ofSource animalTypes).toOption.bind fun schema =>
        (Query.ofSource commentedQuery).toOption.bind fun q₁ =>
          (Query.ofSource markedQuery).toOption.map fun q₂ =>
            ((schema.check commentedQuery).map Finding.locations,
              (schema.check markedQuery).map Finding.locations,
              q₁.operationNames ++ q₂.operationNames)) =
        some (([[⟨1, 11⟩]], [[⟨2, 1⟩]], ["A", "B"]) :
          List (List Location) × List (List Location) × List Text) := by
    rw [animalTypes, Text.ofString_ofList, commentedQuery, Text.ofString_ofList, markedQuery,
      Text.ofString_ofList]
    decide +kernel
  simp only [Option.bind_eq_some_iff, Option.map_eq_some_iff, Prod.mk.injEq] at hplaces
  obtain ⟨schema, hschema, q₁, hq₁, q₂, hq₂, hfirst, hsecond, hnames⟩ := hplaces
  have h₁ := eq_ok_of_toOption_eq_some hq₁
  have h₂ := eq_ok_of_toOption_eq_some hq₂
  obtain ⟨q, hq, hoperations, hcheck⟩ := check_append_feed h₁ h₂ (by decide +kernel)
  have hlines : (Position.ofOffset (commentedQuery ++ "\n") (commentedQuery.length + 1)).line - 1 =
      2 := by decide +kernel
  refine ⟨schema, q₁, q₂, q, eq_ok_of_toOption_eq_some hschema, h₁, h₂, hfirst, hsecond, hq, ?_, ?_⟩
  · rw [hoperations, hnames]
  · rw [hcheck schema, hlines]

end SelectionCheck
