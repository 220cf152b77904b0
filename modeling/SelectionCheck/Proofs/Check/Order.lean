import SelectionCheck.Proofs.Check.Report
import SelectionCheck.Proofs.Document.Account
import SelectionCheck.Proofs.Token.Position

/-!
# Findings come in document order

The findings about a query are listed from the top of the document to its end, and two findings
about one place differ in kind, in the order in which the kinds are numbered. Three things have to
fit together for this. The tree of a document without errors keeps offsets that grow in the order
in which its parts are written, since they are those of its tokens. The walk through the tree meets
the parts in that order and reports each of them at its own offset (`Ordered`). And a later token
has a later line and column.
-/

namespace SelectionCheck

/-! ## Offsets in the order of writing -/

def Piece.offset? (p : Piece) : Option Nat :=
  match p.place with
  | .unrecorded => none
  | .recorded offset => if p.optional then none else offset

/-- The offsets that a tree keeps are those of tokens, in their order. -/
theorem Spells.offsets_sublist {ps : List Piece} {ts : List Token} (h : Spells ps ts) :
    (ps.filterMap Piece.offset?).Sublist (ts.map Token.start) := by
  induction h with
  | nil => exact .slnil
  | @take p t ps ts hdenotes _ ih =>
      rw [List.map_cons, List.filterMap_cons]
      cases hoffset : p.offset? with
      | none => exact ih.cons _
      | some offset =>
          have hstart : offset = t.start := by
            have hagrees := hdenotes.agrees
            rw [Piece.offset?] at hoffset
            split at hoffset
            · cases hoffset
            · next recorded hplace =>
                rw [hplace] at hagrees
                split at hoffset
                · cases hoffset
                · exact Option.some.inj (hoffset.symm.trans hagrees)
          rw [hstart]
          exact ih.cons_cons _
  | @skip p ps ts hoptional _ ih =>
      have hnone : p.offset? = none := by
        rw [Piece.offset?]
        split
        · rfl
        · rw [if_pos hoptional]
      rw [List.filterMap_cons_none hnone]
      exact ih

/-! ## The order of the walk -/

def FindingKind.rank (kind : FindingKind) : Nat := all.idxOf kind

/-- The first violation is about an earlier place, or both are about one place and the first is of
an earlier kind. -/
def Violated.Before (v w : Violated) : Prop :=
  v.offset < w.offset ∨ v.offset = w.offset ∧ v.misuse.kind.rank < w.misuse.kind.rank

/-- The violations are about offsets that the pieces keep, and they come in the order of these
offsets if the offsets grow. -/
structure Ordered (pieces : List Piece) (violated : List Violated) : Prop where
  mem : ∀ v ∈ violated, v.offset ∈ pieces.filterMap Piece.offset?
  pairwise : (pieces.filterMap Piece.offset?).Pairwise (· < ·) → violated.Pairwise Violated.Before

namespace Ordered

variable {ps qs : List Piece} {violated more : List Violated}

theorem nil (ps : List Piece) : Ordered ps [] :=
  ⟨nofun, fun _ => .nil⟩

theorem mono (h : Ordered ps violated) (hsub : ps.Sublist qs) : Ordered qs violated where
  mem v hv := (hsub.filterMap Piece.offset?).subset (h.mem v hv)
  pairwise hgrow := h.pairwise (hgrow.sublist (hsub.filterMap Piece.offset?))

theorem append (h : Ordered ps violated) (h' : Ordered qs more) :
    Ordered (ps ++ qs) (violated ++ more) where
  mem v hv := by
    rw [List.filterMap_append, List.mem_append]
    exact (List.mem_append.1 hv).imp (h.mem v) (h'.mem v)
  pairwise hgrow := by
    rw [List.filterMap_append] at hgrow
    obtain ⟨hfirst, hsecond, hacross⟩ := List.pairwise_append.1 hgrow
    refine List.pairwise_append.2 ⟨h.pairwise hfirst, h'.pairwise hsecond, ?_⟩
    intro v hv w hw
    exact .inl (hacross _ (h.mem v hv) _ (h'.mem w hw))

theorem flatMap {α : Type} {pieces : α → List Piece} {f : α → List Violated} {items : List α}
    (h : ∀ x ∈ items, Ordered (pieces x) (f x)) :
    Ordered (items.flatMap pieces) (items.flatMap f) := by
  induction items with
  | nil => exact .nil _
  | cons x items ih =>
      obtain ⟨hx, hitems⟩ := List.forall_mem_cons.1 h
      exact hx.append (ih hitems)

theorem here {offset : Nat} (hoffset : ∀ v ∈ violated, v.offset = offset)
    (hmem : offset ∈ ps.filterMap Piece.offset?)
    (hkinds : violated.Pairwise fun v w =>
      v.misuse.kind = .selectionsOnLeaf ∧ w.misuse.kind = .inlineFragmentsOnLeaf) :
    Ordered ps violated where
  mem v hv := by
    rw [hoffset v hv]
    exact hmem
  pairwise _ := by
    refine hkinds.imp_of_mem fun {v w} hv hw hkind => .inr ⟨?_, ?_⟩
    · rw [hoffset v hv, hoffset w hw]
    · rw [hkind.1, hkind.2]
      decide

end Ordered

/-- The selections of a field are part of what the field is written with. -/
theorem flatMap_pieces_sublist (set : Option SelectionSet) :
    ((itemsOf set).flatMap Selection.pieces).Sublist (set.elim [] SelectionSet.pieces) := by
  cases set with
  | none => exact .slnil
  | some set => exact (List.sublist_append_left _ _).cons _

theorem flatMap_pieces_sublist_set (set : SelectionSet) :
    (set.items.flatMap Selection.pieces).Sublist set.pieces :=
  flatMap_pieces_sublist (some set)

theorem fieldKey_start_mem (aliasName : Option Name) (name : Name) (ps : List Piece) :
    (Selection.fieldKey aliasName name).start ∈
      (aliasPieces aliasName ++ name.piece :: ps).filterMap Piece.offset? := by
  cases aliasName <;>
    simp [aliasPieces, Selection.fieldKey, Name.piece, Piece.lexeme, Piece.offset?]

/-- The walk below a selection reports violations in the order in which the selection is written. -/
theorem Selection.ordered (table : TypeTable) (s : Selection) : ∀ (parent : Text)
    (path : FieldPath), Ordered s.pieces (s.violated table parent path) := by
  induction s using Selection.induction with
  | field aliasName name arguments directives set ih =>
      intro parent path
      rw [Selection.pieces_field]
      cases hfield : (table.fieldType? (.named parent false) name.value).map TypeExpr.base with
      | none =>
          have hnone : (Selection.field aliasName name arguments directives set).violated table
              parent path = [] := by
            cases set <;> simp only [Selection.violated, TypeTable.fieldTypeName?, hfield]
          rw [hnone]
          exact .nil _
      | some returns =>
          rw [Selection.violated_field hfield]
          have hkey := fieldKey_start_mem aliasName name
          cases table.classOf (.named returns false) with
          | composite =>
              by_cases hset : itemsOf set = []
              · simp only [if_pos hset]
                exact .here (by simp) (hkey _) (List.pairwise_singleton _ _)
              · simp only [if_neg hset]
                apply (Ordered.flatMap fun x hx => ih x hx returns _).mono
                -- the set is written last
                refine (flatMap_pieces_sublist set).trans ?_
                refine .trans ?_ (List.sublist_append_right _ _)
                refine .cons _ (.trans ?_ (List.sublist_append_right _ _))
                exact List.sublist_append_right _ _
          | leaf => exact .here (by simp) (hkey _) (pairwise_leafMisuses _ _ _ _)
          | unresolved => exact .nil _
  | spread ellipsis name directives =>
      intro parent path
      rw [Selection.violated]
      exact .nil _
  | inline ellipsis condition directives set ih =>
      intro parent path
      rw [Selection.violated, Selection.pieces_inline]
      cases table.conditionType? parent condition with
      | none => exact .nil _
      | some type =>
          simp only [violatedSet_eq_flatMap]
          apply (Ordered.flatMap fun x hx => ih x hx type path).mono
          refine (flatMap_pieces_sublist_set set).trans (.cons _ (.trans ?_
            (List.sublist_append_right _ _)))
          exact List.sublist_append_right _ _

theorem Operation.start_mem (o : Operation) : o.start ∈ o.pieces.filterMap Piece.offset? := by
  rw [Operation.pieces]
  split
  · next hshort =>
      have hstart : o.start = o.selections.opening := by
        simp only [Operation.isShorthand, Bool.and_eq_true, decide_eq_true_eq] at hshort
        exact hshort.1.1.1.1
      rw [hstart]
      simp [SelectionSet.pieces, Bracketed.pieces, Piece.mark, Piece.offset?]
  · simp [Piece.lexeme, Piece.offset?]

theorem Operation.selections_sublist (o : Operation) : o.selections.pieces.Sublist o.pieces := by
  rw [Operation.pieces]
  split
  · exact .refl _
  · refine .cons _ (.trans (.trans ?_ (List.sublist_append_right _ _))
      (List.sublist_append_right _ _))
    exact List.sublist_append_right _ _

theorem Operation.ordered (schema : Schema) (o : Operation) :
    Ordered o.pieces (o.violated schema) := by
  rw [Operation.violated]
  cases schema.root? o.type with
  | none => exact .nil _
  | some root =>
      cases hitems : o.selections.items with
      | nil => exact .here (by simp) o.start_mem (List.pairwise_singleton _ _)
      | cons x items =>
          simp only [violatedSet_eq_flatMap]
          apply (Ordered.flatMap fun s _ => s.ordered schema.types root _).mono
          exact (flatMap_pieces_sublist_set o.selections).trans o.selections_sublist

theorem Fragment.ordered (schema : Schema) (f : Fragment) :
    Ordered f.pieces (f.violated schema) := by
  rw [Fragment.violated]
  cases schema.types.classOf (.named f.condition.name.value false) with
  | composite =>
      simp only [violatedSet_eq_flatMap]
      apply (Ordered.flatMap fun s _ => s.ordered schema.types _ _).mono
      refine (flatMap_pieces_sublist_set f.selections).trans (.cons _ (.cons _ (.trans ?_
        (List.sublist_append_right _ _))))
      exact List.sublist_append_right _ _
  | leaf => exact .nil _
  | unresolved => exact .nil _

/-- The walk through a document reports violations in the order in which it is written. -/
theorem Document.ordered (schema : Schema) (d : Document) :
    Ordered d.pieces (d.violated schema) := by
  refine .flatMap fun x _ => ?_
  cases x with
  | operation o => exact o.ordered schema
  | fragment f => exact f.ordered schema
  | type t => exact .nil _
  | schema s => exact .nil _

/-! ## Lines and columns -/

/-- The line, the column and the number of the kind of a finding about one place. -/
def Finding.key? (e : Finding) : Option (ℤ ×ₗ ℤ ×ₗ ℕ) :=
  match e.locations with
  | [l] => some (toLex (l.line, toLex (l.column, e.kind.rank)))
  | _ => none

def Violated.key (source : Text) (v : Violated) : ℤ ×ₗ ℤ ×ₗ ℕ :=
  let p := Position.ofOffset source v.offset
  toLex ((p.line : ℤ), toLex ((p.column : ℤ), v.misuse.kind.rank))

theorem Violated.key_lt_key {source : Text} {v w : Violated}
    (h : Position.ofOffset source v.offset < Position.ofOffset source w.offset ∨
      v.offset = w.offset ∧ v.misuse.kind.rank < w.misuse.kind.rank) :
    v.key source < w.key source := by
  simp only [Violated.key, Prod.Lex.toLex_lt_toLex, Int.ofNat_lt, Int.natCast_inj]
  rcases h with hposition | ⟨hoffset, hrank⟩
  · rcases Position.lt_iff.1 hposition with hline | ⟨hline, hcolumn⟩
    · exact .inl hline
    · exact .inr ⟨hline, .inl hcolumn⟩
  · rw [hoffset]
    exact .inr ⟨rfl, .inr ⟨rfl, hrank⟩⟩

theorem Token.kind_ne_unknown_of_errors {t : Token} (h : t.errors = []) : t.kind ≠ .unknown := by
  intro hkind
  rw [Token.errors, hkind] at h
  cases h

theorem Query.parse_of_ofSource {source : Text} {query : Query}
    (h : Query.ofSource source = .ok query) :
    query.source = source ∧ parse source = ⟨some query.document, []⟩ := by
  rw [Query.ofSource] at h
  split at h
  · next d hparse =>
      split at h
      · cases h
        exact ⟨rfl, hparse⟩
      · cases h
  · cases h

/-- The findings about a source that is a query have one location each, and line, column and kind
grow from each finding to the next. -/
theorem key?_check_strictly_increasing {source : Text} {query : Query}
    (h : Query.ofSource source = .ok query) (schema : Schema) :
    ∃ keys : List (ℤ ×ₗ ℤ ×ₗ ℕ),
      (schema.check source).map Finding.key? = keys.map some ∧ keys.Pairwise (· < ·) := by
  obtain ⟨hsource, hparse⟩ := Query.parse_of_ofSource h
  have htokens := (tokens_of_parse hparse).1
  have hordered := query.document.ordered schema
  have hoffsets := (spells_of_parse hparse).offsets_sublist
  have hgrow : (query.document.pieces.filterMap Piece.offset?).Pairwise (· < ·) :=
    (List.pairwise_map.2 (lexed_lex source).increasing).sublist hoffsets
  refine ⟨(query.document.violated schema).map (Violated.key source), ?_, ?_⟩
  · rw [Schema.check, h]
    simp only [Schema.validate, hsource, List.map_map]
    rfl
  · rw [List.pairwise_map]
    refine (hordered.pairwise hgrow).imp_of_mem fun {v w} hv _ hbefore => ?_
    obtain ⟨t, ht, hstart⟩ := List.mem_map.1 (hoffsets.subset (hordered.mem v hv))
    have hkind := Token.kind_ne_unknown_of_errors (List.flatMap_eq_nil_iff.1 htokens t ht)
    refine Violated.key_lt_key (hbefore.imp_left fun hlt => ?_)
    rw [← hstart] at hlt ⊢
    exact ofOffset_lt_of_mem_lex ht hkind hlt

/-- A query with byte order marks and all three line ends, of which the first line has nothing to
report. -/
def mixedLinesQuery : Text :=
  "\uFEFFquery Q \x7b kind # \uFEFF\r\n\uFEFF pet\rpet\uFEFF \x7b name \x7b a ... \x7b b \x7d \x7d
 friends \x7d \x7d"

theorem key?_check_mixedLinesQuery :
    ∃ schema query, Schema.ofSource animalTypes = .ok schema ∧
      Query.ofSource mixedLinesQuery = .ok query ∧
      (schema.check mixedLinesQuery).map (fun e => (e.locations, e.kind)) =
        [([⟨2, 2⟩], .missingSelections), ([⟨3, 7⟩], .selectionsOnLeaf),
          ([⟨3, 7⟩], .inlineFragmentsOnLeaf), ([⟨4, 2⟩], .missingSelections)] ∧
      ∃ keys : List (ℤ ×ₗ ℤ ×ₗ ℕ),
        (schema.check mixedLinesQuery).map Finding.key? = keys.map some ∧
          keys.Pairwise (· < ·) := by
  have hplaces :
      ((Schema.ofSource animalTypes).toOption.bind fun schema =>
        (Query.ofSource mixedLinesQuery).toOption.map fun _ =>
          (schema.check mixedLinesQuery).map fun e => (e.locations, e.kind)) =
        some [([⟨2, 2⟩], .missingSelections), ([⟨3, 7⟩], .selectionsOnLeaf),
          ([⟨3, 7⟩], .inlineFragmentsOnLeaf), ([⟨4, 2⟩], .missingSelections)] := by
    rw [animalTypes, Text.ofString_ofList, mixedLinesQuery, Text.ofString_ofList]
    decide +kernel
  obtain ⟨schema, hschema, hplaces⟩ := Option.bind_eq_some_iff.1 hplaces
  obtain ⟨query, hquery, hplaces⟩ := Option.map_eq_some_iff.1 hplaces
  have hofSource := eq_ok_of_toOption_eq_some hquery
  exact ⟨schema, query, eq_ok_of_toOption_eq_some hschema, hofSource, hplaces,
    key?_check_strictly_increasing hofSource schema⟩

end SelectionCheck
