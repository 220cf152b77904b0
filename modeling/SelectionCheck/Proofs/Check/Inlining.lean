import Mathlib.Data.List.Forall2
import SelectionCheck.Proofs.Check.Report

/-!
# Fragments written in place

A reference to a fragment is not followed by the check. The main statement says that nothing is lost
by this: if references to a fragment are replaced by the fragment written in place, at any number of
places, then what is reported afterwards was reported before. The exception is a field of a leaf
type with such a reference directly in its set. It was reported for its selections before, and what
it holds is now listed in other words.

`Visits.of_inlines` is the invariant of the two walks. A selection set that is visited after the
replacement either stands at the same address of the document before, up to replacements below it,
or it is part of a fragment written in place. In the second case it is visited before as well, from
the definition of the fragment: there it is made on the same type, under other keys. Fragments that
refer to themselves need no care, since the fragment written in place is the one of the definition.
-/

namespace SelectionCheck

/-! ## Replacing references -/

/-- `f.Inlines s s'`: `s'` is `s` with references to `f` replaced by `f` written in place, at any
number of places. -/
inductive Fragment.Inlines (f : Fragment) : Selection → Selection → Prop
  | kept (s : Selection) : Inlines f s s
  | replaced {ellipsis ellipsis' : Nat} {name : Name} {directives directives' : List Directive}
      (hname : name.value = f.name.value) :
      Inlines f (.spread ellipsis name directives)
        (.inline ellipsis' (some f.condition) directives' f.selections)
  | field {aliasName : Option Name} {name : Name} {arguments : Option (Bracketed Argument)}
      {directives : List Directive} {opening : Nat} {items items' : List Selection}
      {closing : Option Nat} (hitems : List.Forall₂ (Inlines f) items items') :
      Inlines f (.field aliasName name arguments directives (some ⟨opening, items, closing⟩))
        (.field aliasName name arguments directives (some ⟨opening, items', closing⟩))
  | inline {ellipsis : Nat} {condition : Option TypeCondition} {directives : List Directive}
      {opening : Nat} {items items' : List Selection} {closing : Option Nat}
      (hitems : List.Forall₂ (Inlines f) items items') :
      Inlines f (.inline ellipsis condition directives ⟨opening, items, closing⟩)
        (.inline ellipsis condition directives ⟨opening, items', closing⟩)

inductive Fragment.InlinesIn (f : Fragment) : Definition → Definition → Prop
  | kept (x : Definition) : InlinesIn f x x
  | operation {o : Operation} {items' : List Selection}
      (hitems : List.Forall₂ f.Inlines o.selections.items items') :
      InlinesIn f (.operation o)
        (.operation { o with selections := { o.selections with items := items' } })
  | fragment {g : Fragment} {items' : List Selection}
      (hitems : List.Forall₂ f.Inlines g.selections.items items') :
      InlinesIn f (.fragment g)
        (.fragment { g with selections := { g.selections with items := items' } })

/-- `d.Inlines f d'`: `d'` is `d` with references to `f` replaced by `f` written in place. -/
def Document.Inlines (f : Fragment) (d d' : Document) : Prop :=
  List.Forall₂ f.InlinesIn d.definitions d'.definitions

/-- A reference to `f` among the first selections is replaced among the second. -/
def Fragment.ReplacedAmong (f : Fragment) (items items' : List Selection) : Prop :=
  ∃ (j ellipsis ellipsis' : Nat) (name : Name) (directives directives' : List Directive),
    items[j]? = some (.spread ellipsis name directives) ∧ name.value = f.name.value ∧
      items'[j]? = some (.inline ellipsis' (some f.condition) directives' f.selections)

theorem forall₂_inlines_refl (f : Fragment) (items : List Selection) :
    List.Forall₂ f.Inlines items items :=
  List.forall₂_same.2 fun s _ => .kept s

theorem exists_of_forall₂_getElem? {α β : Type} {R : α → β → Prop} {xs : List α} {ys : List β}
    (h : List.Forall₂ R xs ys) {j : Nat} {y : β} (hj : ys[j]? = some y) :
    ∃ x, xs[j]? = some x ∧ R x y := by
  induction h generalizing j with
  | nil => cases hj
  | cons hr _ ih =>
      cases j with
      | zero =>
          cases hj
          exact ⟨_, rfl, hr⟩
      | succ j => exact ih hj

theorem forall₂_eq_nil_iff {α β : Type} {R : α → β → Prop} {xs : List α} {ys : List β}
    (h : List.Forall₂ R xs ys) : xs = [] ↔ ys = [] := by
  cases h <;> simp

/-! ## Replacing every reference -/

mutual

def Fragment.expand (f : Fragment) : Selection → Selection
  | .field aliasName name arguments directives none =>
    .field aliasName name arguments directives none
  | .field aliasName name arguments directives (some ⟨opening, items, closing⟩) =>
    .field aliasName name arguments directives (some ⟨opening, f.expandList items, closing⟩)
  | .spread ellipsis name directives =>
    if name.value = f.name.value then .inline ellipsis (some f.condition) directives f.selections
    else .spread ellipsis name directives
  | .inline ellipsis condition directives ⟨opening, items, closing⟩ =>
    .inline ellipsis condition directives ⟨opening, f.expandList items, closing⟩

def Fragment.expandList (f : Fragment) : List Selection → List Selection
  | [] => []
  | s :: items => f.expand s :: f.expandList items

end

def Fragment.expandIn (f : Fragment) : Definition → Definition
  | .operation o =>
    let items := f.expandList o.selections.items
    .operation { o with selections := { o.selections with items } }
  | .fragment g =>
    let items := f.expandList g.selections.items
    .fragment { g with selections := { g.selections with items } }
  | .type t => .type t
  | .schema s => .schema s

/-- A document with each reference to `f` replaced by `f` written in place, also in `f` itself. -/
def Document.expand (f : Fragment) (d : Document) : Document :=
  ⟨d.definitions.map f.expandIn⟩

theorem Fragment.forall₂_inlines_expandList (f : Fragment) {items : List Selection}
    (h : ∀ s ∈ items, f.Inlines s (f.expand s)) :
    List.Forall₂ f.Inlines items (f.expandList items) := by
  induction items with
  | nil => exact .nil
  | cons s items ih =>
      obtain ⟨hs, hitems⟩ := List.forall_mem_cons.1 h
      exact .cons hs (ih hitems)

theorem Fragment.inlines_expand (f : Fragment) (s : Selection) : f.Inlines s (f.expand s) := by
  induction s using Selection.induction with
  | field aliasName name arguments directives set ih =>
      match set with
      | none =>
          rw [Fragment.expand]
          exact .kept _
      | some ⟨opening, items, closing⟩ =>
          rw [Fragment.expand]
          exact .field (f.forall₂_inlines_expandList ih)
  | spread ellipsis name directives =>
      rw [Fragment.expand]
      split
      · next hname => exact .replaced hname
      · exact .kept _
  | inline ellipsis condition directives set ih =>
      obtain ⟨opening, items, closing⟩ := set
      rw [Fragment.expand]
      exact .inline (f.forall₂_inlines_expandList ih)

theorem Document.inlines_expand (d : Document) (f : Fragment) : d.Inlines f (d.expand f) := by
  rw [Document.Inlines, Document.expand, List.forall₂_map_right_iff, List.forall₂_same]
  intro x _
  have hitems (items : List Selection) := f.forall₂_inlines_expandList
    fun s (_ : s ∈ items) => f.inlines_expand s
  cases x with
  | operation o => exact .operation (hitems _)
  | fragment g => exact .fragment (hitems _)
  | type t => exact .kept _
  | schema s => exact .kept _

/-! ## What is visited -/

section Visits

variable {ts : Document} {f : Fragment} {d d' : Document}

theorem Document.Opens.of_inlinesIn {x x' : Definition} (h : f.InlinesIn x x')
    {p : SelectionScope} {set' : List Selection} (hopens : ts.Opens x' p set') :
    ∃ set, ts.Opens x p set ∧ List.Forall₂ f.Inlines set set' := by
  cases h with
  | kept => exact ⟨set', hopens, forall₂_inlines_refl f set'⟩
  | operation hitems =>
      cases hopens with
      | operation hroot => exact ⟨_, .operation hroot, hitems⟩
  | fragment hitems =>
      cases hopens with
      | fragment hcondition => exact ⟨_, .fragment hcondition, hitems⟩

/-- Where a selection leads after the replacement, it led before, unless it is a fragment written in
place of a reference. -/
theorem Document.Enters.of_inlines {s s' : Selection} (h : f.Inlines s s') {p q : SelectionScope}
    {set' : List Selection} (henters : ts.Enters p s' q set') :
    (∃ set, ts.Enters p s q set ∧ List.Forall₂ f.Inlines set set') ∨
      ts.IsComposite f.condition.name.value ∧ q.parent = f.condition.name.value ∧
        set' = f.selections.items := by
  cases h with
  | kept => exact .inl ⟨set', henters, forall₂_inlines_refl f set'⟩
  | replaced =>
      cases henters with
      | conditional hcondition => exact .inr ⟨hcondition, rfl, rfl⟩
  | field hitems =>
      cases henters with
      | field hreturns hcomposite hset =>
          exact .inl ⟨_, .field hreturns hcomposite (mt (forall₂_eq_nil_iff hitems).1 hset), hitems⟩
  | inline hitems =>
      cases henters with
      | inline => exact .inl ⟨_, .inline, hitems⟩
      | conditional hcondition => exact .inl ⟨_, .conditional hcondition, hitems⟩

/-- Where a selection leads depends on the type it is made on, and not on the keys before it. -/
theorem Document.Enters.exists_of_parent_eq {s : Selection} {p p' q : SelectionScope}
    {set : List Selection} (henters : ts.Enters p s q set) (hparent : p'.parent = p.parent) :
    ∃ q', ts.Enters p' s q' set ∧ q'.parent = q.parent := by
  cases henters with
  | inline => exact ⟨p', .inline, hparent⟩
  | conditional hcondition => exact ⟨_, .conditional hcondition, rfl⟩
  | field hreturns hcomposite hset =>
      rw [← hparent] at hreturns
      exact ⟨_, .field hreturns hcomposite hset, rfl⟩

/-- The invariant of the two walks. A set that is visited after the replacement stands at the same
address before, or it is visited before from the definition of the fragment. -/
theorem Document.Visits.of_inlines (hf : .fragment f ∈ d.definitions) (h : d.Inlines f d')
    {a : List Nat} {p : SelectionScope} {set' : List Selection} (hvisits : ts.Visits d' a p set') :
    (∃ set, ts.Visits d a p set ∧ List.Forall₂ f.Inlines set set') ∨
      ∃ b q, ts.Visits d b q set' ∧ q.parent = p.parent := by
  induction hvisits with
  | definition hi hopens =>
      obtain ⟨x, hx, hinlines⟩ := exists_of_forall₂_getElem? h hi
      obtain ⟨set, hopens, hset⟩ := hopens.of_inlinesIn hinlines
      exact .inl ⟨set, .definition hx hopens, hset⟩
  | selection _ hj henters ih =>
      rcases ih with ⟨set, hvisits, hset⟩ | ⟨b, q, hvisits, hparent⟩
      · obtain ⟨s, hs, hinlines⟩ := exists_of_forall₂_getElem? hset hj
        rcases henters.of_inlines hinlines with
          ⟨set, henters, hset⟩ | ⟨hcondition, hparent, rfl⟩
        · exact .inl ⟨set, .selection hvisits hs henters, hset⟩
        -- from here on the walk is inside the fragment, and goes on from its definition
        · obtain ⟨i, hi⟩ := List.mem_iff_getElem?.1 hf
          exact .inr ⟨[i], _, .definition hi (.fragment hcondition), hparent.symm⟩
      · obtain ⟨q', henters, hparent⟩ := henters.exists_of_parent_eq hparent
        exact .inr ⟨_, q', .selection hvisits hj henters, hparent⟩

end Visits

/-! ## What is reported -/

section Reports

variable {ts : Document} {f : Fragment} {d d' : Document}

/-- The names and conditions that are listed for a field of a leaf type, unless a reference to the
fragment is replaced among its selections. -/
theorem replacedAmong_or_filterMap_eq {items items' : List Selection}
    (h : List.Forall₂ f.Inlines items items') (returns : Text) :
    f.ReplacedAmong items items' ∨
      items.filterMap Selection.selectedName? = items'.filterMap Selection.selectedName? ∧
        items.filterMap (Selection.conditionName? returns) =
          items'.filterMap (Selection.conditionName? returns) := by
  induction h with
  | nil => exact .inr ⟨rfl, rfl⟩
  | @cons s s' items items' hs _ ih =>
      rcases ih with ⟨j, hreplaced⟩ | ⟨hselected, hconditions⟩
      · exact .inl ⟨j + 1, hreplaced⟩
      · cases hs with
        | replaced hname => exact .inl ⟨0, _, _, _, _, _, rfl, hname, rfl⟩
        | kept =>
            right
            simp only [List.filterMap_cons, hselected, hconditions, and_self]
        | field =>
            right
            simp only [List.filterMap_cons, Selection.selectedName?, Selection.conditionName?,
              hselected, hconditions, and_self]
        | @inline _ condition =>
            right
            cases condition <;>
              simp only [List.filterMap_cons, Selection.selectedName?, Selection.conditionName?,
                hselected, hconditions, and_self]

/-- `ts.ReplacedOnLeaf f d d' a v'`: at the address `a` stands a field of a leaf type that has a
reference to `f` directly in its set, which is replaced, and `v'` is what is wrong with this field
afterwards. -/
inductive Document.ReplacedOnLeaf (ts : Document) (f : Fragment) (d d' : Document) :
    List Nat → Violated → Prop
  | intro {a : List Nat} {p : SelectionScope} {set set' : List Selection} {j : Nat}
      {aliasName : Option Name} {name : Name} {arguments : Option (Bracketed Argument)}
      {directives : List Directive} {inner inner' : SelectionSet} {returns : Text} {v' : Violated}
      (hvisits : ts.Visits d a p set)
      (hj : set[j]? = some (.field aliasName name arguments directives (some inner)))
      (hvisits' : ts.Visits d' a p set')
      (hj' : set'[j]? = some (.field aliasName name arguments directives (some inner')))
      (hreturns : ts.Returns p.parent name.value returns) (hleaf : ts.IsLeaf returns)
      (hreplaced : f.ReplacedAmong inner.items inner'.items)
      (hmisuses : ts.Misuses p (.field aliasName name arguments directives (some inner')) v') :
      ReplacedOnLeaf ts f d d' (a ++ [j]) v'

theorem Document.ReplacedOnLeaf.violates {a : List Nat} {v' : Violated}
    (h : ts.ReplacedOnLeaf f d d' a v') :
    ∃ v, ts.Violates d a v ∧ v.misuse.kind = .selectionsOnLeaf ∧ v.offset = v'.offset ∧
      v.path = v'.path := by
  obtain ⟨hvisits, hj, -, -, hreturns, hleaf, ⟨k, _, _, _, _, _, hspread, -, -⟩, hmisuses⟩ := h
  refine ⟨_, .selection hvisits hj (.selections hreturns hleaf ?_), rfl, ?_⟩
  · exact ⟨_, List.mem_of_getElem? hspread, rfl⟩
  · cases hmisuses <;> exact ⟨rfl, rfl⟩

/-- What is wrong with a selection depends on the type it is made on; the keys before it are only
part of the report. -/
theorem Document.Misuses.exists_of_parent_eq {s : Selection} {p p' : SelectionScope} {v : Violated}
    (h : ts.Misuses p s v) (hparent : p'.parent = p.parent) :
    ∃ v', ts.Misuses p' s v' ∧ v'.misuse = v.misuse ∧ v'.offset = v.offset := by
  cases h with
  | noSelections hreturns hcomposite hset =>
      rw [← hparent] at hreturns
      exact ⟨_, .noSelections hreturns hcomposite hset, rfl, rfl⟩
  | selections hreturns hleaf hset =>
      rw [← hparent] at hreturns
      exact ⟨_, .selections hreturns hleaf hset, rfl, rfl⟩
  | inlineFragments hreturns hleaf hset =>
      rw [← hparent] at hreturns
      exact ⟨_, .inlineFragments hreturns hleaf hset, rfl, rfl⟩

theorem filterMap_selectedName?_ne_nil_iff {items : List Selection} :
    items.filterMap Selection.selectedName? ≠ [] ↔ ∃ s ∈ items, s.isInline = false := by
  rw [Ne, filterMap_selectedName?_eq_nil_iff, not_not]

theorem filterMap_conditionName?_ne_nil_iff (returns : Text) {items : List Selection} :
    items.filterMap (Selection.conditionName? returns) ≠ [] ↔
      ∃ s ∈ items, s.isInline = true := by
  rw [Ne, filterMap_conditionName?_eq_nil_iff, not_not]

/-- A field whose set has the same selections up to replacements below them is misused in the same
way, unless a reference is replaced directly in the set of a field of a leaf type. -/
theorem Document.Misuses.of_forall₂_inlines {p : SelectionScope} {aliasName : Option Name}
    {name : Name} {arguments : Option (Bracketed Argument)} {directives : List Directive}
    {opening : Nat} {items items' : List Selection} {closing : Option Nat} {v' : Violated}
    (hitems : List.Forall₂ f.Inlines items items')
    (h : ts.Misuses p
      (.field aliasName name arguments directives (some ⟨opening, items', closing⟩)) v') :
    ts.Misuses p (.field aliasName name arguments directives (some ⟨opening, items, closing⟩)) v' ∨
      f.ReplacedAmong items items' ∧
        ∃ returns, ts.Returns p.parent name.value returns ∧ ts.IsLeaf returns := by
  cases h with
  | noSelections hreturns hcomposite hset =>
      exact .inl (.noSelections hreturns hcomposite ((forall₂_eq_nil_iff hitems).2 hset))
  | @selections _ _ _ _ _ returns hreturns hleaf hset =>
      rcases replacedAmong_or_filterMap_eq hitems returns with hreplaced | ⟨hselected, -⟩
      · exact .inr ⟨hreplaced, returns, hreturns, hleaf⟩
      · have hsome := filterMap_selectedName?_ne_nil_iff.2 hset
        simp only [itemsOf] at hsome ⊢
        rw [← hselected] at hsome ⊢
        exact .inl (.selections hreturns hleaf (filterMap_selectedName?_ne_nil_iff.1 hsome))
  | @inlineFragments _ _ _ _ _ returns hreturns hleaf hset =>
      rcases replacedAmong_or_filterMap_eq hitems returns with hreplaced | ⟨-, hconditions⟩
      · exact .inr ⟨hreplaced, returns, hreturns, hleaf⟩
      · have hsome := (filterMap_conditionName?_ne_nil_iff returns).2 hset
        simp only [itemsOf] at hsome ⊢
        rw [← hconditions] at hsome ⊢
        exact .inl (.inlineFragments hreturns hleaf
          ((filterMap_conditionName?_ne_nil_iff returns).1 hsome))

/-- A violation after the replacement is one before, up to the keys that lead to it, or it is about
a field of a leaf type in whose set a reference was replaced. -/
theorem Document.Violates.of_inlines (hf : .fragment f ∈ d.definitions) (h : d.Inlines f d')
    {a : List Nat} {v' : Violated} (hviolates : ts.Violates d' a v') :
    (∃ b v, ts.Violates d b v ∧ v.misuse = v'.misuse ∧ v.offset = v'.offset) ∨
      ts.ReplacedOnLeaf f d d' a v' := by
  cases hviolates with
  | emptyOperation hi hroot hset =>
      obtain ⟨x, hx, hinlines⟩ := exists_of_forall₂_getElem? h hi
      left
      cases hinlines with
      | kept => exact ⟨_, _, .emptyOperation hx hroot hset, rfl, rfl⟩
      | operation hitems =>
          exact ⟨_, _, .emptyOperation hx hroot ((forall₂_eq_nil_iff hitems).2 hset), rfl, rfl⟩
  | selection hvisits' hj' hmisuses =>
      rcases hvisits'.of_inlines hf h with ⟨set, hvisits, hset⟩ | ⟨b, q, hvisits, hparent⟩
      · obtain ⟨s, hj, hinlines⟩ := exists_of_forall₂_getElem? hset hj'
        cases hinlines with
        | kept => exact .inl ⟨_, _, .selection hvisits hj hmisuses, rfl, rfl⟩
        | replaced => cases hmisuses
        | inline => cases hmisuses
        | field hitems =>
            rcases hmisuses.of_forall₂_inlines hitems with
              hmisuses | ⟨hreplaced, returns, hreturns, hleaf⟩
            · exact .inl ⟨_, _, .selection hvisits hj hmisuses, rfl, rfl⟩
            · exact .inr (.intro hvisits hj hvisits' hj' hreturns hleaf hreplaced hmisuses)
      · obtain ⟨v, hmisuses, hmisuse, hoffset⟩ := hmisuses.exists_of_parent_eq hparent
        exact .inl ⟨_, v, .selection hvisits hj' hmisuses, hmisuse, hoffset⟩

end Reports

/-! ## Findings -/

theorem Schema.Resolves.mem_validate_iff {schema : Schema} {ts : Document}
    (h : schema.Resolves ts) {query : Query} {e : Finding} :
    e ∈ schema.validate query ↔
      ∃ a v, ts.Violates query.document a v ∧ v.finding query.source = e := by
  obtain ⟨sites, hlisted, -, hcomplete⟩ := Document.reports h query.document
  rw [Schema.validate, hlisted, List.map_map, List.mem_map]
  constructor
  · rintro ⟨site, hsite, rfl⟩
    exact ⟨_, _, (hcomplete site).1 hsite, rfl⟩
  · rintro ⟨a, v, hviolates, rfl⟩
    exact ⟨⟨a, v⟩, (hcomplete ⟨a, v⟩).2 hviolates, rfl⟩

/-- A finding after the replacement is one before, up to the keys that lead to it, or it is about a
field of a leaf type that was reported for its selections. -/
theorem Schema.Resolves.finding_of_inlines {schema : Schema} {ts : Document}
    (hresolves : schema.Resolves ts) {query query' : Query} {f : Fragment}
    (hf : .fragment f ∈ query.document.definitions) (hsource : query'.source = query.source)
    (hinlines : query.document.Inlines f query'.document) {e' : Finding}
    (he' : e' ∈ schema.validate query') :
    (∃ e ∈ schema.validate query,
      e.kind = e'.kind ∧ e.message = e'.message ∧ e.locations = e'.locations) ∨
    ∃ a v', ts.ReplacedOnLeaf f query.document query'.document a v' ∧
      v'.finding query.source = e' ∧
      ∃ e ∈ schema.validate query,
        e.kind = .selectionsOnLeaf ∧ e.locations = e'.locations ∧ e.fields = e'.fields := by
  obtain ⟨a, v', hviolates, rfl⟩ := hresolves.mem_validate_iff.1 he'
  rw [hsource]
  rcases hviolates.of_inlines hf hinlines with ⟨b, v, hv, hmisuse, hoffset⟩ | hreplaced
  · refine .inl ⟨_, hresolves.mem_validate_iff.2 ⟨b, v, hv, rfl⟩, ?_⟩
    simp only [Violated.finding, hmisuse, hoffset, and_self]
  · obtain ⟨v, hv, hkind, hoffset, hpath⟩ := hreplaced.violates
    refine .inr ⟨a, v', hreplaced, rfl, _, hresolves.mem_validate_iff.2 ⟨a, v, hv, rfl⟩, ?_⟩
    simp only [Violated.finding, hkind, hoffset, hpath, and_self]

/-- Against a schema that a source defines, replacing references to a fragment by the fragment
written in place adds no finding: each finding afterwards has the kind, message and locations of one
before, except about a field of a leaf type that loses a reference, which was reported for its
selections before. -/
theorem validate_of_inlines {source : Text} {schema : Schema}
    (h : Schema.ofSource source = .ok schema) {query query' : Query} {f : Fragment}
    (hf : .fragment f ∈ query.document.definitions) (hsource : query'.source = query.source)
    (hinlines : query.document.Inlines f query'.document) :
    ∃ ts, parse source = ⟨some ts, []⟩ ∧
      (∀ e' ∈ schema.validate query',
        (∃ e ∈ schema.validate query,
          e.kind = e'.kind ∧ e.message = e'.message ∧ e.locations = e'.locations) ∨
        ∃ a v', ts.ReplacedOnLeaf f query.document query'.document a v' ∧
          v'.finding query.source = e' ∧
          ∃ e ∈ schema.validate query,
            e.kind = .selectionsOnLeaf ∧ e.locations = e'.locations ∧ e.fields = e'.fields) ∧
      (schema.validate query = [] → schema.validate query' = []) := by
  obtain ⟨ts, hparse, hschema⟩ := Schema.ofSource_eq_ok_iff.1 h
  have hresolves := Schema.resolves_of_ofDocument hschema
  refine ⟨ts, hparse, fun e' he' => hresolves.finding_of_inlines hf hsource hinlines he', ?_⟩
  intro hnil
  apply List.eq_nil_iff_forall_not_mem.2
  intro e' he'
  rcases hresolves.finding_of_inlines hf hsource hinlines he' with
    ⟨e, he, -⟩ | ⟨_, _, _, _, e, he, -⟩
  all_goals
    rw [hnil] at he
    cases he

def Definition.fragment? : Definition → Option Fragment
  | .fragment f => some f
  | .operation _ | .type _ | .schema _ => none

theorem Definition.eq_fragment_of_fragment? {x : Definition} {f : Fragment}
    (h : x.fragment? = some f) : x = .fragment f := by
  cases x <;> cases h
  rfl

/-- A query with a fragment that refers to itself, and with a reference to it on a leaf. -/
def selfReferringQuery : Text :=
  "query Q \x7b pet \x7b ...F name \x7b id ...F \x7d \x7d \x7d
fragment F on Pet \x7b friends \x7b ...F \x7d friends name \x7d"

theorem validate_expand_selfReferringQuery :
    ∃ schema query f, Schema.ofSource animalTypes = .ok schema ∧
      Query.ofSource selfReferringQuery = .ok query ∧
      .fragment f ∈ query.document.definitions ∧
      (schema.validate query).map Finding.kind = [.selectionsOnLeaf, .missingSelections] ∧
      (schema.validate ⟨query.source, query.document.expand f⟩).map Finding.kind =
        [.missingSelections, .selectionsOnLeaf, .inlineFragmentsOnLeaf, .missingSelections,
          .missingSelections] ∧
      ∃ ts, parse animalTypes = ⟨some ts, []⟩ ∧
        (∀ e' ∈ schema.validate ⟨query.source, query.document.expand f⟩,
          (∃ e ∈ schema.validate query,
            e.kind = e'.kind ∧ e.message = e'.message ∧ e.locations = e'.locations) ∨
          ∃ a v', ts.ReplacedOnLeaf f query.document (query.document.expand f) a v' ∧
            v'.finding query.source = e' ∧
            ∃ e ∈ schema.validate query,
              e.kind = .selectionsOnLeaf ∧ e.locations = e'.locations ∧ e.fields = e'.fields) ∧
        (schema.validate query = [] →
          schema.validate ⟨query.source, query.document.expand f⟩ = []) := by
  have hkinds :
      ((Schema.ofSource animalTypes).toOption.bind fun schema =>
        (Query.ofSource selfReferringQuery).toOption.bind fun query =>
          (query.document.definitions.findSome? Definition.fragment?).map fun f =>
            ((schema.validate query).map Finding.kind,
              (schema.validate ⟨query.source, query.document.expand f⟩).map Finding.kind)) =
        some ([.selectionsOnLeaf, .missingSelections],
          [.missingSelections, .selectionsOnLeaf, .inlineFragmentsOnLeaf, .missingSelections,
            .missingSelections]) := by
    rw [animalTypes, Text.ofString_ofList, selfReferringQuery, Text.ofString_ofList]
    decide +kernel
  obtain ⟨schema, hschema, hkinds⟩ := Option.bind_eq_some_iff.1 hkinds
  obtain ⟨query, hquery, hkinds⟩ := Option.bind_eq_some_iff.1 hkinds
  obtain ⟨f, hfind, hkinds⟩ := Option.map_eq_some_iff.1 hkinds
  obtain ⟨hbefore, hafter⟩ := Prod.mk.inj hkinds
  obtain ⟨x, hx, hfragment⟩ := List.exists_of_findSome?_eq_some hfind
  have hf : .fragment f ∈ query.document.definitions := by
    rwa [← Definition.eq_fragment_of_fragment? hfragment]
  have hofSource := eq_ok_of_toOption_eq_some hschema
  exact ⟨schema, query, f, hofSource, eq_ok_of_toOption_eq_some hquery, hf, hbefore, hafter,
    validate_of_inlines hofSource hf rfl (query.document.inlines_expand f)⟩

end SelectionCheck
