import SelectionCheck.Proofs.Check.Visit

/-!
# The check reports the violations

The main statement compares the list of findings with the relation `Violates`: against an accepted
schema, the findings are those of the violations of the query, each of them once and in document
order. The list is compared with addresses put back in, since two violations of one query may look
the same and a list of findings alone does not tell them apart.

`Reports` is the invariant of the walk. It holds of a list of selections or definitions if it holds
of each (`reports_flatMap`), so one induction over selections is left, with one case for each way
in which a field meets its type.
-/

namespace SelectionCheck

structure Site where
  address : List Nat
  violated : Violated

namespace Site

def under (i : Nat) (site : Site) : Site := ⟨i :: site.address, site.violated⟩

/-- The first site comes earlier in the document, or the two are about the same field and the first
is about what is selected from it, the second about the fragments written in place. -/
def Before (a b : Site) : Prop :=
  a.address < b.address ∨ a.address = b.address ∧
    a.violated.misuse.kind = .selectionsOnLeaf ∧ b.violated.misuse.kind = .inlineFragmentsOnLeaf

theorem before_under_iff {i : Nat} {a b : Site} :
    (a.under i).Before (b.under i) ↔ a.Before b := by
  simp [Before, under]

end Site

/-- The list has one entry for each address and violation in the relation, in document order. -/
def Reports (R : List Nat → Violated → Prop) (violated : List Violated) : Prop :=
  ∃ sites : List Site, violated = sites.map Site.violated ∧ sites.Pairwise Site.Before ∧
    ∀ site, site ∈ sites ↔ R site.address site.violated

/-! ## Lists of reports -/

section Reports

variable {R R' : List Nat → Violated → Prop} {violated : List Violated}

theorem Reports.congr (h : Reports R violated) (hR : ∀ a v, R a v ↔ R' a v) :
    Reports R' violated := by
  obtain ⟨sites, hlisted, hordered, hcomplete⟩ := h
  exact ⟨sites, hlisted, hordered, fun site => (hcomplete site).trans (hR _ _)⟩

theorem reports_empty (h : ∀ a v, ¬ R a v) : Reports R [] :=
  ⟨[], rfl, .nil, fun site => by simp [h]⟩

theorem reports_here
    (h : violated.Pairwise fun v w =>
      v.misuse.kind = .selectionsOnLeaf ∧ w.misuse.kind = .inlineFragmentsOnLeaf) :
    Reports (fun a v => a = [] ∧ v ∈ violated) violated := by
  refine ⟨violated.map (⟨[], ·⟩), ?_, ?_, ?_⟩
  · rw [List.map_map]
    exact (List.map_id violated).symm
  · rw [List.pairwise_map]
    exact h.imp fun hkinds => .inr ⟨rfl, hkinds⟩
  · rintro ⟨a, v⟩
    simpa [eq_comm] using and_comm

theorem reports_flatMap_from {α : Type} {Q : α → List Nat → Violated → Prop}
    {f : α → List Violated} (n : Nat) (items : List α)
    (h : ∀ x ∈ items, Reports (Q x) (f x)) :
    Reports (fun a v => ∃ i b x, a = (n + i) :: b ∧ items[i]? = some x ∧ Q x b v)
      (items.flatMap f) := by
  induction items generalizing n with
  | nil => exact ⟨[], rfl, .nil, by simp⟩
  | cons x items ih =>
      obtain ⟨first, hfirst, hfirstOrdered, hfirstComplete⟩ := h x List.mem_cons_self
      obtain ⟨rest, hrest, hrestOrdered, hrestComplete⟩ :=
        ih (n + 1) fun y hy => h y (List.mem_cons_of_mem x hy)
      refine ⟨first.map (Site.under n) ++ rest, ?_, ?_, ?_⟩
      · rw [List.flatMap_cons, hfirst, hrest, List.map_append, List.map_map]
        rfl
      · refine List.pairwise_append.2 ⟨?_, hrestOrdered, ?_⟩
        · rw [List.pairwise_map]
          exact hfirstOrdered.imp Site.before_under_iff.2
        · intro a ha b hb
          obtain ⟨a, -, rfl⟩ := List.mem_map.1 ha
          obtain ⟨i, c, -, haddress, -⟩ := (hrestComplete b).1 hb
          left
          rw [haddress, Site.under, List.cons_lt_cons_iff]
          omega
      · rintro ⟨a, v⟩
        rw [List.mem_append, List.mem_map, hrestComplete]
        constructor
        · rintro (⟨site, hsite, heq⟩ | ⟨i, b, y, rfl, hy, hQ⟩)
          · cases heq
            exact ⟨0, _, x, rfl, rfl, (hfirstComplete site).1 hsite⟩
          · exact ⟨i + 1, b, y, by rw [Nat.add_assoc, Nat.add_comm 1], hy, hQ⟩
        · rintro ⟨i, b, y, rfl, hy, hQ⟩
          cases i with
          | zero =>
              cases hy
              exact .inl ⟨⟨b, v⟩, (hfirstComplete _).2 hQ, rfl⟩
          | succ i => exact .inr ⟨i, b, y, by rw [Nat.add_assoc, Nat.add_comm 1], hy, hQ⟩

theorem reports_flatMap {α : Type} {Q : α → List Nat → Violated → Prop} {f : α → List Violated}
    {items : List α} (h : ∀ x ∈ items, Reports (Q x) (f x)) :
    Reports (fun a v => ∃ i b x, a = i :: b ∧ items[i]? = some x ∧ Q x b v)
      (items.flatMap f) := by
  refine (reports_flatMap_from 0 items h).congr fun a v => ?_
  simp only [Nat.zero_add]

end Reports

/-! ## Selections -/

section Selections

variable {ts : Document} {p : SelectionScope} {s : Selection} {violated : List Violated}

theorem reports_of_not_enters (hmisuses : ∀ v, ts.Misuses p s v ↔ v ∈ violated)
    (henters : ∀ p' set, ¬ ts.Enters p s p' set)
    (hkinds : violated.Pairwise fun v w =>
      v.misuse.kind = .selectionsOnLeaf ∧ w.misuse.kind = .inlineFragmentsOnLeaf) :
    Reports (ts.Below p s) violated := by
  refine (reports_here hkinds).congr fun a v => ?_
  constructor
  · rintro ⟨rfl, hv⟩
    exact .here ((hmisuses v).2 hv)
  · rintro (⟨h⟩ | ⟨h, -, -⟩)
    · exact ⟨rfl, (hmisuses v).1 h⟩
    · exact absurd h (henters _ _)

theorem reports_nil (hmisuses : ∀ v, ¬ ts.Misuses p s v)
    (henters : ∀ p' set, ¬ ts.Enters p s p' set) : Reports (ts.Below p s) [] := by
  apply reports_empty
  rintro a v (⟨h⟩ | ⟨h, -, -⟩)
  · exact hmisuses v h
  · exact henters _ _ h

theorem reports_of_enters {q : SelectionScope} {items : List Selection}
    {f : Selection → List Violated} (hmisuses : ∀ v, ¬ ts.Misuses p s v)
    (henters : ts.Enters p s q items)
    (hunique : ∀ p' set, ts.Enters p s p' set → p' = q ∧ set = items)
    (h : ∀ x ∈ items, Reports (ts.Below q x) (f x)) :
    Reports (ts.Below p s) (items.flatMap f) := by
  refine (reports_flatMap h).congr fun a v => ?_
  constructor
  · rintro ⟨i, b, x, rfl, hx, hbelow⟩
    exact .enter henters hx hbelow
  · rintro (⟨h⟩ | ⟨h, hj, hbelow⟩)
    · exact absurd h (hmisuses v)
    · obtain ⟨rfl, rfl⟩ := hunique _ _ h
      exact ⟨_, _, _, rfl, hj, hbelow⟩

theorem violatedList_eq_flatMap (table : TypeTable) (parent : Text) (path : FieldPath)
    (items : List Selection) :
    violatedList table parent path items =
      items.flatMap (Selection.violated table parent path) := by
  induction items with
  | nil => rfl
  | cons x items ih => rw [violatedList, ih, List.flatMap_cons]

theorem violatedSet_eq_flatMap (table : TypeTable) (parent : Text) (path : FieldPath)
    (set : SelectionSet) :
    violatedSet table parent path set =
      set.items.flatMap (Selection.violated table parent path) := by
  obtain ⟨opening, items, closing⟩ := set
  rw [violatedSet, violatedList_eq_flatMap]

end Selections

section Fields

variable {aliasName : Option Name} {name : Name} {arguments : Option (Bracketed Argument)}
  {directives : List Directive} {set : Option SelectionSet} {returns : Text}

/-- What the walk lists for a field, by the class of its type. A field without a set is one with
nothing in it. -/
theorem Selection.violated_field {table : TypeTable} {parent : Text} {path : FieldPath}
    (h : (table.fieldType? (.named parent false) name.value).map TypeExpr.base = some returns) :
    (Selection.field aliasName name arguments directives set).violated table parent path =
      let key := Selection.fieldKey aliasName name
      let path := path.push key.value
      match table.classOf (.named returns false) with
      | .composite =>
        if itemsOf set = [] then [⟨.noSelections name.value returns, key.start, path.toList⟩]
        else (itemsOf set).flatMap (Selection.violated table returns path)
      | .leaf =>
        (leafMisuses name.value returns (itemsOf set)).map (⟨·, key.start, path.toList⟩)
      | .unresolved => [] := by
  cases set with
  | none =>
      simp only [Selection.violated, TypeTable.fieldTypeName?, h, itemsOf]
      cases table.classOf (.named returns false) <;> simp [leafMisuses]
  | some set =>
      obtain ⟨opening, items, closing⟩ := set
      simp only [Selection.violated, TypeTable.fieldTypeName?, h, itemsOf, violatedSet_eq_flatMap]
      cases table.classOf (.named returns false) <;> cases items <;> simp

theorem filterMap_selectedName?_eq_nil_iff {items : List Selection} :
    items.filterMap Selection.selectedName? = [] ↔ ¬ ∃ s ∈ items, s.isInline = false := by
  rw [List.filterMap_eq_nil_iff]
  simp only [not_exists, not_and]
  refine forall₂_congr fun s _ => ?_
  cases s <;> simp [Selection.selectedName?, Selection.isInline]

theorem filterMap_conditionName?_eq_nil_iff {items : List Selection} :
    items.filterMap (Selection.conditionName? returns) = [] ↔
      ¬ ∃ s ∈ items, s.isInline = true := by
  rw [List.filterMap_eq_nil_iff]
  simp only [not_exists, not_and]
  refine forall₂_congr fun s _ => ?_
  rcases s with _ | _ | ⟨ellipsis, _ | condition, directives, set⟩ <;>
    simp [Selection.conditionName?, Selection.isInline]

theorem mem_leafMisuses_iff {field : Text} {items : List Selection} {m : Misuse} :
    m ∈ leafMisuses field returns items ↔
      ((∃ s ∈ items, s.isInline = false) ∧
        m = .selections field returns (items.filterMap Selection.selectedName?)) ∨
      ((∃ s ∈ items, s.isInline = true) ∧
        m = .inlineFragments field returns
          (items.filterMap (Selection.conditionName? returns))) := by
  simp only [leafMisuses, List.mem_append, List.isEmpty_iff, filterMap_selectedName?_eq_nil_iff,
    filterMap_conditionName?_eq_nil_iff]
  by_cases hselected : ∃ s ∈ items, s.isInline = false <;>
    by_cases hinline : ∃ s ∈ items, s.isInline = true <;>
    simp [hselected, hinline]

theorem pairwise_leafMisuses (field : Text) (items : List Selection) (offset : Nat)
    (keys : List Text) :
    ((leafMisuses field returns items).map (⟨·, offset, keys⟩)).Pairwise fun v w : Violated =>
      v.misuse.kind = .selectionsOnLeaf ∧ w.misuse.kind = .inlineFragmentsOnLeaf := by
  simp only [leafMisuses]
  split <;> split <;> simp [Misuse.kind]

variable {schema : Schema} {ts : Document} (hresolves : schema.Resolves ts) {p : SelectionScope}
  {path : FieldPath} (hpath : path.toList = p.path)
include hresolves hpath

theorem reports_field_of_isComposite
    (hreturns : ts.Returns p.parent name.value returns) (hcomposite : ts.IsComposite returns)
    (ih : ∀ x ∈ itemsOf set, ∀ (p : SelectionScope) (path : FieldPath), path.toList = p.path →
      Reports (ts.Below p x) (x.violated schema.types p.parent path)) :
    Reports (ts.Below p (.field aliasName name arguments directives set))
      ((Selection.field aliasName name arguments directives set).violated schema.types p.parent
        path) := by
  rw [Selection.violated_field (hresolves.returns.2 hreturns), hresolves.composite.2 hcomposite]
  have hpush := FieldPath.toList_push path (Selection.fieldKey aliasName name).value
  rw [hpath] at hpush
  by_cases hset : itemsOf set = []
  · simp only [hset, if_true, hpush]
    apply reports_of_not_enters
    · intro v
      rw [List.mem_singleton]
      constructor
      · rintro (⟨hreturns', -, -⟩ | ⟨hreturns', hleaf, -⟩ | ⟨hreturns', hleaf, -⟩)
        · rw [hresolves.returns_unique hreturns' hreturns]
        · exact absurd hleaf (hresolves.not_isLeaf hreturns hcomposite hreturns')
        · exact absurd hleaf (hresolves.not_isLeaf hreturns hcomposite hreturns')
      · rintro rfl
        exact .noSelections hreturns hcomposite hset
    · intro p' set' henters
      cases henters with
      | field _ _ hne => exact hne hset
    · exact List.pairwise_singleton _ _
  · cases set with
    | none => exact absurd rfl hset
    | some set =>
        simp only [if_neg hset]
        apply reports_of_enters _ (.field hreturns hcomposite hset)
        · intro p' set' henters
          cases henters with
          | field hreturns' _ _ =>
              rw [hresolves.returns_unique hreturns' hreturns]
              exact ⟨rfl, rfl⟩
        · intro x hx
          exact ih x hx _ _ hpush
        · intro v hmisuses
          cases hmisuses with
          | noSelections _ _ hempty => exact hset hempty
          | selections hreturns' hleaf _ =>
              exact hresolves.not_isLeaf hreturns hcomposite hreturns' hleaf
          | inlineFragments hreturns' hleaf _ =>
              exact hresolves.not_isLeaf hreturns hcomposite hreturns' hleaf

theorem reports_field_of_isLeaf (hreturns : ts.Returns p.parent name.value returns)
    (hleaf : ts.IsLeaf returns) :
    Reports (ts.Below p (.field aliasName name arguments directives set))
      ((Selection.field aliasName name arguments directives set).violated schema.types p.parent
        path) := by
  rw [Selection.violated_field (hresolves.returns.2 hreturns), hresolves.leaf.2 hleaf]
  simp only [FieldPath.toList_push, hpath]
  apply reports_of_not_enters
  · intro v
    rw [List.mem_map]
    simp only [mem_leafMisuses_iff]
    constructor
    · intro hmisuses
      cases hmisuses with
      | noSelections hreturns' hcomposite _ =>
          exact absurd hleaf (hresolves.not_isLeaf hreturns' hcomposite hreturns)
      | selections hreturns' _ hset =>
          cases hresolves.returns_unique hreturns' hreturns
          exact ⟨_, .inl ⟨hset, rfl⟩, rfl⟩
      | inlineFragments hreturns' _ hset =>
          cases hresolves.returns_unique hreturns' hreturns
          exact ⟨_, .inr ⟨hset, rfl⟩, rfl⟩
    · rintro ⟨m, ⟨hset, rfl⟩ | ⟨hset, rfl⟩, rfl⟩
      · exact .selections hreturns hleaf hset
      · exact .inlineFragments hreturns hleaf hset
  · intro p' set' henters
    cases henters with
    | field hreturns' hcomposite _ =>
        exact hresolves.not_isLeaf hreturns' hcomposite hreturns hleaf
  · exact pairwise_leafMisuses _ _ _ _

omit hresolves hpath in
theorem reports_nil_of_not_returns
    (h : ∀ returns, ts.Returns p.parent name.value returns →
      ¬ ts.IsComposite returns ∧ ¬ ts.IsLeaf returns) :
    Reports (ts.Below p (.field aliasName name arguments directives set)) [] := by
  apply reports_nil
  · intro v hmisuses
    cases hmisuses with
    | noSelections hreturns hcomposite _ => exact (h _ hreturns).1 hcomposite
    | selections hreturns hleaf _ => exact (h _ hreturns).2 hleaf
    | inlineFragments hreturns hleaf _ => exact (h _ hreturns).2 hleaf
  · intro p' set' henters
    cases henters with
    | field hreturns hcomposite _ => exact (h _ hreturns).1 hcomposite

omit hpath in
/-- The walk below a selection reports what is wrong below it. -/
theorem Selection.reports (s : Selection) : ∀ (p : SelectionScope) (path : FieldPath),
    path.toList = p.path → Reports (ts.Below p s) (s.violated schema.types p.parent path) := by
  induction s using Selection.induction with
  | field aliasName name arguments directives set ih =>
      intro p path hpath
      cases hfield : (schema.types.fieldType? (.named p.parent false) name.value).map
          TypeExpr.base with
      | none =>
          have hnone : (Selection.field aliasName name arguments directives set).violated
              schema.types p.parent path = [] := by
            cases set <;> simp only [Selection.violated, TypeTable.fieldTypeName?, hfield]
          rw [hnone]
          apply reports_nil_of_not_returns
          intro returns hreturns
          rw [hresolves.returns.2 hreturns] at hfield
          cases hfield
      | some returns =>
          have hreturns := hresolves.returns.1 hfield
          cases hclass : schema.types.classOf (.named returns false) with
          | composite =>
              exact reports_field_of_isComposite hresolves hpath hreturns
                (hresolves.composite.1 hclass) ih
          | leaf =>
              exact reports_field_of_isLeaf hresolves hpath hreturns (hresolves.leaf.1 hclass)
          | unresolved =>
              rw [Selection.violated_field hfield, hclass]
              apply reports_nil_of_not_returns
              intro returns' hreturns'
              cases hresolves.returns_unique hreturns' hreturns
              rw [← hresolves.composite, ← hresolves.leaf, hclass]
              decide
  | spread ellipsis name directives =>
      intro p path _
      rw [Selection.violated]
      apply reports_nil
      · intro v hmisuses
        cases hmisuses
      · intro p' set' henters
        cases henters
  | inline ellipsis condition directives set ih =>
      intro p path hpath
      have hmisuses : ∀ v, ¬ ts.Misuses p (.inline ellipsis condition directives set) v := by
        intro v hmisuses
        cases hmisuses
      cases condition with
      | none =>
          simp only [Selection.violated, TypeTable.conditionType?, violatedSet_eq_flatMap]
          apply reports_of_enters hmisuses .inline
          · intro p' set' henters
            cases henters
            exact ⟨rfl, rfl⟩
          · exact fun x hx => ih x hx p path hpath
      | some condition =>
          by_cases hcondition : ts.IsComposite condition.name.value
          · simp only [Selection.violated, TypeTable.conditionType?,
              hresolves.composite.2 hcondition, violatedSet_eq_flatMap]
            apply reports_of_enters hmisuses (.conditional hcondition)
            · intro p' set' henters
              cases henters
              exact ⟨rfl, rfl⟩
            · exact fun x hx => ih x hx ⟨condition.name.value, p.path⟩ path hpath
          · have hclass := mt hresolves.composite.1 hcondition
            have hnone : (Selection.inline ellipsis (some condition) directives set).violated
                schema.types p.parent path = [] := by
              cases hcase : schema.types.classOf (.named condition.name.value false) <;>
                simp_all [Selection.violated, TypeTable.conditionType?]
            rw [hnone]
            apply reports_nil hmisuses
            intro p' set' henters
            cases henters with
            | conditional hcomposite => exact hcondition hcomposite

end Fields

/-! ## Definitions -/

section Definitions

variable {schema : Schema} {ts : Document} (hresolves : schema.Resolves ts)
include hresolves

theorem reports_of_opens {x : Definition} {p : SelectionScope} {items : List Selection}
    (hopens : ts.Opens x p items)
    (hunique : ∀ p' set, ts.Opens x p' set → p' = p ∧ set = items)
    (hempty : ∀ v, ¬ ts.Within x [] v) {path : FieldPath} (hpath : path.toList = p.path) :
    Reports (ts.Within x)
      (items.flatMap (Selection.violated schema.types p.parent path)) := by
  refine (reports_flatMap fun s _ => s.reports hresolves p path hpath).congr fun a v => ?_
  constructor
  · rintro ⟨i, b, s, rfl, hs, hbelow⟩
    exact .selection hopens hs hbelow
  · intro hwithin
    cases hwithin with
    | emptyOperation hroot hset => exact absurd (.emptyOperation hroot hset) (hempty _)
    | selection hopens' hj hbelow =>
        obtain ⟨rfl, rfl⟩ := hunique _ _ hopens'
        exact ⟨_, _, _, rfl, hj, hbelow⟩

theorem Operation.reports (o : Operation) :
    Reports (ts.Within (.operation o)) (o.violated schema) := by
  have hunique : ∀ {root root'}, ts.HasRoot o.type root → ts.HasRoot o.type root' →
      root = root' := by
    intro root root' h h'
    rw [← hresolves.root] at h h'
    exact Option.some.inj (h.symm.trans h')
  cases hroot : schema.root? o.type with
  | none =>
      have hnone : o.violated schema = [] := by rw [Operation.violated, hroot]
      rw [hnone]
      apply reports_empty
      intro a v hwithin
      have hno : ∀ root, ¬ ts.HasRoot o.type root := by
        simp [← hresolves.root, hroot]
      rcases hwithin with ⟨h, -⟩ | ⟨⟨h⟩, -, -⟩
      · exact hno _ h
      · exact hno _ h
  | some root =>
      have hroot' := hresolves.root.1 hroot
      by_cases hset : o.selections.items = []
      · have hsingle : o.violated schema =
            [⟨.emptyOperation o.type o.name root, o.start, [o.segment]⟩] := by
          simp [Operation.violated, hroot, hset]
        rw [hsingle]
        refine (reports_here (List.pairwise_singleton _ _)).congr fun a v => ?_
        rw [List.mem_singleton]
        constructor
        · rintro ⟨rfl, rfl⟩
          exact .emptyOperation hroot' hset
        · rintro (⟨h, -⟩ | ⟨⟨-⟩, hj, -⟩)
          · cases hunique h hroot'
            exact ⟨rfl, rfl⟩
          · simp [hset] at hj
      · have hwalk : o.violated schema = o.selections.items.flatMap
            (Selection.violated schema.types root (FieldPath.root.push o.segment)) := by
          rw [← violatedSet_eq_flatMap]
          obtain ⟨x, items, hitems⟩ := List.exists_cons_of_ne_nil hset
          simp [Operation.violated, hroot, hitems]
        rw [hwalk]
        apply reports_of_opens hresolves (.operation hroot')
        · rintro p' set' ⟨h⟩
          cases hunique h hroot'
          exact ⟨rfl, rfl⟩
        · rintro v ⟨-, h⟩
          exact hset h
        · simp

theorem Fragment.reports (f : Fragment) :
    Reports (ts.Within (.fragment f)) (f.violated schema) := by
  by_cases hcondition : ts.IsComposite f.condition.name.value
  · rw [Fragment.violated, hresolves.composite.2 hcondition]
    simp only [violatedSet_eq_flatMap]
    apply reports_of_opens hresolves (.fragment hcondition)
    · rintro p' set' ⟨⟩
      exact ⟨rfl, rfl⟩
    · rintro v ⟨⟩
    · simp
  · have hclass := mt hresolves.composite.1 hcondition
    have hnone : f.violated schema = [] := by
      cases hcase : schema.types.classOf (.named f.condition.name.value false) <;>
        simp_all [Fragment.violated]
    rw [hnone]
    apply reports_empty
    intro a v hwithin
    cases hwithin with
    | selection hopens _ _ =>
        cases hopens with
        | fragment hcomposite => exact hcondition hcomposite

theorem Definition.reports (x : Definition) : Reports (ts.Within x) (x.violated schema) := by
  cases x with
  | operation o => exact o.reports hresolves
  | fragment f => exact f.reports hresolves
  | type t =>
      apply reports_empty
      intro a v hwithin
      cases hwithin with
      | selection hopens _ _ => cases hopens
  | schema s =>
      apply reports_empty
      intro a v hwithin
      cases hwithin with
      | selection hopens _ _ => cases hopens

theorem Document.reports (d : Document) : Reports (ts.Violates d) (d.violated schema) := by
  refine (reports_flatMap fun x _ => x.reports hresolves).congr fun a v => ?_
  exact Document.violates_iff.symm

end Definitions

/-! ## Schemas -/

theorem Site.Before.key_ne {a b : Site} (h : a.Before b) :
    (a.address, a.violated.misuse.kind) ≠ (b.address, b.violated.misuse.kind) := by
  intro heq
  obtain ⟨haddress, hkind⟩ := Prod.mk.inj heq
  rcases h with hlt | ⟨-, hfirst, hsecond⟩
  · rw [haddress] at hlt
    exact List.lt_irrefl _ hlt
  · rw [hfirst, hsecond] at hkind
    cases hkind

/-- Against a schema that a source defines, the findings about a query are those of its violations,
each of them once and in document order. -/
theorem validate_eq_map_violations {source : Text} {schema : Schema}
    (h : Schema.ofSource source = .ok schema) :
    ∃ ts, parse source = ⟨some ts, []⟩ ∧ ∀ query : Query, ∃ sites : List Site,
      schema.validate query = sites.map (fun site => site.violated.finding query.source) ∧
      (∀ site, site ∈ sites ↔ ts.Violates query.document site.address site.violated) ∧
      (sites.map fun site => (site.address, site.violated.misuse.kind)).Nodup ∧
      sites.Pairwise Site.Before := by
  obtain ⟨ts, hparse, hschema⟩ := Schema.ofSource_eq_ok_iff.1 h
  refine ⟨ts, hparse, fun query => ?_⟩
  obtain ⟨sites, hlisted, hordered, hcomplete⟩ :=
    Document.reports (Schema.resolves_of_ofDocument hschema) query.document
  refine ⟨sites, ?_, hcomplete, ?_, hordered⟩
  · rw [Schema.validate, hlisted, List.map_map]
    rfl
  · rw [List.Nodup, List.pairwise_map]
    exact hordered.imp Site.Before.key_ne

theorem eq_ok_of_toOption_eq_some {ε α : Type} {x : Except ε α} {a : α}
    (h : x.toOption = some a) : x = .ok a := by
  cases x <;> cases h
  rfl

def animalTypes : Text :=
  "type Query \x7b pet(id: ID!): Pet kind: Kind \x7d
interface Pet \x7b name: String! friends: [Pet!]! \x7d
enum Kind \x7b CAT DOG \x7d"

/-- A query with each way of breaking a rule, and with selections that are passed over. -/
def animalQuery : Text :=
  "query Q \x7b pet \x7b friends name \x7b a ...F ... on Pet \x7b b \x7d \x7d \x7d
  ... on Kind \x7b x \x7d p: pet unknown \x7b a \x7d \x7d
fragment F on Pet \x7b friends \x7b \x7d \x7d
query \x7b \x7d
mutation \x7b a \x7d"

theorem validate_animalQuery :
    ∃ schema query, Schema.ofSource animalTypes = .ok schema ∧
      Query.ofSource animalQuery = .ok query ∧
      (schema.validate query).map Finding.kind =
        [.missingSelections, .selectionsOnLeaf, .inlineFragmentsOnLeaf, .missingSelections,
          .missingSelections, .missingSelections] ∧
      ∃ ts, parse animalTypes = ⟨some ts, []⟩ ∧ ∃ sites : List Site,
        schema.validate query = sites.map (fun site => site.violated.finding query.source) ∧
        (∀ site, site ∈ sites ↔ ts.Violates query.document site.address site.violated) ∧
        (sites.map fun site => (site.address, site.violated.misuse.kind)).Nodup ∧
        sites.Pairwise Site.Before := by
  have hkinds :
      ((Schema.ofSource animalTypes).toOption.bind fun schema =>
        (Query.ofSource animalQuery).toOption.map fun query =>
          (schema.validate query).map Finding.kind) =
        some [.missingSelections, .selectionsOnLeaf, .inlineFragmentsOnLeaf, .missingSelections,
          .missingSelections, .missingSelections] := by
    rw [animalTypes, Text.ofString_ofList, animalQuery, Text.ofString_ofList]
    decide +kernel
  obtain ⟨schema, hschema, hkinds⟩ := Option.bind_eq_some_iff.1 hkinds
  obtain ⟨query, hquery, hkinds⟩ := Option.map_eq_some_iff.1 hkinds
  have hofSource := eq_ok_of_toOption_eq_some hschema
  obtain ⟨ts, hparse, hreports⟩ := validate_eq_map_violations hofSource
  exact ⟨schema, query, hofSource, eq_ok_of_toOption_eq_some hquery, hkinds, ts, hparse,
    hreports query⟩

end SelectionCheck
