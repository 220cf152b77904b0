import SelectionCheck.Proofs.Schema.WellFormed

/-!
# Which sources define a schema

A source defines a schema exactly if it is read without errors and its document is a type system.
Each check goes through a list and sees, at each item, the items before it. Such a check finds
nothing if every item is good by itself and every two are apart, whatever the order of the list:
this is `flatMapEarlier_eq_nil_iff`, and every list of names in a document goes through it.

References are compared with the table of kinds, so from the declarations on the statements
suppose that no name is declared twice. That fields of interfaces are there can be seen in the table
of types only once all references are resolved.
-/

namespace SelectionCheck

/-! ## Checks that see what came before -/

section Earlier

variable {α β : Type} {f : List α → α → List β} (good : α → Prop) (apart : α → α → Prop)

theorem flatMapEarlier_eq_nil_iff_of_earlier
    (hf : ∀ earlier a, f earlier a = [] ↔ good a ∧ ∀ b ∈ earlier, apart b a) :
    ∀ earlier items, flatMapEarlier f earlier items = [] ↔
      (∀ a ∈ items, good a) ∧ items.Pairwise apart ∧ ∀ b ∈ earlier, ∀ a ∈ items, apart b a
  | earlier, [] => by simp [flatMapEarlier]
  | earlier, a :: items => by
      rw [flatMapEarlier, List.append_eq_nil_iff, hf,
        flatMapEarlier_eq_nil_iff_of_earlier hf (a :: earlier) items]
      simp only [List.forall_mem_cons, List.pairwise_cons, imp_and, forall_and]
      grind

theorem flatMapEarlier_eq_nil_iff
    (hf : ∀ earlier a, f earlier a = [] ↔ good a ∧ ∀ b ∈ earlier, apart b a) (items : List α) :
    flatMapEarlier f [] items = [] ↔ (∀ a ∈ items, good a) ∧ items.Pairwise apart := by
  simp [flatMapEarlier_eq_nil_iff_of_earlier good apart hf]

end Earlier

namespace Violation

@[simp]
theorem whenever_eq_nil_iff {condition : Bool} {e : SchemaError} :
    whenever condition e = [] ↔ condition = false := by
  cases condition <;> simp [whenever]

@[simp]
theorem reserved_eq_nil_iff {name : Name} :
    reserved name = [] ↔ ¬ ("__" : Text) <+: name.value := by
  simp [reserved, Text.startsWith]

/-- A check of named items that finds each reserved name and each repeated one. -/
theorem flatMapEarlier_eq_nil_iff_properNames {α : Type} {f : List α → α → List SchemaError}
    (name : α → Name) (good : α → Prop)
    (hf : ∀ earlier a, f earlier a = [] ↔ (¬ ("__" : Text) <+: (name a).value ∧ good a) ∧
      ∀ b ∈ earlier, (name b).value ≠ (name a).value) (items : List α) :
    flatMapEarlier f [] items = [] ↔ ProperNames (items.map name) ∧ ∀ a ∈ items, good a := by
  rw [flatMapEarlier_eq_nil_iff _ _ hf]
  constructor
  · rintro ⟨hgood, hapart⟩
    refine ⟨⟨?_, ?_⟩, fun a ha => (hgood a ha).2⟩
    · rw [List.map_map, List.Nodup, List.pairwise_map]
      exact hapart
    · intro n hn
      obtain ⟨a, ha, rfl⟩ := List.mem_map.1 hn
      exact (hgood a ha).1
  · rintro ⟨⟨hdistinct, hunreserved⟩, hgood⟩
    rw [List.map_map, List.Nodup, List.pairwise_map] at hdistinct
    exact ⟨fun a ha => ⟨hunreserved _ (List.mem_map_of_mem ha), hgood a ha⟩, hdistinct⟩

/-! ## Definitions and declarations -/

theorem misplaced_eq_nil_iff {d : Document} :
    misplaced d = [] ↔ (∀ o, Definition.operation o ∉ d.definitions) ∧
      (∀ f, Definition.fragment f ∉ d.definitions) ∧ d.schemaDefinitions.length ≤ 1 := by
  have hone : d.schemaDefinitions.length ≤ 1 ↔
      d.definitions.Pairwise fun a b => ∀ s s', a = .schema s → b ≠ .schema s' := by
    have hempty : d.schemaDefinitions.length ≤ 1 ↔
        d.schemaDefinitions.Pairwise fun _ _ => False := by
      match d.schemaDefinitions with
      | [] => simp
      | [s] => simp
      | s :: s' :: rest =>
          have hnot : ¬ (s :: s' :: rest).Pairwise fun _ _ => False := fun h =>
            (List.pairwise_cons.1 h).1 s' List.mem_cons_self
          simp [hnot]
    rw [hempty, Document.schemaDefinitions, List.pairwise_filterMap]
    apply iff_of_eq
    congr 1
    funext a b
    cases a <;> cases b <;> simp
  rw [hone, misplaced, flatMapEarlier_eq_nil_iff
    (fun a => (∀ o, a ≠ .operation o) ∧ ∀ f, a ≠ .fragment f)
    (fun a b => ∀ s s', a = .schema s → b ≠ .schema s')]
  · grind
  · intro earlier definition
    cases definition with
    | schema s =>
        simp only [whenever_eq_nil_iff, List.any_eq_false, Bool.not_eq_true]
        simp
        refine forall₂_congr fun b _ => ?_
        cases b <;> simp
    | operation o => simp
    | fragment f => simp
    | type t => simp

theorem enumValues_eq_nil_iff {definitions : List EnumValueDefinition} :
    enumValues definitions = [] ↔ ProperNames (definitions.map (·.value)) := by
  rw [enumValues, flatMapEarlier_eq_nil_iff_properNames (·.value) (fun _ => True)]
  · simp
  · intro earlier d
    simp

theorem declared_eq_nil_iff {d : Document} :
    declared d.declarations = [] ↔ d.ProperDeclarations ∧
      ∀ t ∈ d.declarations, ∀ values, t.body = .enum values →
        ProperNames ((itemsOf values).map (·.value)) := by
  rw [declared, flatMapEarlier_eq_nil_iff_properNames Declaration.name (fun t =>
    t.name.value ∉ builtinScalars ∧ ∀ values, t.body = .enum values →
      ProperNames ((itemsOf values).map (·.value)))]
  · constructor
    · rintro ⟨hnames, hgood⟩
      exact ⟨⟨hnames, fun t ht => (hgood t ht).1⟩, fun t ht => (hgood t ht).2⟩
    · rintro ⟨⟨hnames, hbuiltin⟩, henums⟩
      exact ⟨hnames, fun t ht => ⟨hbuiltin t ht, henums t ht⟩⟩
  · rintro earlier ⟨name, body⟩
    cases body <;> simp [enumValues_eq_nil_iff] <;> grind

/-! ## References -/

theorem reference_eq_nil_iff {kinds : KindTable} {accepted : TypeKind → Bool}
    {refused : TypeRef → SchemaError} {type : TypeRef} :
    reference kinds accepted refused type = [] ↔
      ∃ name kind, type.base? = some name ∧ kinds.lookup name = some kind ∧
        accepted kind = true := by
  have hbase := kinds.map_base_resolve? type
  cases hresolve : kinds.resolve? type with
  | none =>
      rw [hresolve, Option.map_none, eq_comm, Option.filter_eq_none_iff] at hbase
      simp [reference, hresolve]
      grind
  | some e =>
      rw [hresolve, Option.map_some, eq_comm, Option.filter_eq_some_iff] at hbase
      obtain ⟨hname, hkind⟩ := hbase
      obtain ⟨kind, hkind⟩ := Option.isSome_iff_exists.1 hkind
      simp [reference, hresolve, hname, hkind]

section

variable {d : Document} (h : d.ProperDeclarations)
include h

theorem reference_eq_nil_iff_refersTo {accepted : TypeKind → Bool} {kinds : List TypeKind}
    (hkinds : ∀ kind, accepted kind = true ↔ kind ∈ kinds) {refused : TypeRef → SchemaError}
    {type : TypeRef} :
    reference (kindTable d.declarations) accepted refused type = [] ↔ d.RefersTo kinds type := by
  simp only [reference_eq_nil_iff, Document.lookup_kindTable_iff h, hkinds, Document.RefersTo]

theorem inputs_eq_nil_iff (repeated : Name → SchemaError)
    (definitions : List InputValueDefinition) :
    flatMapEarlier
      (fun earlier i =>
        reserved i.name ++
          whenever (earlier.any (·.name.value = i.name.value)) (repeated i.name) ++
          reference (kindTable d.declarations) TypeKind.isInput .notInput i.type)
      [] definitions = [] ↔ d.ProperInputs definitions := by
  have hkinds : ∀ kind, TypeKind.isInput kind = true ↔ kind ∈ [.scalar, .enum, .input] := by
    intro kind
    cases kind <;> decide
  rw [flatMapEarlier_eq_nil_iff_properNames (·.name)
    (fun i => d.RefersTo [.scalar, .enum, .input] i.type)]
  · exact ⟨fun ⟨hnames, htypes⟩ => ⟨hnames, htypes⟩, fun ⟨hnames, htypes⟩ => ⟨hnames, htypes⟩⟩
  · intro earlier i
    simp only [List.append_eq_nil_iff, reference_eq_nil_iff_refersTo h hkinds]
    simp [and_assoc, and_comm]

theorem objectFields_eq_nil_iff (owner : Text) (definitions : List FieldDefinition) :
    objectFields (kindTable d.declarations) owner definitions = [] ↔
      d.ProperFields definitions := by
  have hkinds : ∀ kind, TypeKind.isOutput kind = true ↔
      kind ∈ [.scalar, .enum, .object, .interface, .union] := by
    intro kind
    cases kind <;> decide
  rw [objectFields, flatMapEarlier_eq_nil_iff_properNames (·.name) (fun f =>
    d.RefersTo [.scalar, .enum, .object, .interface, .union] f.type ∧
      d.ProperInputs (itemsOf f.arguments))]
  · constructor
    · rintro ⟨hnames, hgood⟩
      exact ⟨hnames, fun f hf => (hgood f hf).1, fun f hf => (hgood f hf).2⟩
    · rintro ⟨hnames, htypes, harguments⟩
      exact ⟨hnames, fun f hf => ⟨htypes f hf, harguments f hf⟩⟩
  · intro earlier f
    have harguments : fieldArguments (kindTable d.declarations) owner f.name.value
        (itemsOf f.arguments) = [] ↔ d.ProperInputs (itemsOf f.arguments) :=
      inputs_eq_nil_iff h (.duplicateArgument · owner f.name.value) _
    simp only [List.append_eq_nil_iff, reference_eq_nil_iff_refersTo h hkinds, harguments]
    simp
    grind

theorem namedTypes_eq_nil_iff {wanted : TypeKind} {wrong repeated : Name → SchemaError}
    (names : List Name) :
    namedTypes (kindTable d.declarations) wanted wrong repeated names = [] ↔
      d.DistinctTypes wanted names := by
  rw [namedTypes, flatMapEarlier_eq_nil_iff (fun name => d.Defines name.value wanted)
    (fun a b => a.value ≠ b.value)]
  · constructor
    · rintro ⟨hdefined, hdistinct⟩
      exact ⟨List.pairwise_map.2 hdistinct, hdefined⟩
    · rintro ⟨hdistinct, hdefined⟩
      exact ⟨hdefined, List.pairwise_map.1 hdistinct⟩
  · intro earlier name
    rw [← Document.lookup_kindTable_iff h]
    cases (kindTable d.declarations).lookup name.value with
    | none => simp
    | some kind => simp

/-- The references of a type, and the symbols of an enumeration, are as they should be. -/
theorem references_eq_nil_iff {t : Declaration} :
    (references (kindTable d.declarations) t = [] ∧
      ∀ values, t.body = .enum values → ProperNames ((itemsOf values).map (·.value))) ↔
      d.ProperBody t.body := by
  obtain ⟨name, body⟩ := t
  cases body with
  | scalar => simp [references, Document.ProperBody]
  | enum values => simp [references, Document.ProperBody]
  | object interfaces fields =>
      simp [references, Document.ProperBody, objectFields_eq_nil_iff h, namedTypes_eq_nil_iff h]
  | interface fields => simp [references, Document.ProperBody, objectFields_eq_nil_iff h]
  | union equals members => simp [references, Document.ProperBody, namedTypes_eq_nil_iff h]
  | input fields =>
      have hinputs : inputFields (kindTable d.declarations) name.value (itemsOf fields) = [] ↔
          d.ProperInputs (itemsOf fields) :=
        inputs_eq_nil_iff h (.duplicateField · name.value) _
      simp [references, Document.ProperBody, hinputs]

/-! ## Fields of interfaces -/

omit h in
theorem absent_eq_nil_iff {wanted fields : List FieldInfo} {e : FieldInfo → SchemaError} :
    (wanted.flatMap fun field => whenever (!fields.any (·.name = field.name)) (e field)) = [] ↔
      ∀ name ∈ wanted.map FieldInfo.name, name ∈ fields.map FieldInfo.name := by
  simp [List.flatMap_eq_nil_iff]

theorem missingFields_eq_nil_iff (hbodies : ∀ t ∈ d.declarations, d.ProperBody t.body)
    {t : Declaration} (ht : t ∈ d.declarations) :
    missingFields (typeTable d.declarations) t = [] ↔
      ∀ s ∈ d.declarations, s.name.value ∈ t.body.interfaces →
        ∀ field ∈ s.body.fieldNames, field ∈ t.body.fieldNames := by
  have hinfo := Document.info?_of_declaration h ht
  have hfields := (hbodies t ht).map_name_fields h
  have hbody := hbodies t ht
  obtain ⟨name, body⟩ := t
  cases body with
  | object interfaces fields =>
      have hwanted : ∀ s ∈ d.declarations, s.name.value ∈ interfaces.map Name.value →
          ∃ wanted, (typeTable d.declarations).info? s.name.value = some (.interface wanted) ∧
            wanted.map FieldInfo.name = s.body.fieldNames := by
        intro s hs hname
        obtain ⟨i, hi, hvalue⟩ := List.mem_map.1 hname
        have hkind : s.body.kind = .interface :=
          Document.Defines.unique h (.declared hs) (hvalue ▸ hbody.2.defined i hi)
        have hinfo := Document.info?_of_declaration h hs
        have hfields := (hbodies s hs).map_name_fields h
        obtain ⟨sname, sbody⟩ := s
        cases sbody <;> cases hkind
        exact ⟨_, hinfo, hfields⟩
      rw [missingFields, hinfo]
      simp only [TypeBody.info, List.flatMap_eq_nil_iff, ← hfields]
      constructor
      · intro hmissing s hs hname
        obtain ⟨wanted, hinfo, hwanted⟩ := hwanted s hs hname
        have hnone := hmissing s.name.value hname
        rw [hinfo] at hnone
        rw [← hwanted]
        exact absent_eq_nil_iff.1 hnone
      · intro hcovers interface hinterface
        obtain ⟨i, hi, rfl⟩ := List.mem_map.1 hinterface
        obtain ⟨s, hs, hname, -⟩ := (hbody.2.defined i hi).declaration (by decide)
        rw [← hname] at hinterface ⊢
        obtain ⟨wanted, hinfo, hwanted⟩ := hwanted s hs hinterface
        rw [hinfo]
        exact absent_eq_nil_iff.2 (hwanted ▸ hcovers s hs hinterface)
  | scalar => simp [missingFields, hinfo, TypeBody.info, TypeBody.interfaces]
  | interface fields => simp [missingFields, hinfo, TypeBody.info, TypeBody.interfaces]
  | union equals members => simp [missingFields, hinfo, TypeBody.info, TypeBody.interfaces]
  | enum values => simp [missingFields, hinfo, TypeBody.info, TypeBody.interfaces]
  | input fields => simp [missingFields, hinfo, TypeBody.info, TypeBody.interfaces]

/-! ## Roots -/

omit h in
theorem roots_eq_nil_iff {kinds : KindTable} {definitions : List RootDefinition} :
    roots kinds definitions = [] ↔ (definitions.map (·.operation)).Nodup ∧
      ∀ root ∈ definitions, (kinds.lookup root.type.value).isSome = true := by
  rw [roots, flatMapEarlier_eq_nil_iff
    (fun root => (kinds.lookup root.type.value).isSome = true)
    (fun a b => a.operation ≠ b.operation), List.Nodup, List.pairwise_map, and_comm]
  intro earlier root
  simp [and_comm, Option.isSome_iff_ne_none]

omit h in
theorem rootKinds_eq_nil_iff :
    rootKinds d = [] ↔ (d.root? .query).isSome = true ∧
      ∀ operation name, d.root? operation = some name →
        (kindTable d.declarations).lookup name = some .object := by
  have hkind : ∀ operation, rootKind d operation = [] ↔
      ∀ name, d.root? operation = some name →
        (kindTable d.declarations).lookup name = some .object := by
    intro operation
    cases hroot : d.root? operation <;> simp [rootKind, hroot]
  simp only [rootKinds, List.append_eq_nil_iff, whenever_eq_nil_iff, hkind, and_assoc]
  refine and_congr (by simp) ⟨?_, ?_⟩
  · rintro ⟨hquery, hmutation, hsubscription⟩ operation
    cases operation with
    | query => exact hquery
    | mutation => exact hmutation
    | subscription => exact hsubscription
  · intro hall
    exact ⟨hall .query, hall .mutation, hall .subscription⟩

theorem rootKinds_eq_nil_iff_hasDefaultRoots (hnone : d.schemaDefinitions = []) :
    rootKinds d = [] ↔ d.HasDefaultRoots := by
  have hroot : ∀ operation, d.root? operation =
      ((kindTable d.declarations).lookup operation.defaultRoot).map
        fun _ => operation.defaultRoot := by
    intro operation
    rw [Document.root?, hnone]
  have hobject : ∀ operation,
      (∀ name, d.root? operation = some name →
        (kindTable d.declarations).lookup name = some .object) ↔
        ∀ kind, d.Defines operation.defaultRoot kind → kind = .object := by
    intro operation
    constructor
    · intro hall kind hdefines
      have hlookup := (Document.lookup_kindTable_iff h).2 hdefines
      have hobject := hall operation.defaultRoot (by rw [hroot, hlookup, Option.map_some])
      rw [hlookup] at hobject
      exact Option.some.inj hobject
    · intro hall name hname
      rw [hroot] at hname
      obtain ⟨kind, hlookup, rfl⟩ := Option.map_eq_some_iff.1 hname
      rw [hlookup, hall kind ((Document.lookup_kindTable_iff h).1 hlookup)]
  simp only [rootKinds_eq_nil_iff, hobject]
  constructor
  · rintro ⟨hquery, hall⟩
    refine ⟨?_, ?_⟩
    · rw [hroot, Option.isSome_map] at hquery
      obtain ⟨kind, hlookup⟩ := Option.isSome_iff_exists.1 hquery
      have hdefines := (Document.lookup_kindTable_iff h).1 hlookup
      exact hall .query kind hdefines ▸ hdefines
    · intro name hname
      simp only [List.mem_cons, List.not_mem_nil, or_false] at hname
      rcases hname with rfl | rfl
      · exact hall .mutation
      · exact hall .subscription
  · rintro ⟨hquery, hothers⟩
    refine ⟨?_, ?_⟩
    · rw [hroot, OperationType.defaultRoot, (Document.lookup_kindTable_iff h).2 hquery]
      rfl
    intro operation
    cases operation with
    | query => exact fun kind hkind => Document.Defines.unique h hkind hquery
    | mutation => exact hothers _ List.mem_cons_self
    | subscription => exact hothers _ (List.mem_cons_of_mem _ List.mem_cons_self)

theorem roots_and_rootKinds_eq_nil_iff_givesRoots {s : SchemaDefinition}
    (hs : d.schemaDefinitions = [s]) :
    roots (kindTable d.declarations) s.roots.items = [] ∧ rootKinds d = [] ↔ d.GivesRoots s := by
  have hroot : ∀ operation, d.root? operation =
      (s.roots.items.find? (·.operation = operation)).map (·.type.value) := by
    intro operation
    rw [Document.root?, hs]
  rw [rootKinds_eq_nil_iff, roots_eq_nil_iff]
  constructor
  · rintro ⟨⟨hdistinct, -⟩, hquery, hobjects⟩
    refine ⟨hdistinct, ?_, ?_⟩
    · intro root hmem
      have hfind := (find?_key_eq_some_iff hdistinct).2 ⟨hmem, rfl⟩
      apply (Document.lookup_kindTable_iff h).1
      apply hobjects root.operation
      rw [hroot, hfind, Option.map_some]
    · rw [hroot, Option.isSome_map] at hquery
      obtain ⟨root, hfind⟩ := Option.isSome_iff_exists.1 hquery
      exact ⟨root, (find?_key_eq_some_iff hdistinct).1 hfind⟩
  · rintro ⟨hdistinct, hobjects, query, hmem, hquery⟩
    have hlookup : ∀ root ∈ s.roots.items,
        (kindTable d.declarations).lookup root.type.value = some .object :=
      fun root hmem => (Document.lookup_kindTable_iff h).2 (hobjects root hmem)
    refine ⟨⟨hdistinct, fun root hmem => by simp [hlookup root hmem]⟩, ?_, ?_⟩
    · rw [hroot, (find?_key_eq_some_iff hdistinct).2 ⟨hmem, hquery⟩]
      rfl
    · intro operation name hname
      rw [hroot] at hname
      obtain ⟨root, hfind, rfl⟩ := Option.map_eq_some_iff.1 hname
      exact hlookup root ((find?_key_eq_some_iff hdistinct).1 hfind).1

theorem roots_and_rootKinds_eq_nil_iff (hone : d.schemaDefinitions.length ≤ 1) :
    (∀ s ∈ d.schemaDefinitions, roots (kindTable d.declarations) s.roots.items = []) ∧
        rootKinds d = [] ↔
      (∀ s ∈ d.schemaDefinitions, d.GivesRoots s) ∧
        (d.schemaDefinitions = [] → d.HasDefaultRoots) := by
  match hschema : d.schemaDefinitions with
  | [] => simp [rootKinds_eq_nil_iff_hasDefaultRoots h hschema]
  | [s] => simp [roots_and_rootKinds_eq_nil_iff_givesRoots h hschema]
  | s :: s' :: rest => simp [hschema] at hone

end

end Violation

/-! ## Documents and sources -/

theorem Document.violations_eq_nil_iff {d : Document} : d.violations = [] ↔ d.IsTypeSystem := by
  simp only [Document.violations, List.append_eq_nil_iff, List.flatMap_eq_nil_iff]
  constructor
  · rintro ⟨⟨⟨⟨⟨hmisplaced, hdeclared⟩, hreferences⟩, hmissing⟩, hroots⟩, hkinds⟩
    obtain ⟨hoperation, hfragment, hone⟩ := Violation.misplaced_eq_nil_iff.1 hmisplaced
    obtain ⟨hdeclarations, henums⟩ := Violation.declared_eq_nil_iff.1 hdeclared
    have hbodies : ∀ t ∈ d.declarations, d.ProperBody t.body := fun t ht =>
      (Violation.references_eq_nil_iff hdeclarations).1 ⟨hreferences t ht, henums t ht⟩
    have himplemented := fun t ht =>
      (Violation.missingFields_eq_nil_iff hdeclarations hbodies ht).1 (hmissing t ht)
    obtain ⟨hgiven, hdefault⟩ :=
      (Violation.roots_and_rootKinds_eq_nil_iff hdeclarations hone).1 ⟨hroots, hkinds⟩
    exact ⟨hoperation, hfragment, hone, hdeclarations, hbodies, himplemented, hgiven, hdefault⟩
  · intro h
    have hbodies := fun t ht =>
      (Violation.references_eq_nil_iff h.declarations).2 (h.bodies t ht)
    obtain ⟨hroots, hkinds⟩ :=
      (Violation.roots_and_rootKinds_eq_nil_iff h.declarations h.oneSchema).2
        ⟨h.givenRoots, h.defaultRoots⟩
    refine ⟨⟨⟨⟨⟨?_, ?_⟩, fun t ht => (hbodies t ht).1⟩, ?_⟩, hroots⟩, hkinds⟩
    · exact Violation.misplaced_eq_nil_iff.2 ⟨h.noOperation, h.noFragment, h.oneSchema⟩
    · exact Violation.declared_eq_nil_iff.2 ⟨h.declarations, fun t ht => (hbodies t ht).2⟩
    · intro t ht
      exact (Violation.missingFields_eq_nil_iff h.declarations h.bodies ht).2
        (h.implemented t ht)

theorem Document.IsTypeSystem.exists_root {d : Document} (h : d.IsTypeSystem) :
    ∃ query, d.root? .query = some query := by
  obtain ⟨-, hkinds⟩ := (Violation.roots_and_rootKinds_eq_nil_iff h.declarations h.oneSchema).2
    ⟨h.givenRoots, h.defaultRoots⟩
  exact Option.isSome_iff_exists.1 (Violation.rootKinds_eq_nil_iff.1 hkinds).1

namespace Schema

/-- The schema made from a type system has its query root, and the others that it gives. -/
theorem ofDocument_eq_ok_iff {d : Document} {schema : Schema} :
    ofDocument d = .ok schema ↔ d.IsTypeSystem ∧ d.root? .query = some schema.query ∧
      d.root? .mutation = schema.mutation ∧ d.root? .subscription = schema.subscription ∧
      typeTable d.declarations = schema.types := by
  rw [ofDocument, ← Document.violations_eq_nil_iff]
  obtain ⟨query, mutation, subscription, types⟩ := schema
  split
  · next hviolations hquery => simp [hviolations, hquery]
  · next hviolations hquery => simp [hviolations, hquery]
  · next hviolations => simp [hviolations]

theorem ofSource_eq_ok_iff {source : Text} {schema : Schema} :
    ofSource source = .ok schema ↔
      ∃ d, parse source = ⟨some d, []⟩ ∧ ofDocument d = .ok schema := by
  rw [ofSource]
  split
  · next d hparse => simp [hparse]
  · next hparse => grind

/-- A source defines a schema exactly if it is read without errors as a type system. -/
theorem exists_ofSource_eq_ok_iff (source : Text) :
    (∃ schema, ofSource source = .ok schema) ↔
      ∃ d, parse source = ⟨some d, []⟩ ∧ d.IsTypeSystem := by
  simp only [ofSource_eq_ok_iff, ofDocument_eq_ok_iff]
  constructor
  · rintro ⟨schema, d, hparse, hd, -⟩
    exact ⟨d, hparse, hd⟩
  · rintro ⟨d, hparse, hd⟩
    obtain ⟨query, hquery⟩ := hd.exists_root
    exact ⟨⟨query, _, _, _⟩, d, hparse, hd, hquery, rfl, rfl, rfl⟩

end Schema

end SelectionCheck
