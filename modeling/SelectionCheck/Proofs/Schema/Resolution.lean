import SelectionCheck.Proofs.Schema.Acceptance

/-!
# What names mean in a schema

The questions that are asked of a schema have an answer in the document it was made from: which
type is at the root of an operation, which names are of composite and which of leaf types, and what
the fields of a type return. The answers are relations between names and say nothing of tables and
of the order in which they are searched. `Schema.resolves_of_ofDocument` is the comparison: since
names are declared once, the first entry that is found is the only one there is.
-/

namespace SelectionCheck

namespace Document

variable (d : Document)

def IsComposite (name : Text) : Prop :=
  ∃ kind ∈ [TypeKind.object, .interface, .union], d.Defines name kind

def IsLeaf (name : Text) : Prop :=
  ∃ kind ∈ [TypeKind.scalar, .enum], d.Defines name kind

/-- `d.Returns parent field name`: below all wrappers, the field of the type `parent` has the type
`name`. -/
inductive Returns : Text → Text → Text → Prop
  | typeName {parent : Text} (h : d.IsComposite parent) : Returns parent "__typename" "String"
  | declared {t : Declaration} {f : FieldDefinition} {name : Text} (ht : t ∈ d.declarations)
      (hf : f ∈ t.body.fieldDefinitions) (hname : f.type.base? = some name) :
      Returns t.name.value f.name.value name

/-- The type at the root of a type of operation. Without a schema definition it has a name of its
own, and is there if this name is defined. -/
inductive HasRoot : OperationType → Text → Prop
  | given {s : SchemaDefinition} {root : RootDefinition} (hs : s ∈ d.schemaDefinitions)
      (hroot : root ∈ s.roots.items) : HasRoot root.operation root.type.value
  | default {operation : OperationType} {kind : TypeKind} (hnone : d.schemaDefinitions = [])
      (hdefines : d.Defines operation.defaultRoot kind) :
      HasRoot operation operation.defaultRoot

end Document

/-- The schema answers as the document says. -/
structure Schema.Resolves (schema : Schema) (d : Document) : Prop where
  root {operation : OperationType} {name : Text} :
    schema.root? operation = some name ↔ d.HasRoot operation name
  composite {name : Text} :
    schema.types.classOf (.named name false) = .composite ↔ d.IsComposite name
  leaf {name : Text} : schema.types.classOf (.named name false) = .leaf ↔ d.IsLeaf name
  returns {parent field name : Text} :
    (schema.types.fieldType? (.named parent false) field).map TypeExpr.base = some name ↔
      d.Returns parent field name

namespace Document

variable {d : Document}

/-! ## Classes -/

@[simp]
theorem kind_info (kinds : KindTable) (body : TypeBody) : (body.info kinds).kind = body.kind := by
  cases body <;> rfl

theorem kind?_typeTable_iff (h : d.ProperDeclarations) {name : Text} {kind : TypeKind} :
    (typeTable d.declarations).kind? (.named name false) = some kind ↔ d.Defines name kind := by
  rw [TypeTable.kind?, TypeExpr.base, Option.map_eq_some_iff]
  simp only [info?_typeTable_iff h]
  constructor
  · rintro ⟨info, ⟨hbuiltin, rfl⟩ | ⟨t, ht, rfl, rfl⟩, rfl⟩
    · exact .builtin hbuiltin
    · rw [kind_info]
      exact .declared ht
  · rintro (⟨hbuiltin⟩ | ⟨ht⟩)
    · exact ⟨.scalar, .inl ⟨hbuiltin, rfl⟩, rfl⟩
    · exact ⟨_, .inr ⟨_, ht, rfl, rfl⟩, kind_info _ _⟩

theorem classOf_typeTable_iff (h : d.ProperDeclarations) {name : Text} {c : SelectionClass}
    (hc : c ≠ .unresolved) :
    (typeTable d.declarations).classOf (.named name false) = c ↔
      ∃ kind, SelectionClass.ofKind kind = c ∧ d.Defines name kind := by
  simp only [← kind?_typeTable_iff h, TypeTable.classOf]
  cases (typeTable d.declarations).kind? (.named name false) with
  | none => simp [hc.symm]
  | some kind => simp [eq_comm]

theorem classOf_eq_composite_iff (h : d.ProperDeclarations) {name : Text} :
    (typeTable d.declarations).classOf (.named name false) = .composite ↔ d.IsComposite name := by
  rw [classOf_typeTable_iff h (by decide), IsComposite]
  refine exists_congr fun kind => and_congr_left fun _ => ?_
  cases kind <;> decide

theorem classOf_eq_leaf_iff (h : d.ProperDeclarations) {name : Text} :
    (typeTable d.declarations).classOf (.named name false) = .leaf ↔ d.IsLeaf name := by
  rw [classOf_typeTable_iff h (by decide), IsLeaf]
  refine exists_congr fun kind => and_congr_left fun _ => ?_
  cases kind <;> decide

/-! ## Fields -/

theorem mem_fields_info_iff {kinds : KindTable} {body : TypeBody} {field : FieldInfo} :
    field ∈ (body.info kinds).fields ↔
      ∃ f ∈ body.fieldDefinitions, ∃ type, kinds.resolve? f.type = some type ∧
        ⟨f.name.value, type, inputInfos kinds (itemsOf f.arguments)⟩ = field := by
  cases body <;>
    simp [TypeBody.info, TypeInfo.fields, TypeBody.fieldDefinitions, fieldInfos,
      List.mem_filterMap, Option.map_eq_some_iff]

theorem ProperBody.fields {body : TypeBody} (h : d.ProperBody body) :
    d.ProperFields body.fieldDefinitions := by
  cases body with
  | object interfaces fields => exact h.1
  | interface fields => exact h
  | scalar | union equals members | enum values | input fields =>
      exact ⟨⟨List.nodup_nil, nofun⟩, nofun, nofun⟩

theorem isComposite_of_mem_fieldDefinitions {t : Declaration} (ht : t ∈ d.declarations)
    {f : FieldDefinition} (hf : f ∈ t.body.fieldDefinitions) : d.IsComposite t.name.value := by
  refine ⟨t.body.kind, ?_, .declared ht⟩
  obtain ⟨name, body⟩ := t
  cases body with
  | object interfaces fields => simp [TypeBody.kind]
  | interface fields => simp [TypeBody.kind]
  | scalar | union equals members | enum values | input fields => cases hf

/-- The name below the wrappers of a reference that is resolved. -/
theorem base?_of_resolve? {kinds : KindTable} {type : TypeRef} {e : TypeExpr}
    (h : kinds.resolve? type = some e) : type.base? = some e.base := by
  have hbase := kinds.map_base_resolve? type
  rw [h, Option.map_some, eq_comm, Option.filter_eq_some_iff] at hbase
  exact hbase.1

theorem field?_info_iff (h : d.IsTypeSystem) {t : Declaration} (ht : t ∈ d.declarations)
    {field name : Text} :
    (∃ info, (t.body.info (kindTable d.declarations)).field? field = some info ∧
        info.type.base = name) ↔
      ∃ f ∈ t.body.fieldDefinitions, f.name.value = field ∧ f.type.base? = some name := by
  have hproper := (h.bodies t ht).fields
  have hdistinct := hproper.names.distinct
  have hnames := (h.bodies t ht).map_name_fields h.declarations
  rw [List.map_map] at hdistinct
  rw [TypeBody.fieldNames] at hnames
  simp only [TypeInfo.field?, find?_key_eq_some_iff (hnames ▸ hdistinct), mem_fields_info_iff]
  constructor
  · rintro ⟨info, ⟨⟨f, hf, type, hresolve, rfl⟩, rfl⟩, rfl⟩
    exact ⟨f, hf, rfl, base?_of_resolve? hresolve⟩
  · rintro ⟨f, hf, rfl, hname⟩
    obtain ⟨type, hresolve⟩ :=
      Option.isSome_iff_exists.1 ((hproper.types f hf).isSome_resolve? h.declarations)
    refine ⟨_, ⟨⟨f, hf, type, hresolve, rfl⟩, rfl⟩, ?_⟩
    rw [base?_of_resolve? hresolve] at hname
    exact Option.some.inj hname

/-- No field is declared under the name of the one that every composite type has. -/
theorem name_ne_typeNameField (h : d.IsTypeSystem) {t : Declaration} (ht : t ∈ d.declarations)
    {f : FieldDefinition} (hf : f ∈ t.body.fieldDefinitions) :
    f.name.value ≠ TypeTable.typeNameField := by
  intro heq
  apply (h.bodies t ht).fields.names.unreserved f.name (List.mem_map_of_mem hf)
  rw [heq]
  decide

theorem fieldType?_typeTable_iff (h : d.IsTypeSystem) {parent field name : Text} :
    ((typeTable d.declarations).fieldType? (.named parent false) field).map TypeExpr.base =
        some name ↔ d.Returns parent field name := by
  constructor
  · intro hfield
    rw [TypeTable.fieldType?] at hfield
    split at hfield
    · next hcomposite =>
        rw [classOf_eq_composite_iff h.declarations] at hcomposite
        by_cases hname : field = TypeTable.typeNameField
        · rw [if_pos hname] at hfield
          rw [hname, ← Option.some.inj hfield]
          exact .typeName hcomposite
        · simp only [if_neg hname, Option.map_eq_some_iff, Option.bind_eq_some_iff] at hfield
          obtain ⟨_, ⟨field, ⟨info, hinfo, hfield⟩, rfl⟩, hbase⟩ := hfield
          rcases (info?_typeTable_iff h.declarations).1 hinfo with ⟨-, rfl⟩ | ⟨t, ht, rfl, rfl⟩
          · cases hfield
          · obtain ⟨f, hf, rfl, hbase⟩ := (field?_info_iff h ht).1 ⟨field, hfield, hbase⟩
            exact .declared ht hf hbase
    · cases hfield
    · cases hfield
  · rintro (⟨hparent⟩ | ⟨ht, hf, hname⟩)
    · rw [TypeTable.fieldType?, (classOf_eq_composite_iff h.declarations).2 hparent]
      rfl
    · have hparent := isComposite_of_mem_fieldDefinitions ht hf
      obtain ⟨info, hfield, hbase⟩ := (field?_info_iff h ht).2 ⟨_, hf, rfl, hname⟩
      simp [TypeTable.fieldType?, (classOf_eq_composite_iff h.declarations).2 hparent,
        name_ne_typeNameField h ht hf, info?_of_declaration h.declarations ht, hfield, hbase]

/-! ## Roots -/

theorem root?_eq_some_iff (h : d.IsTypeSystem) {operation : OperationType} {name : Text} :
    d.root? operation = some name ↔ d.HasRoot operation name := by
  have hone := h.oneSchema
  match hschema : d.schemaDefinitions with
  | [] =>
      rw [Document.root?, hschema, Option.map_eq_some_iff]
      constructor
      · rintro ⟨kind, hlookup, rfl⟩
        exact .default hschema ((lookup_kindTable_iff h.declarations).1 hlookup)
      · rintro (⟨hs, -⟩ | ⟨-, hdefines⟩)
        · rw [hschema] at hs
          cases hs
        · exact ⟨_, (lookup_kindTable_iff h.declarations).2 hdefines, rfl⟩
  | [s] =>
      have hs : s ∈ d.schemaDefinitions := by simp [hschema]
      have hdistinct := (h.givenRoots s hs).distinct
      simp only [Document.root?, hschema, Option.map_eq_some_iff, find?_key_eq_some_iff hdistinct]
      constructor
      · rintro ⟨root, ⟨hroot, rfl⟩, rfl⟩
        exact .given hs hroot
      · rintro (⟨hs', hroot⟩ | ⟨hnone, -⟩)
        · rw [hschema, List.mem_singleton] at hs'
          subst hs'
          exact ⟨_, ⟨hroot, rfl⟩, rfl⟩
        · rw [hschema] at hnone
          cases hnone
  | s :: s' :: rest => simp [hschema] at hone

end Document

/-! ## Schemas -/

theorem Schema.root?_of_ofDocument {schema : Schema} {d : Document}
    (h : ofDocument d = .ok schema) (operation : OperationType) :
    schema.root? operation = d.root? operation := by
  obtain ⟨-, hquery, hmutation, hsubscription, -⟩ := ofDocument_eq_ok_iff.1 h
  cases operation with
  | query => exact hquery.symm
  | mutation => exact hmutation.symm
  | subscription => exact hsubscription.symm

theorem Schema.resolves_of_ofDocument {schema : Schema} {d : Document}
    (h : ofDocument d = .ok schema) : schema.Resolves d := by
  obtain ⟨hd, -, -, -, htypes⟩ := ofDocument_eq_ok_iff.1 h
  refine ⟨?_, ?_, ?_, ?_⟩
  · intro operation name
    rw [root?_of_ofDocument h, Document.root?_eq_some_iff hd]
  · intro name
    rw [← htypes, Document.classOf_eq_composite_iff hd.declarations]
  · intro name
    rw [← htypes, Document.classOf_eq_leaf_iff hd.declarations]
  · intro parent field name
    rw [← htypes, Document.fieldType?_typeTable_iff hd]

namespace Schema.Resolves

variable {schema : Schema} {d : Document} (h : schema.Resolves d)
include h

theorem returns_unique {parent field name name' : Text} (hname : d.Returns parent field name)
    (hname' : d.Returns parent field name') : name = name' := by
  have hfield := h.returns.2 hname
  rw [h.returns.2 hname'] at hfield
  exact (Option.some.inj hfield).symm

/-- A field has one type, and this is not both composite and a leaf. -/
theorem not_isLeaf {parent field name name' : Text} (hname : d.Returns parent field name)
    (hcomposite : d.IsComposite name) (hname' : d.Returns parent field name') :
    ¬ d.IsLeaf name' := by
  rw [h.returns_unique hname' hname, ← h.leaf, h.composite.2 hcomposite]
  decide

end Schema.Resolves

end SelectionCheck
