import SelectionCheck.Schema.Basic

/-!
# Well-formed type systems

What a document has to be for it to define a schema, said of its definitions alone and not of the
order in which they are looked through. A name is defined by the document if it is the name of a
built-in scalar or of a declared type; references are to defined names of the right kinds.

Definedness is a relation here. The table of kinds that the check consults answers with the first
entry of a name. The two agree as soon as no name is declared twice, which is
`lookup_kindTable_iff`; the table of types is compared with the declarations in the same way.
-/

namespace SelectionCheck

/-- Pairwise distinct names that do not begin with two underscores. -/
structure ProperNames (names : List Name) : Prop where
  distinct : (names.map Name.value).Nodup
  unreserved : ∀ name ∈ names, ¬ ("__" : Text) <+: name.value

def TypeRef.base? : TypeRef → Option Text
  | .named name _ => some name.value
  | .list _ element _ _ => element.base?
  | .missing => none

def TypeBody.fieldDefinitions : TypeBody → List FieldDefinition
  | .object _ fields | .interface fields => itemsOf fields
  | .scalar | .union _ _ | .enum _ | .input _ => []

def TypeBody.fieldNames (body : TypeBody) : List Text :=
  body.fieldDefinitions.map (·.name.value)

def TypeBody.interfaces : TypeBody → List Text
  | .object interfaces _ => interfaces.map Name.value
  | .scalar | .interface _ | .union _ _ | .enum _ | .input _ => []

namespace Document

variable (d : Document)

inductive Defines : Text → TypeKind → Prop
  | builtin {name : Text} (h : name ∈ builtinScalars) : Defines name .scalar
  | declared {t : Declaration} (h : t ∈ d.declarations) : Defines t.name.value t.body.kind

/-- The name below the wrappers of the reference is defined, with one of the given kinds. -/
def RefersTo (kinds : List TypeKind) (type : TypeRef) : Prop :=
  ∃ name kind, type.base? = some name ∧ d.Defines name kind ∧ kind ∈ kinds

structure ProperInputs (inputs : List InputValueDefinition) : Prop where
  names : ProperNames (inputs.map (·.name))
  types : ∀ i ∈ inputs, d.RefersTo [.scalar, .enum, .input] i.type

structure ProperFields (fields : List FieldDefinition) : Prop where
  names : ProperNames (fields.map (·.name))
  types : ∀ f ∈ fields, d.RefersTo [.scalar, .enum, .object, .interface, .union] f.type
  arguments : ∀ f ∈ fields, d.ProperInputs (itemsOf f.arguments)

/-- Pairwise distinct names of types of one kind. -/
structure DistinctTypes (kind : TypeKind) (names : List Name) : Prop where
  distinct : (names.map Name.value).Nodup
  defined : ∀ name ∈ names, d.Defines name.value kind

def ProperBody : TypeBody → Prop
  | .scalar => True
  | .enum values => ProperNames ((itemsOf values).map (·.value))
  | .object interfaces fields =>
    d.ProperFields (itemsOf fields) ∧ d.DistinctTypes .interface interfaces
  | .interface fields => d.ProperFields (itemsOf fields)
  | .union _ members => d.DistinctTypes .object members
  | .input fields => d.ProperInputs (itemsOf fields)

/-- The declared types have proper names of their own. -/
structure ProperDeclarations : Prop where
  names : ProperNames (d.declarations.map Declaration.name)
  notBuiltin : ∀ t ∈ d.declarations, t.name.value ∉ builtinScalars

structure GivesRoots (s : SchemaDefinition) : Prop where
  distinct : (s.roots.items.map (·.operation)).Nodup
  objects : ∀ root ∈ s.roots.items, d.Defines root.type.value .object
  query : ∃ root ∈ s.roots.items, root.operation = .query

structure HasDefaultRoots : Prop where
  query : d.Defines "Query" .object
  others : ∀ name ∈ (["Mutation", "Subscription"] : List Text), ∀ kind,
    d.Defines name kind → kind = .object

/-- The document is a type system from which a schema can be made. -/
structure IsTypeSystem : Prop where
  noOperation : ∀ o, Definition.operation o ∉ d.definitions
  noFragment : ∀ f, Definition.fragment f ∉ d.definitions
  oneSchema : d.schemaDefinitions.length ≤ 1
  declarations : d.ProperDeclarations
  bodies : ∀ t ∈ d.declarations, d.ProperBody t.body
  implemented : ∀ t ∈ d.declarations, ∀ s ∈ d.declarations,
    s.name.value ∈ t.body.interfaces → ∀ field ∈ s.body.fieldNames, field ∈ t.body.fieldNames
  givenRoots : ∀ s ∈ d.schemaDefinitions, d.GivesRoots s
  defaultRoots : d.schemaDefinitions = [] → d.HasDefaultRoots

end Document

/-! ## Tables -/

/-- In a list of entries with distinct keys, looking up a key finds each of its entries. -/
theorem lookup_eq_some_iff_mem {β : Type} {entries : List (Text × β)}
    (h : (entries.map Prod.fst).Nodup) {name : Text} {b : β} :
    entries.lookup name = some b ↔ (name, b) ∈ entries := by
  induction entries with
  | nil => simp
  | cons entry entries ih =>
      obtain ⟨key, value⟩ := entry
      rw [List.map_cons, List.nodup_cons] at h
      by_cases hkey : name = key
      · subst hkey
        have habsent : (name, b) ∉ entries := fun hmem =>
          h.1 (List.mem_map.2 ⟨(name, b), hmem, rfl⟩)
        simp [habsent, eq_comm]
      · have hne : (name == key) = false := by simp [hkey]
        simp [List.lookup_cons, hne, hkey, ih h.2]

/-- In a list of items with distinct keys, the first item of a key is the only one. -/
theorem find?_key_eq_some_iff {α κ : Type} [DecidableEq κ] {key : α → κ} {items : List α}
    (h : (items.map key).Nodup) {k : κ} {a : α} :
    items.find? (key · = k) = some a ↔ a ∈ items ∧ key a = k := by
  induction items with
  | nil => simp
  | cons first items ih =>
      rw [List.map_cons, List.nodup_cons] at h
      by_cases hfirst : key first = k
      · have habsent : a ∈ items → key a ≠ k := by
          intro ha heq
          apply h.1
          rw [hfirst, ← heq]
          exact List.mem_map_of_mem ha
        simp [hfirst]
        grind
      · simp [hfirst, ih h.2]
        grind

namespace Document

variable {d : Document}

/-- The names of the built-in scalars and of the declared types are pairwise distinct. -/
theorem ProperDeclarations.nodup (h : d.ProperDeclarations) :
    (builtinScalars ++ d.declarations.map (·.name.value)).Nodup := by
  have hdistinct := h.names.distinct
  rw [List.map_map] at hdistinct
  refine List.nodup_append.2 ⟨by decide, hdistinct, ?_⟩
  rintro name hbuiltin other hother rfl
  obtain ⟨t, ht, rfl⟩ := List.mem_map.1 hother
  exact h.notBuiltin t ht hbuiltin

theorem map_fst_kindTable (declarations : List Declaration) :
    (kindTable declarations).map Prod.fst =
      builtinScalars ++ declarations.map (·.name.value) := by
  simp [kindTable, Function.comp_def]

theorem map_fst_typeTable (declarations : List Declaration) :
    (typeTable declarations).map Prod.fst =
      builtinScalars ++ declarations.map (·.name.value) := by
  simp [typeTable, Function.comp_def]

theorem mem_kindTable_iff {name : Text} {kind : TypeKind} :
    (name, kind) ∈ kindTable d.declarations ↔ d.Defines name kind := by
  rw [kindTable, List.mem_append, List.mem_map, List.mem_map]
  constructor
  · rintro (⟨builtin, hbuiltin, heq⟩ | ⟨t, ht, heq⟩)
    · cases heq
      exact .builtin hbuiltin
    · cases heq
      exact .declared ht
  · rintro (⟨h⟩ | ⟨h⟩)
    · exact .inl ⟨name, h, rfl⟩
    · exact .inr ⟨_, h, rfl⟩

theorem lookup_kindTable_iff (h : d.ProperDeclarations) {name : Text} {kind : TypeKind} :
    (kindTable d.declarations).lookup name = some kind ↔ d.Defines name kind := by
  rw [lookup_eq_some_iff_mem (map_fst_kindTable _ ▸ h.nodup), mem_kindTable_iff]

/-- What a declared type is, and only it, is found under its name. -/
theorem info?_typeTable_iff (h : d.ProperDeclarations) {name : Text} {info : TypeInfo} :
    (typeTable d.declarations).info? name = some info ↔
      (name ∈ builtinScalars ∧ info = .scalar) ∨
        ∃ t ∈ d.declarations,
          t.name.value = name ∧ info = t.body.info (kindTable d.declarations) := by
  rw [TypeTable.info?, lookup_eq_some_iff_mem (map_fst_typeTable _ ▸ h.nodup), typeTable,
    List.mem_append, List.mem_map, List.mem_map]
  simp only [Prod.mk.injEq, eq_comm (a := info)]
  constructor
  · rintro (⟨builtin, hbuiltin, rfl, hinfo⟩ | hdeclared)
    · exact .inl ⟨hbuiltin, hinfo⟩
    · exact .inr hdeclared
  · rintro (⟨hbuiltin, hinfo⟩ | hdeclared)
    · exact .inl ⟨name, hbuiltin, rfl, hinfo⟩
    · exact .inr hdeclared

theorem Defines.unique (h : d.ProperDeclarations) {name : Text} {kind kind' : TypeKind}
    (hkind : d.Defines name kind) (hkind' : d.Defines name kind') : kind = kind' := by
  have hlookup := (lookup_kindTable_iff h).2 hkind
  rw [(lookup_kindTable_iff h).2 hkind'] at hlookup
  exact (Option.some.inj hlookup).symm

theorem Defines.declaration {name : Text} {kind : TypeKind} (h : d.Defines name kind)
    (hkind : kind ≠ .scalar) :
    ∃ t ∈ d.declarations, t.name.value = name ∧ t.body.kind = kind := by
  cases h with
  | builtin => exact absurd rfl hkind
  | declared ht => exact ⟨_, ht, rfl, rfl⟩

theorem info?_of_declaration (h : d.ProperDeclarations) {t : Declaration}
    (ht : t ∈ d.declarations) :
    (typeTable d.declarations).info? t.name.value =
      some (t.body.info (kindTable d.declarations)) :=
  (info?_typeTable_iff h).2 (.inr ⟨t, ht, rfl, rfl⟩)

end Document

/-! ## References -/

theorem KindTable.map_base_resolve? (kinds : KindTable) (type : TypeRef) :
    (kinds.resolve? type).map TypeExpr.base =
      type.base?.filter fun name => (kinds.lookup name).isSome := by
  induction type with
  | named name bang =>
      cases h : kinds.lookup name.value <;>
        simp [KindTable.resolve?, TypeRef.base?, TypeExpr.base, Option.filter, h]
  | list opening element closing bang ih =>
      rw [TypeRef.base?, ← ih, KindTable.resolve?, Option.map_map]
      rfl
  | missing => rfl

theorem Document.RefersTo.isSome_resolve? {d : Document} (h : d.ProperDeclarations)
    {kinds : List TypeKind} {type : TypeRef} (htype : d.RefersTo kinds type) :
    ((kindTable d.declarations).resolve? type).isSome = true := by
  obtain ⟨name, kind, hbase, hdefines, -⟩ := htype
  rw [← Option.isSome_map, KindTable.map_base_resolve?, hbase]
  simp [Option.filter, (Document.lookup_kindTable_iff h).2 hdefines]

/-! ## Fields -/

theorem map_name_fieldInfos {kinds : KindTable} {fields : List FieldDefinition}
    (h : ∀ f ∈ fields, (kinds.resolve? f.type).isSome = true) :
    (fieldInfos kinds fields).map FieldInfo.name = fields.map (·.name.value) := by
  induction fields with
  | nil => rfl
  | cons f fields ih =>
      obtain ⟨type, htype⟩ := Option.isSome_iff_exists.1 (h f List.mem_cons_self)
      have hrest := ih fun g hg => h g (List.mem_cons_of_mem f hg)
      rw [fieldInfos] at hrest ⊢
      simp [htype, hrest]

/-- No field of a proper object or interface type is lost in its description. -/
theorem Document.ProperBody.map_name_fields {d : Document} (h : d.ProperDeclarations)
    {body : TypeBody} (hbody : d.ProperBody body) :
    (body.info (kindTable d.declarations)).fields.map FieldInfo.name = body.fieldNames := by
  cases body with
  | object interfaces fields =>
      exact map_name_fieldInfos fun f hf => (hbody.1.types f hf).isSome_resolve? h
  | interface fields =>
      exact map_name_fieldInfos fun f hf => (ProperFields.types hbody f hf).isSome_resolve? h
  | scalar => rfl
  | union equals members => rfl
  | enum values => rfl
  | input fields => rfl

end SelectionCheck
