import Mathlib.Data.List.Basic
import SelectionCheck.Proofs.Check.Report
import SelectionCheck.Proofs.Document.Shape

/-!
# The order of definitions does not matter

A schema is made from the definitions of a document, and it is the same schema in whatever order
they stand. Definitions that change places also change their offsets, so the documents compared have
the same definitions up to offsets, one document in another order than the other. Offsets are got
rid of first: a document and its erasure define the same schema (`ofDocument_erase_eq_ok_iff`).

What is left is about one list of definitions and a permutation of it. The conditions under which a
document is a type system speak of all declarations and of all pairs of them. The tables are lists,
and two of them may hold their entries in different orders; since no name has two entries, every
look-up finds the same.
-/

namespace SelectionCheck

/-! ## Definitions without their offsets -/

def Declaration.erase (t : Declaration) : Declaration := ⟨t.name.erase, t.body.erase⟩

theorem itemsOf_erase {α β : Type} (erase : α → β) (list : Option (Bracketed α)) :
    itemsOf (list.map (Bracketed.erase erase)) = (itemsOf list).map erase := by
  cases list <;> rfl

theorem TypeRef.base?_erase (type : TypeRef) : type.erase.base? = type.base? := by
  induction type with
  | named name bang => rfl
  | list opening element closing bang ih => exact ih
  | missing => rfl

theorem KindTable.resolve?_erase (kinds : KindTable) (type : TypeRef) :
    kinds.resolve? type.erase = kinds.resolve? type := by
  induction type with
  | named name bang => simp [TypeRef.erase, resolve?, Name.erase]
  | list opening element closing bang ih => simp [TypeRef.erase, resolve?, ih]
  | missing => rfl

theorem inputInfos_erase (kinds : KindTable) (inputs : List InputValueDefinition) :
    inputInfos kinds (inputs.map InputValueDefinition.erase) = inputInfos kinds inputs := by
  simp [inputInfos, List.filterMap_map, Function.comp_def, InputValueDefinition.erase,
    kinds.resolve?_erase, Name.erase]

theorem fieldInfos_erase (kinds : KindTable) (fields : List FieldDefinition) :
    fieldInfos kinds (fields.map FieldDefinition.erase) = fieldInfos kinds fields := by
  simp [fieldInfos, List.filterMap_map, FieldDefinition.erase, kinds.resolve?_erase,
    itemsOf_erase, inputInfos_erase, Name.erase]

namespace TypeBody

theorem kind_erase (body : TypeBody) : body.erase.kind = body.kind := by
  cases body <;> rfl

theorem info_erase (kinds : KindTable) (body : TypeBody) :
    body.erase.info kinds = body.info kinds := by
  cases body <;>
    simp [erase, info, itemsOf_erase, fieldInfos_erase, inputInfos_erase, Name.erase,
      EnumValueDefinition.erase]

theorem interfaces_erase (body : TypeBody) : body.erase.interfaces = body.interfaces := by
  cases body <;> simp [erase, interfaces, Name.erase]

theorem fieldNames_erase (body : TypeBody) : body.erase.fieldNames = body.fieldNames := by
  cases body <;>
    simp [erase, fieldNames, fieldDefinitions, itemsOf_erase, FieldDefinition.erase, Name.erase]

end TypeBody

theorem kindTable_erase (declarations : List Declaration) :
    kindTable (declarations.map Declaration.erase) = kindTable declarations := by
  simp [kindTable, Declaration.erase, Name.erase, TypeBody.kind_erase]

theorem typeTable_erase (declarations : List Declaration) :
    typeTable (declarations.map Declaration.erase) = typeTable declarations := by
  simp [typeTable, kindTable_erase, Declaration.erase, Name.erase, TypeBody.info_erase]

theorem properNames_erase_iff {names : List Name} :
    ProperNames (names.map Name.erase) ↔ ProperNames names := by
  have hvalues : (names.map Name.erase).map Name.value = names.map Name.value := by
    simp [Name.erase]
  constructor
  · rintro ⟨hdistinct, hunreserved⟩
    exact ⟨hvalues ▸ hdistinct, fun n hn => hunreserved n.erase (List.mem_map_of_mem hn)⟩
  · rintro ⟨hdistinct, hunreserved⟩
    refine ⟨hvalues ▸ hdistinct, ?_⟩
    intro n hn
    obtain ⟨m, hm, rfl⟩ := List.mem_map.1 hn
    exact hunreserved m hm

namespace Document

variable (d : Document)

theorem declarations_erase : d.erase.declarations = d.declarations.map Declaration.erase := by
  rw [declarations, declarations, erase, List.filterMap_map, List.map_filterMap]
  congr 1
  funext definition
  cases definition with
  | type t => simp [Definition.erase, TypeDefinition.erase, Declaration.erase, Function.comp_def]
  | operation | fragment | schema => rfl

theorem schemaDefinitions_erase :
    d.erase.schemaDefinitions = d.schemaDefinitions.map SchemaDefinition.erase := by
  rw [schemaDefinitions, schemaDefinitions, erase, List.filterMap_map, List.map_filterMap]
  congr 1
  funext definition
  cases definition <;> rfl

variable {d}

theorem defines_erase_iff {name : Text} {kind : TypeKind} :
    d.erase.Defines name kind ↔ d.Defines name kind := by
  rw [← mem_kindTable_iff, ← mem_kindTable_iff, declarations_erase, kindTable_erase]

theorem refersTo_erase_iff {kinds : List TypeKind} {type : TypeRef} :
    d.erase.RefersTo kinds type.erase ↔ d.RefersTo kinds type := by
  simp only [RefersTo, TypeRef.base?_erase, defines_erase_iff]

theorem properInputs_erase_iff {inputs : List InputValueDefinition} :
    d.erase.ProperInputs (inputs.map InputValueDefinition.erase) ↔ d.ProperInputs inputs := by
  have hnames : (inputs.map InputValueDefinition.erase).map (·.name) =
      (inputs.map (·.name)).map Name.erase := by
    simp [InputValueDefinition.erase]
  have htypes : (∀ i ∈ inputs.map InputValueDefinition.erase,
      d.erase.RefersTo [.scalar, .enum, .input] i.type) ↔
        ∀ i ∈ inputs, d.RefersTo [.scalar, .enum, .input] i.type := by
    simp [InputValueDefinition.erase, refersTo_erase_iff]
  constructor
  · rintro ⟨h, h'⟩
    exact ⟨properNames_erase_iff.1 (hnames ▸ h), htypes.1 h'⟩
  · rintro ⟨h, h'⟩
    exact ⟨hnames ▸ properNames_erase_iff.2 h, htypes.2 h'⟩

theorem properFields_erase_iff {fields : List FieldDefinition} :
    d.erase.ProperFields (fields.map FieldDefinition.erase) ↔ d.ProperFields fields := by
  have hnames : (fields.map FieldDefinition.erase).map (·.name) =
      (fields.map (·.name)).map Name.erase := by
    simp [FieldDefinition.erase]
  have htypes : (∀ f ∈ fields.map FieldDefinition.erase,
      d.erase.RefersTo [.scalar, .enum, .object, .interface, .union] f.type) ↔
        ∀ f ∈ fields, d.RefersTo [.scalar, .enum, .object, .interface, .union] f.type := by
    simp [FieldDefinition.erase, refersTo_erase_iff]
  have harguments : (∀ f ∈ fields.map FieldDefinition.erase,
      d.erase.ProperInputs (itemsOf f.arguments)) ↔
        ∀ f ∈ fields, d.ProperInputs (itemsOf f.arguments) := by
    simp [FieldDefinition.erase, itemsOf_erase, properInputs_erase_iff]
  constructor
  · rintro ⟨h, h', h''⟩
    exact ⟨properNames_erase_iff.1 (hnames ▸ h), htypes.1 h', harguments.1 h''⟩
  · rintro ⟨h, h', h''⟩
    exact ⟨hnames ▸ properNames_erase_iff.2 h, htypes.2 h', harguments.2 h''⟩

theorem distinctTypes_erase_iff {kind : TypeKind} {names : List Name} :
    d.erase.DistinctTypes kind (names.map Name.erase) ↔ d.DistinctTypes kind names := by
  have hvalues : (names.map Name.erase).map Name.value = names.map Name.value := by
    simp [Name.erase]
  have hdefined : (∀ n ∈ names.map Name.erase, d.erase.Defines n.value kind) ↔
      ∀ n ∈ names, d.Defines n.value kind := by
    simp [Name.erase, defines_erase_iff]
  constructor
  · rintro ⟨h, h'⟩
    exact ⟨hvalues ▸ h, hdefined.1 h'⟩
  · rintro ⟨h, h'⟩
    exact ⟨hvalues ▸ h, hdefined.2 h'⟩

theorem properBody_erase_iff {body : TypeBody} :
    d.erase.ProperBody body.erase ↔ d.ProperBody body := by
  cases body with
  | scalar => rfl
  | object interfaces fields =>
      simp only [TypeBody.erase, ProperBody, itemsOf_erase, properFields_erase_iff,
        distinctTypes_erase_iff]
  | interface fields =>
      simp only [TypeBody.erase, ProperBody, itemsOf_erase, properFields_erase_iff]
  | union equals members => simp only [TypeBody.erase, ProperBody, distinctTypes_erase_iff]
  | enum values =>
      have hnames : ((itemsOf values).map EnumValueDefinition.erase).map (·.value) =
          ((itemsOf values).map (·.value)).map Name.erase := by
        simp [EnumValueDefinition.erase]
      simp only [TypeBody.erase, ProperBody, itemsOf_erase, hnames, properNames_erase_iff]
  | input fields =>
      simp only [TypeBody.erase, ProperBody, itemsOf_erase, properInputs_erase_iff]

theorem givesRoots_erase_iff {s : SchemaDefinition} :
    d.erase.GivesRoots s.erase ↔ d.GivesRoots s := by
  have hitems : s.erase.roots.items = s.roots.items.map RootDefinition.erase := rfl
  have hdistinct : (s.erase.roots.items.map (·.operation)) = s.roots.items.map (·.operation) := by
    simp [hitems, RootDefinition.erase]
  have hobjects : (∀ root ∈ s.erase.roots.items, d.erase.Defines root.type.value .object) ↔
      ∀ root ∈ s.roots.items, d.Defines root.type.value .object := by
    simp [hitems, RootDefinition.erase, Name.erase, defines_erase_iff]
  have hquery : (∃ root ∈ s.erase.roots.items, root.operation = .query) ↔
      ∃ root ∈ s.roots.items, root.operation = .query := by
    constructor
    · rintro ⟨root, hroot, hquery⟩
      obtain ⟨root', hroot', rfl⟩ := List.mem_map.1 hroot
      exact ⟨root', hroot', hquery⟩
    · rintro ⟨root, hroot, hquery⟩
      exact ⟨root.erase, List.mem_map_of_mem hroot, hquery⟩
  constructor
  · rintro ⟨h, h', h''⟩
    exact ⟨hdistinct ▸ h, hobjects.1 h', hquery.1 h''⟩
  · rintro ⟨h, h', h''⟩
    exact ⟨hdistinct ▸ h, hobjects.2 h', hquery.2 h''⟩

theorem hasDefaultRoots_erase_iff : d.erase.HasDefaultRoots ↔ d.HasDefaultRoots := by
  constructor
  · rintro ⟨hquery, hothers⟩
    exact ⟨defines_erase_iff.1 hquery,
      fun name hname kind hkind => hothers name hname kind (defines_erase_iff.2 hkind)⟩
  · rintro ⟨hquery, hothers⟩
    exact ⟨defines_erase_iff.2 hquery,
      fun name hname kind hkind => hothers name hname kind (defines_erase_iff.1 hkind)⟩

theorem properDeclarations_erase_iff : d.erase.ProperDeclarations ↔ d.ProperDeclarations := by
  have hnames : d.erase.declarations.map Declaration.name =
      (d.declarations.map Declaration.name).map Name.erase := by
    simp [declarations_erase, Declaration.erase]
  have hbuiltin : (∀ t ∈ d.erase.declarations, t.name.value ∉ builtinScalars) ↔
      ∀ t ∈ d.declarations, t.name.value ∉ builtinScalars := by
    simp [declarations_erase, Declaration.erase, Name.erase]
  constructor
  · rintro ⟨h, h'⟩
    exact ⟨properNames_erase_iff.1 (hnames ▸ h), hbuiltin.1 h'⟩
  · rintro ⟨h, h'⟩
    exact ⟨hnames ▸ properNames_erase_iff.2 h, hbuiltin.2 h'⟩

theorem exists_operation_mem_erase_iff :
    (∃ o, Definition.operation o ∈ d.erase.definitions) ↔
      ∃ o, Definition.operation o ∈ d.definitions := by
  constructor
  · rintro ⟨o, ho⟩
    obtain ⟨definition, hmem, heq⟩ := List.mem_map.1 ho
    cases definition with
    | operation o' => exact ⟨o', hmem⟩
    | fragment | type | schema => cases heq
  · rintro ⟨o, ho⟩
    exact ⟨o.erase, List.mem_map_of_mem ho⟩

theorem exists_fragment_mem_erase_iff :
    (∃ f, Definition.fragment f ∈ d.erase.definitions) ↔
      ∃ f, Definition.fragment f ∈ d.definitions := by
  constructor
  · rintro ⟨f, hf⟩
    obtain ⟨definition, hmem, heq⟩ := List.mem_map.1 hf
    cases definition with
    | fragment f' => exact ⟨f', hmem⟩
    | operation | type | schema => cases heq
  · rintro ⟨f, hf⟩
    exact ⟨f.erase, List.mem_map_of_mem hf⟩

theorem root?_erase (operation : OperationType) : d.erase.root? operation = d.root? operation := by
  rw [root?, root?, schemaDefinitions_erase, declarations_erase, kindTable_erase]
  cases d.schemaDefinitions with
  | nil => rfl
  | cons s rest =>
      simp only [List.map_cons, SchemaDefinition.erase, Bracketed.erase, List.find?_map,
        Option.map_map, Function.comp_def, RootDefinition.erase, Name.erase]
      rfl

theorem isTypeSystem_erase_iff : d.erase.IsTypeSystem ↔ d.IsTypeSystem := by
  have hoperation : (∀ o, Definition.operation o ∉ d.erase.definitions) ↔
      ∀ o, Definition.operation o ∉ d.definitions := by
    simp only [← not_exists, exists_operation_mem_erase_iff]
  have hfragment : (∀ f, Definition.fragment f ∉ d.erase.definitions) ↔
      ∀ f, Definition.fragment f ∉ d.definitions := by
    simp only [← not_exists, exists_fragment_mem_erase_iff]
  have hone : d.erase.schemaDefinitions.length ≤ 1 ↔ d.schemaDefinitions.length ≤ 1 := by
    rw [schemaDefinitions_erase, List.length_map]
  have hbodies : (∀ t ∈ d.erase.declarations, d.erase.ProperBody t.body) ↔
      ∀ t ∈ d.declarations, d.ProperBody t.body := by
    simp [declarations_erase, Declaration.erase, properBody_erase_iff]
  have himplemented : (∀ t ∈ d.erase.declarations, ∀ s ∈ d.erase.declarations,
      s.name.value ∈ t.body.interfaces → ∀ f ∈ s.body.fieldNames, f ∈ t.body.fieldNames) ↔
        ∀ t ∈ d.declarations, ∀ s ∈ d.declarations,
          s.name.value ∈ t.body.interfaces → ∀ f ∈ s.body.fieldNames, f ∈ t.body.fieldNames := by
    simp only [declarations_erase, Declaration.erase, List.forall_mem_map, Name.erase,
      TypeBody.interfaces_erase, TypeBody.fieldNames_erase]
  have hgiven : (∀ s ∈ d.erase.schemaDefinitions, d.erase.GivesRoots s) ↔
      ∀ s ∈ d.schemaDefinitions, d.GivesRoots s := by
    simp only [schemaDefinitions_erase, List.forall_mem_map, givesRoots_erase_iff]
  have hdefault : (d.erase.schemaDefinitions = [] → d.erase.HasDefaultRoots) ↔
      (d.schemaDefinitions = [] → d.HasDefaultRoots) := by
    rw [schemaDefinitions_erase, List.map_eq_nil_iff, hasDefaultRoots_erase_iff]
  constructor
  · intro h
    exact ⟨hoperation.1 h.noOperation, hfragment.1 h.noFragment, hone.1 h.oneSchema,
      properDeclarations_erase_iff.1 h.declarations, hbodies.1 h.bodies,
      himplemented.1 h.implemented, hgiven.1 h.givenRoots, hdefault.1 h.defaultRoots⟩
  · intro h
    exact ⟨hoperation.2 h.noOperation, hfragment.2 h.noFragment, hone.2 h.oneSchema,
      properDeclarations_erase_iff.2 h.declarations, hbodies.2 h.bodies,
      himplemented.2 h.implemented, hgiven.2 h.givenRoots, hdefault.2 h.defaultRoots⟩

end Document

theorem Schema.ofDocument_erase_eq_ok_iff {d : Document} {schema : Schema} :
    ofDocument d.erase = .ok schema ↔ ofDocument d = .ok schema := by
  simp only [ofDocument_eq_ok_iff, Document.isTypeSystem_erase_iff, Document.root?_erase,
    Document.declarations_erase, typeTable_erase]

/-! ## Another order -/

namespace Document

variable {d d' : Document}

section Monotone

variable (h : ∀ name kind, d.Defines name kind → d'.Defines name kind)
include h

theorem RefersTo.mono {kinds : List TypeKind} {type : TypeRef} (htype : d.RefersTo kinds type) :
    d'.RefersTo kinds type := by
  obtain ⟨name, kind, hbase, hdefines, hkind⟩ := htype
  exact ⟨name, kind, hbase, h name kind hdefines, hkind⟩

theorem ProperInputs.mono {inputs : List InputValueDefinition} (hinputs : d.ProperInputs inputs) :
    d'.ProperInputs inputs :=
  ⟨hinputs.names, fun i hi => (hinputs.types i hi).mono h⟩

theorem ProperFields.mono {fields : List FieldDefinition} (hfields : d.ProperFields fields) :
    d'.ProperFields fields :=
  ⟨hfields.names, fun f hf => (hfields.types f hf).mono h,
    fun f hf => (hfields.arguments f hf).mono h⟩

theorem DistinctTypes.mono {kind : TypeKind} {names : List Name}
    (hnames : d.DistinctTypes kind names) : d'.DistinctTypes kind names :=
  ⟨hnames.distinct, fun n hn => h n.value kind (hnames.defined n hn)⟩

theorem ProperBody.mono {body : TypeBody} (hbody : d.ProperBody body) : d'.ProperBody body := by
  cases body with
  | scalar => trivial
  | enum values => exact hbody
  | object interfaces fields => exact ⟨hbody.1.mono h, hbody.2.mono h⟩
  | interface fields => exact ProperFields.mono h hbody
  | union equals members => exact DistinctTypes.mono h hbody
  | input fields => exact ProperInputs.mono h hbody

end Monotone

section Perm

variable (h : d.definitions.Perm d'.definitions)
include h

theorem declarations_perm : d.declarations.Perm d'.declarations :=
  h.filterMap _

theorem schemaDefinitions_perm : d.schemaDefinitions.Perm d'.schemaDefinitions :=
  h.filterMap _

theorem Defines.perm {name : Text} {kind : TypeKind} (hdefines : d.Defines name kind) :
    d'.Defines name kind := by
  cases hdefines with
  | builtin hbuiltin => exact .builtin hbuiltin
  | declared ht => exact .declared ((declarations_perm h).mem_iff.1 ht)

theorem ProperDeclarations.perm (hd : d.ProperDeclarations) : d'.ProperDeclarations := by
  have hnames := (declarations_perm h).map Declaration.name
  refine ⟨⟨?_, ?_⟩, ?_⟩
  · exact (hnames.map Name.value).nodup_iff.1 hd.names.distinct
  · intro name hname
    exact hd.names.unreserved name (hnames.mem_iff.2 hname)
  · intro t ht
    exact hd.notBuiltin t ((declarations_perm h).mem_iff.2 ht)

theorem IsTypeSystem.perm (hd : d.IsTypeSystem) : d'.IsTypeSystem := by
  have hmem {t : Declaration} : t ∈ d'.declarations → t ∈ d.declarations :=
    (declarations_perm h).mem_iff.2
  have hdefines : ∀ name kind, d.Defines name kind → d'.Defines name kind :=
    fun _ _ => Defines.perm h
  have hdefines' : ∀ name kind, d'.Defines name kind → d.Defines name kind :=
    fun _ _ => Defines.perm h.symm
  refine ⟨?_, ?_, ?_, hd.declarations.perm h, ?_, ?_, ?_, ?_⟩
  · intro o ho
    exact hd.noOperation o (h.mem_iff.2 ho)
  · intro f hf
    exact hd.noFragment f (h.mem_iff.2 hf)
  · rw [← (schemaDefinitions_perm h).length_eq]
    exact hd.oneSchema
  · intro t ht
    exact (hd.bodies t (hmem ht)).mono hdefines
  · intro t ht s hs
    exact hd.implemented t (hmem ht) s (hmem hs)
  · intro s hs
    obtain ⟨hdistinct, hobjects, hquery⟩ :=
      hd.givenRoots s ((schemaDefinitions_perm h).mem_iff.2 hs)
    exact ⟨hdistinct, fun root hroot => hdefines _ _ (hobjects root hroot), hquery⟩
  · intro hnone
    obtain ⟨hquery, hothers⟩ := hd.defaultRoots
      (List.perm_nil.1 (hnone ▸ schemaDefinitions_perm h))
    exact ⟨hdefines _ _ hquery,
      fun name hname kind hkind => hothers name hname kind (hdefines' _ _ hkind)⟩

theorem HasRoot.perm {operation : OperationType} {name : Text} (hroot : d.HasRoot operation name) :
    d'.HasRoot operation name := by
  cases hroot with
  | given hs hroot => exact .given ((schemaDefinitions_perm h).mem_iff.1 hs) hroot
  | default hnone hdefines =>
      exact .default (List.perm_nil.1 (hnone ▸ (schemaDefinitions_perm h).symm)) (hdefines.perm h)

theorem root?_perm (hd : d.IsTypeSystem) (operation : OperationType) :
    d.root? operation = d'.root? operation := by
  ext name
  rw [root?_eq_some_iff hd, root?_eq_some_iff (hd.perm h)]
  exact ⟨HasRoot.perm h, HasRoot.perm h.symm⟩

theorem lookup_kindTable_perm (hd : d.ProperDeclarations) (name : Text) :
    (kindTable d.declarations).lookup name = (kindTable d'.declarations).lookup name := by
  ext kind
  rw [lookup_kindTable_iff hd, lookup_kindTable_iff (hd.perm h)]
  exact ⟨Defines.perm h, Defines.perm h.symm⟩

end Perm

end Document

section Lookup

variable {kinds kinds' : KindTable} (h : ∀ name, kinds.lookup name = kinds'.lookup name)
include h

theorem KindTable.resolve?_congr (type : TypeRef) : kinds.resolve? type = kinds'.resolve? type := by
  induction type with
  | named name bang => rw [resolve?, resolve?, h]
  | list opening element closing bang ih => rw [resolve?, resolve?, ih]
  | missing => rfl

theorem inputInfos_congr (inputs : List InputValueDefinition) :
    inputInfos kinds inputs = inputInfos kinds' inputs := by
  simp only [inputInfos, KindTable.resolve?_congr h]

theorem fieldInfos_congr (fields : List FieldDefinition) :
    fieldInfos kinds fields = fieldInfos kinds' fields := by
  simp only [fieldInfos, KindTable.resolve?_congr h, inputInfos_congr h]

theorem TypeBody.info_congr (body : TypeBody) : body.info kinds = body.info kinds' := by
  cases body <;> simp only [info, fieldInfos_congr h, inputInfos_congr h]

end Lookup

theorem Document.info?_typeTable_perm {d d' : Document} (h : d.definitions.Perm d'.definitions)
    (hd : d.ProperDeclarations) (name : Text) :
    (typeTable d.declarations).info? name = (typeTable d'.declarations).info? name := by
  have hinfo : ∀ body : TypeBody,
      body.info (kindTable d.declarations) = body.info (kindTable d'.declarations) :=
    TypeBody.info_congr (lookup_kindTable_perm h hd)
  ext info
  simp only [info?_typeTable_iff hd, info?_typeTable_iff (hd.perm h), hinfo,
    (declarations_perm h).mem_iff]

/-! ## Schemas that answer alike -/

theorem violatedSet_congr_of_items {table table' : TypeTable} {set : SelectionSet}
    (h : ∀ s ∈ set.items, ∀ parent path,
      s.violated table parent path = s.violated table' parent path)
    (parent : Text) (path : FieldPath) :
    violatedSet table parent path set = violatedSet table' parent path set := by
  rw [violatedSet_eq_flatMap, violatedSet_eq_flatMap]
  exact List.flatMap_congr fun s hs => h s hs parent path

section Tables

variable {table table' : TypeTable} (h : ∀ name, table.info? name = table'.info? name)
include h

theorem TypeTable.classOf_congr (type : TypeExpr) : table.classOf type = table'.classOf type := by
  rw [classOf, classOf, kind?, kind?, h]

theorem TypeTable.fieldTypeName?_congr (parent field : Text) :
    table.fieldTypeName? parent field = table'.fieldTypeName? parent field := by
  simp only [fieldTypeName?, fieldType?, classOf_congr h, h]

theorem TypeTable.conditionType?_congr (parent : Text) (condition : Option TypeCondition) :
    table.conditionType? parent condition = table'.conditionType? parent condition := by
  simp only [conditionType?, classOf_congr h]

theorem Selection.violated_congr (s : Selection) :
    ∀ parent path, s.violated table parent path = s.violated table' parent path := by
  induction s using Selection.induction with
  | field aliasName name arguments directives set ih =>
      intro parent path
      cases set with
      | none =>
          simp only [Selection.violated, TypeTable.fieldTypeName?_congr h,
            TypeTable.classOf_congr h]
      | some set =>
          simp only [Selection.violated, TypeTable.fieldTypeName?_congr h,
            TypeTable.classOf_congr h, violatedSet_congr_of_items ih]
  | spread ellipsis name directives =>
      intro parent path
      rw [Selection.violated, Selection.violated]
  | inline ellipsis condition directives set ih =>
      intro parent path
      simp only [Selection.violated, TypeTable.conditionType?_congr h,
        violatedSet_congr_of_items ih]

theorem violatedSet_congr (parent : Text) (path : FieldPath) (set : SelectionSet) :
    violatedSet table parent path set = violatedSet table' parent path set :=
  violatedSet_congr_of_items (fun x _ => x.violated_congr h) parent path

end Tables

/-- The check asks a schema for its roots and for the descriptions of names, and for nothing else.
-/
theorem Schema.validate_congr {schema schema' : Schema}
    (hroot : ∀ operation, schema.root? operation = schema'.root? operation)
    (hinfo : ∀ name, schema.types.info? name = schema'.types.info? name) (query : Query) :
    schema.validate query = schema'.validate query := by
  have hdefinition : ∀ definition : Definition,
      definition.violated schema = definition.violated schema' := by
    intro definition
    cases definition with
    | operation o =>
        simp only [Definition.violated, Operation.violated, hroot, violatedSet_congr hinfo]
    | fragment f =>
        simp only [Definition.violated, Fragment.violated, TypeTable.classOf_congr hinfo,
          violatedSet_congr hinfo]
    | type | schema => rfl
  rw [validate, validate, Document.violated, Document.violated, funext hdefinition]

/-! ## Schemas from permuted definitions -/

namespace Schema

theorem exists_ofDocument_eq_ok_iff {d : Document} :
    (∃ schema, ofDocument d = .ok schema) ↔ d.IsTypeSystem := by
  simp only [ofDocument_eq_ok_iff]
  constructor
  · rintro ⟨schema, hd, -⟩
    exact hd
  · intro hd
    obtain ⟨query, hquery⟩ := hd.exists_root
    exact ⟨⟨query, _, _, _⟩, hd, hquery, rfl, rfl, rfl⟩

/-- The order of the definitions and their offsets decide neither whether a document defines a
schema nor what the schema answers. -/
theorem ofDocument_perm {d d' : Document}
    (h : (d.definitions.map Definition.erase).Perm (d'.definitions.map Definition.erase)) :
    ((∃ schema, ofDocument d = .ok schema) ↔ ∃ schema, ofDocument d' = .ok schema) ∧
      ∀ schema schema', ofDocument d = .ok schema → ofDocument d' = .ok schema' →
        schema.query = schema'.query ∧ schema.mutation = schema'.mutation ∧
        schema.subscription = schema'.subscription ∧
        (∀ name, schema.types.info? name = schema'.types.info? name) ∧
        ∀ query, schema.validate query = schema'.validate query := by
  constructor
  · rw [exists_ofDocument_eq_ok_iff, exists_ofDocument_eq_ok_iff,
      ← Document.isTypeSystem_erase_iff (d := d), ← Document.isTypeSystem_erase_iff (d := d')]
    exact ⟨Document.IsTypeSystem.perm h, Document.IsTypeSystem.perm h.symm⟩
  · intro schema schema' hschema hschema'
    rw [← ofDocument_erase_eq_ok_iff] at hschema hschema'
    obtain ⟨hd, -, -, -, htypes⟩ := ofDocument_eq_ok_iff.1 hschema
    obtain ⟨-, -, -, -, htypes'⟩ := ofDocument_eq_ok_iff.1 hschema'
    have hroot : ∀ operation, schema.root? operation = schema'.root? operation := by
      intro operation
      rw [root?_of_ofDocument hschema, root?_of_ofDocument hschema']
      exact Document.root?_perm h hd operation
    have hinfo : ∀ name, schema.types.info? name = schema'.types.info? name := by
      intro name
      rw [← htypes, ← htypes']
      exact Document.info?_typeTable_perm h hd.declarations name
    exact ⟨Option.some.inj (hroot .query), hroot .mutation, hroot .subscription, hinfo,
      validate_congr hroot hinfo⟩

def circularTypes : Text :=
  "interface Node \x7b next(c: C): [Hit!] \x7d union Hit = P | Q schema \x7b query: Q \x7d
type Q implements Node \x7b next: [Hit!] \x7d type P \x7b q: Q! \x7d input C \x7b of: C \x7d"

theorem ofDocument_perm_circularTypes :
    ∃ d schema schema', parse circularTypes = ⟨some d, []⟩ ∧ ofDocument d = .ok schema ∧
      ofDocument ⟨d.definitions.reverse⟩ = .ok schema' ∧ schema.types ≠ schema'.types ∧
      schema.query = schema'.query ∧ schema.mutation = schema'.mutation ∧
      schema.subscription = schema'.subscription ∧
      (∀ name, schema.types.info? name = schema'.types.info? name) ∧
      ∀ query, schema.validate query = schema'.validate query := by
  have herrors : (parse circularTypes).errors = [] := by
    rw [circularTypes, Text.ofString_ofList]
    decide +kernel
  have hboth : ((parse circularTypes).document.bind fun d =>
      (ofDocument d).toOption.bind fun schema =>
        (ofDocument ⟨d.definitions.reverse⟩).toOption.map fun schema' =>
          decide (schema.types ≠ schema'.types)) = some true := by
    rw [circularTypes, Text.ofString_ofList]
    decide +kernel
  simp only [Option.bind_eq_some_iff, Option.map_eq_some_iff, decide_eq_true_eq] at hboth
  obtain ⟨d, hdocument, schema, hschema, schema', hschema', hne⟩ := hboth
  have hd := eq_ok_of_toOption_eq_some hschema
  have hd' := eq_ok_of_toOption_eq_some hschema'
  have hparse : parse circularTypes = ⟨some d, []⟩ := by rw [← hdocument, ← herrors]
  have hperm := (List.reverse_perm d.definitions).symm.map Definition.erase
  exact ⟨d, schema, schema', hparse, hd, hd', hne,
    (ofDocument_perm hperm).2 schema schema' hd hd'⟩

end Schema

end SelectionCheck
