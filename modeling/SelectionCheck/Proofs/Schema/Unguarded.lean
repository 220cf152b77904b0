import SelectionCheck.Proofs.Document.Holes
import SelectionCheck.Proofs.Schema.Acceptance

/-!
# Tables of types read without looking

A table of types can be read off the record of a document by following the parts of its type
definitions without looking whether they are there. `table?` does so. It gives no answer where a
part that it follows is nothing, where a definition or type takes none of its forms, or where a
type does not find under its own name the entry that it has to fill in.

The main statement is that `table?` answers for every document without holes, with the table of
the types that the document declares or the first thing that is wrong with them.
-/

namespace SelectionCheck

variable {α β : Type}

/-! ## What a table of types depends on

A table of types and what is wrong with it depend on the names and types in a declaration. The
rest is left out of a bare declaration: descriptions, default values, directives and the offsets
of punctuators. -/

/-- Items without the offsets of the brackets; brackets that were left out hold no items. -/
def bareItems (bare : α → β) (list : Option (Bracketed α)) : Option (Bracketed β) :=
  some ⟨0, (itemsOf list).map bare, none⟩

def InputValueDefinition.bare (d : InputValueDefinition) : InputValueDefinition :=
  ⟨none, d.name, none, d.type, none⟩

def FieldDefinition.bare (d : FieldDefinition) : FieldDefinition :=
  ⟨none, d.name, bareItems InputValueDefinition.bare d.arguments, .unread, d.type, []⟩

def EnumValueDefinition.bare (d : EnumValueDefinition) : EnumValueDefinition :=
  ⟨none, d.value, []⟩

def TypeBody.bare : TypeBody → TypeBody
  | .scalar => .scalar
  | .object interfaces fields => .object interfaces (bareItems FieldDefinition.bare fields)
  | .interface fields => .interface (bareItems FieldDefinition.bare fields)
  | .union _ members => .union .unread members
  | .enum values => .enum (bareItems EnumValueDefinition.bare values)
  | .input fields => .input (bareItems InputValueDefinition.bare fields)

def Declaration.bare (d : Declaration) : Declaration :=
  ⟨d.name, d.body.bare⟩

@[simp]
theorem itemsOf_bareItems (bare : α → β) (list : Option (Bracketed α)) :
    itemsOf (bareItems bare list) = (itemsOf list).map bare := rfl

theorem flatMapEarlier_map {γ : Type} {f : List β → β → List γ} {f' : List α → α → List γ}
    {g : α → β} (h : ∀ earlier a, f (earlier.map g) (g a) = f' earlier a)
    (earlier items : List α) :
    flatMapEarlier f (earlier.map g) (items.map g) = flatMapEarlier f' earlier items := by
  induction items generalizing earlier with
  | nil => rfl
  | cons a items ih =>
      have hrest := ih (a :: earlier)
      rw [List.map_cons, flatMapEarlier, h, flatMapEarlier, ← hrest]
      rfl

theorem kind_bare (body : TypeBody) : body.bare.kind = body.kind := by
  cases body <;> rfl

theorem kindTable_bare (declarations : List Declaration) :
    kindTable (declarations.map Declaration.bare) = kindTable declarations := by
  simp [kindTable, Declaration.bare, kind_bare]

theorem inputInfos_bare (kinds : KindTable) (definitions : List InputValueDefinition) :
    inputInfos kinds (definitions.map InputValueDefinition.bare) = inputInfos kinds definitions := by
  rw [inputInfos, List.filterMap_map]
  rfl

theorem fieldInfos_bare (kinds : KindTable) (definitions : List FieldDefinition) :
    fieldInfos kinds (definitions.map FieldDefinition.bare) = fieldInfos kinds definitions := by
  simp only [fieldInfos, List.filterMap_map, Function.comp_def, FieldDefinition.bare,
    itemsOf_bareItems, inputInfos_bare]

theorem info_bare (kinds : KindTable) (body : TypeBody) : body.bare.info kinds = body.info kinds := by
  cases body <;>
    simp [TypeBody.bare, TypeBody.info, fieldInfos_bare, inputInfos_bare, EnumValueDefinition.bare]

theorem typeTable_bare (declarations : List Declaration) :
    typeTable (declarations.map Declaration.bare) = typeTable declarations := by
  rw [typeTable, kindTable_bare, List.map_map]
  simp only [typeTable, Function.comp_def, Declaration.bare, info_bare]

namespace Violation

theorem enumValues_bare (definitions : List EnumValueDefinition) :
    enumValues (definitions.map EnumValueDefinition.bare) = enumValues definitions := by
  refine flatMapEarlier_map (fun earlier d => ?_) [] definitions
  rw [List.any_map]
  rfl

theorem declared_bare (declarations : List Declaration) :
    declared (declarations.map Declaration.bare) = declared declarations := by
  refine flatMapEarlier_map (fun earlier d => ?_) [] declarations
  obtain ⟨name, body⟩ := d
  rw [List.any_map]
  cases body with
  | enum values => simp only [Declaration.bare, TypeBody.bare, itemsOf_bareItems, enumValues_bare]; rfl
  | _ => rfl

theorem fieldArguments_bare (kinds : KindTable) (owner field : Text)
    (definitions : List InputValueDefinition) :
    fieldArguments kinds owner field (definitions.map InputValueDefinition.bare) =
      fieldArguments kinds owner field definitions := by
  refine flatMapEarlier_map (fun earlier d => ?_) [] definitions
  rw [List.any_map]
  rfl

theorem objectFields_bare (kinds : KindTable) (owner : Text) (definitions : List FieldDefinition) :
    objectFields kinds owner (definitions.map FieldDefinition.bare) =
      objectFields kinds owner definitions := by
  refine flatMapEarlier_map (fun earlier d => ?_) [] definitions
  have harguments := fieldArguments_bare kinds owner d.name.value (itemsOf d.arguments)
  rw [List.any_map]
  exact congrArg _ harguments

theorem inputFields_bare (kinds : KindTable) (owner : Text)
    (definitions : List InputValueDefinition) :
    inputFields kinds owner (definitions.map InputValueDefinition.bare) =
      inputFields kinds owner definitions := by
  refine flatMapEarlier_map (fun earlier d => ?_) [] definitions
  rw [List.any_map]
  rfl

theorem references_bare (kinds : KindTable) (d : Declaration) :
    references kinds d.bare = references kinds d := by
  obtain ⟨name, body⟩ := d
  cases body <;>
    simp [references, Declaration.bare, TypeBody.bare, objectFields_bare, inputFields_bare]

theorem missingFields_bare (table : TypeTable) (d : Declaration) :
    missingFields table d.bare = missingFields table d := rfl

end Violation

def Definition.declaration? : Definition → Option Declaration
  | .type t => t.name.map (⟨·, t.body⟩)
  | _ => none

def Document.tableViolations (d : Document) : List SchemaError :=
  Violation.declared d.declarations ++
    d.declarations.flatMap (Violation.references (kindTable d.declarations)) ++
    d.declarations.flatMap (Violation.missingFields (typeTable d.declarations))

/-- The table of the types that a document declares, or the first thing that is wrong with
them. -/
def Document.table (d : Document) : Except SchemaError TypeTable :=
  match d.tableViolations with
  | [] => .ok (typeTable d.declarations)
  | e :: _ => .error e

/-! ## Reading types -/

namespace Record

def elements? : Record → Option (List Record)
  | .nothing => some []
  | .node _ [_, .list elements, _] => some elements
  | _ => none

def readAll (read : Record → Option (List α)) : List Record → Option (List α)
  | [] => some []
  | r :: rs => do some ((← read r) ++ (← readAll read rs))

def readDefinitions (read : Record → Option (List α)) : Record → Option (List α)
  | .node .document [.list definitions] => readAll read definitions
  | _ => none

/-- A type reference. It is a name, a list or a non-null type, and a non-null type is a name or a
list. -/
def typeRef? : Record → Option TypeRef
  | .node .typeRef [.node .name parts, _, _] => do some (.named (← (node .name parts).name?) none)
  | .node .typeRef
      [.nothing, .node .listType [.offset (some opening), element, .offset closing], _] => do
    some (.list opening (← element.typeRef?) closing none)
  | .node .typeRef [.nothing, .nothing,
      .node .nonNullType [.node .name parts, _, .offset bang]] => do
    some (.named (← (node .name parts).name?) bang)
  | .node .typeRef [.nothing, .nothing, .node .nonNullType [.nothing,
      .node .listType [.offset (some opening), element, .offset closing], .offset bang]] => do
    some (.list opening (← element.typeRef?) closing bang)
  | _ => none

def resolve? (kinds : KindTable) (r : Record) : Option (Option TypeExpr) := do
  some (kinds.resolve? (← r.typeRef?))

def items? (read : Record → Option α) (r : Record) : Option (Option (Bracketed α)) := do
  some (some ⟨0, ← (← r.elements?).mapM read, none⟩)

def inputValue? : Record → Option InputValueDefinition
  | .node .inputValueDefinition (_ :: name :: _ :: type :: _) => do
    some ⟨none, ← name.name?, none, ← type.typeRef?, none⟩
  | _ => none

def fieldDefinition? : Record → Option FieldDefinition
  | .node .fieldDefinition (_ :: name :: arguments :: _ :: type :: _) => do
    some ⟨none, ← name.name?, ← arguments.items? inputValue?, .unread, ← type.typeRef?, []⟩
  | _ => none

def enumValue? : Record → Option EnumValueDefinition
  | .node .enumValueDefinition (_ :: value :: _) => do some ⟨none, ← value.name?, []⟩
  | _ => none

def typeBody? : Record → Option TypeBody
  | .node .scalarType _ => some .scalar
  | .node .objectType [_, _, _, .list interfaces, fields] => do
    some (.object (← interfaces.mapM name?) (← fields.items? fieldDefinition?))
  | .node .interfaceType [_, _, _, fields] => do some (.interface (← fields.items? fieldDefinition?))
  | .node .unionType [_, _, _, _, .list members] => do some (.union .unread (← members.mapM name?))
  | .node .enumType [_, _, _, values] => do some (.enum (← values.items? enumValue?))
  | .node .inputType [_, _, _, fields] => do some (.input (← fields.items? inputValue?))
  | _ => none

def declaration? : Record → Option (List Declaration)
  | .node .definition [_, _, .nothing, _] => some []
  | .node .definition [_, _, .node .typeDefinition forms, _] => do
    some [⟨← (node .typeDefinition forms).typeName?, ← (← form? forms).typeBody?⟩]
  | _ => none

def declarations? : Record → Option (List Declaration) :=
  readDefinitions declaration?

/-- The table of the types that a document declares, or the first thing that is wrong with them.
When all names are declared, every type fills in the entry under its own name, which must be there
and be of its kind. -/
def table? (r : Record) : Option (Except SchemaError TypeTable) := do
  let declarations ← r.declarations?
  let kinds := kindTable declarations
  match Violation.declared declarations with
  | e :: _ => some (.error e)
  | [] =>
    if declarations.all fun d => kinds.lookup d.name.value = some d.body.kind then
      match declarations.flatMap (Violation.references kinds) ++
          declarations.flatMap (Violation.missingFields (typeTable declarations)) with
      | e :: _ => some (.error e)
      | [] => some (.ok (typeTable declarations))
    else none

/-! ## Records of trees -/

@[simp]
theorem name?_record (n : Name) : n.record.name? = some n := rfl

@[simp]
theorem elements?_ofBracketed {kind : RecordKind} {record : α → Record} (b : Bracketed α) :
    (ofBracketed kind record b).elements? = some (b.items.map record) := rfl

@[simp]
theorem elements?_ofOption {kind : RecordKind} {record : α → Record} (o : Option (Bracketed α)) :
    (ofOption (ofBracketed kind record) o).elements? = some ((itemsOf o).map record) := by
  cases o <;> rfl

theorem mapM_map_eq_some {read : Record → Option β} {record : α → Record} {f : α → β}
    {items : List α} (h : ∀ a ∈ items, read (record a) = some (f a)) :
    (items.map record).mapM read = some (items.map f) := by
  induction items with
  | nil => rfl
  | cons a items ih =>
      obtain ⟨ha, hitems⟩ := List.forall_mem_cons.1 h
      rw [List.map_cons, List.mapM_cons, ha, ih hitems]
      rfl

theorem readAll_map_eq_some {read : Record → Option (List β)} {record : α → Record}
    {f : α → List β} {items : List α} (h : ∀ a ∈ items, read (record a) = some (f a)) :
    readAll read (items.map record) = some (items.flatMap f) := by
  induction items with
  | nil => rfl
  | cons a items ih =>
      obtain ⟨ha, hitems⟩ := List.forall_mem_cons.1 h
      rw [List.map_cons, readAll, ha, ih hitems]
      rfl

theorem readDefinitions_record {read : Record → Option (List α)} {f : Definition → List α}
    {d : Document}
    (h : ∀ definition ∈ d.definitions, read definition.record = some (f definition)) :
    readDefinitions read d.record = some (d.definitions.flatMap f) :=
  readAll_map_eq_some h

theorem typeRef?_record {t : TypeRef} (h : t.isRead = true) : t.record.typeRef? = some t := by
  induction t with
  | named name bang => cases bang <;> rfl
  | list opening element closing bang ih =>
      cases bang with
      | none =>
          change typeRef? (.node .typeRef [.nothing, .node .listType [_, _, _], _]) = _
          rw [typeRef?, ih h]
          rfl
      | some bang =>
          change typeRef? (.node .typeRef [.nothing, .nothing,
            .node .nonNullType [.nothing, .node .listType [_, _, _], _]]) = _
          rw [typeRef?, ih h]
          rfl
  | missing => cases h

theorem resolve?_record (kinds : KindTable) {t : TypeRef} (h : t.isRead = true) :
    t.record.resolve? kinds = some (kinds.resolve? t) := by
  rw [resolve?, typeRef?_record h]
  rfl

theorem items?_ofOption {kind : RecordKind} {record : α → Record} {read : Record → Option β}
    {bare : α → β} {list : Option (Bracketed α)}
    (h : ∀ a ∈ itemsOf list, read (record a) = some (bare a)) :
    (ofOption (ofBracketed kind record) list).items? read = some (bareItems bare list) := by
  rw [items?, elements?_ofOption]
  simp only [Option.bind_eq_bind, Option.bind_some, mapM_map_eq_some h]
  rfl

theorem inputValue?_record {d : InputValueDefinition} (h : HoleFree d.pieces) :
    inputValue? d.record = some d.bare := by
  rw [InputValueDefinition.pieces] at h
  simp only [holeFree_append, holeFree_name, holeFree_mark] at h
  have htype := typeRef?_record (TypeRef.isRead_of_holeFree h.2.2.1)
  rw [InputValueDefinition.record, inputValue?, name?_record, htype]
  rfl

theorem fieldDefinition?_record {d : FieldDefinition} (h : HoleFree d.pieces) :
    fieldDefinition? d.record = some d.bare := by
  rw [FieldDefinition.pieces] at h
  simp only [holeFree_append, holeFree_name, holeFree_mark] at h
  obtain ⟨-, harguments, -, htype, -⟩ := h
  have hitems : ∀ a ∈ itemsOf d.arguments, inputValue? a.record = some a.bare := by
    intro a ha
    cases hlist : d.arguments with
    | none =>
        rw [hlist] at ha
        cases ha
    | some list =>
        rw [hlist] at ha harguments
        exact inputValue?_record ((holeFree_bracketed.1 harguments).1 a ha)
  rw [FieldDefinition.record, fieldDefinition?, name?_record, items?_ofOption hitems,
    typeRef?_record (TypeRef.isRead_of_holeFree htype)]
  rfl

theorem enumValue?_record (d : EnumValueDefinition) : enumValue? d.record = some d.bare := rfl

theorem items?_body {kind : RecordKind} {item : α → List Piece} {record : α → Record}
    {read : Record → Option β} {bare : α → β} {list : Option (Bracketed α)}
    (hread : ∀ a, HoleFree (item a) → read (record a) = some (bare a))
    (h : HoleFree (bodyPieces item list)) :
    (ofOption (ofBracketed kind record) list).items? read = some (bareItems bare list) := by
  cases list with
  | none => exact (not_holeFree_absent h).elim
  | some list =>
      exact items?_ofOption fun a ha => hread a ((holeFree_bracketed.1 h).1 a ha)

theorem mapM_names (names : List Name) : (names.map Name.record).mapM name? = some names := by
  rw [mapM_map_eq_some fun n (_ : n ∈ names) => name?_record n, List.map_id']

theorem typeBody?_formRecord {d : TypeDefinition} (h : HoleFree d.body.pieces) :
    d.formRecord.typeBody? = some d.body.bare := by
  obtain ⟨description, keyword, name, body⟩ := d
  cases body with
  | scalar => rfl
  | object interfaces fields =>
      change typeBody? (.node .objectType [_, _, _, .list _, _]) = _
      rw [typeBody?, mapM_names,
        items?_body (fun _ => fieldDefinition?_record) (holeFree_append.1 h).2]
      rfl
  | interface fields =>
      change typeBody? (.node .interfaceType [_, _, _, _]) = _
      rw [typeBody?, items?_body (fun _ => fieldDefinition?_record) h]
      rfl
  | union equals members =>
      change typeBody? (.node .unionType [_, _, _, _, .list _]) = _
      rw [typeBody?, mapM_names]
      rfl
  | enum values =>
      change typeBody? (.node .enumType [_, _, _, _]) = _
      rw [typeBody?, items?_body (fun d _ => enumValue?_record d) h]
      rfl
  | input fields =>
      change typeBody? (.node .inputType [_, _, _, _]) = _
      rw [typeBody?, items?_body (fun _ => inputValue?_record) h]
      rfl

theorem declaration?_type {d : TypeDefinition} (h : HoleFree d.pieces) :
    declaration? (Definition.type d).record =
      some ((d.name.map fun name => (⟨name, d.body⟩ : Declaration)).toList.map Declaration.bare) := by
  rw [TypeDefinition.pieces, holeFree_append, holeFree_lexeme] at h
  cases hname : d.name with
  | none =>
      rw [hname] at h
      exact (not_holeFree_absent h.2).elim
  | some name =>
      rw [hname] at h
      have hbody : HoleFree d.body.pieces := holeFree_name.1 h.2
      have hform := form?_replicate (TypeDefinition.clear_formRecord hname hbody).isA
        d.body.formsBefore (5 - d.body.formsBefore)
      change declaration? (.node .definition [_, _, .node .typeDefinition _, _]) = _
      rw [declaration?, typeName?, hform]
      simp only [Option.bind_eq_bind, Option.bind_some, typeBody?_formRecord hbody]
      rw [TypeDefinition.formRecord, hname]
      rfl

theorem declarations?_record {d : Document} (h : HoleFree d.pieces) :
    d.record.declarations? = some (d.declarations.map Declaration.bare) := by
  have hdefinitions := holeFree_flatMap.1 h
  have hread : ∀ definition ∈ d.definitions, declaration? definition.record = some
      (definition.declaration?.toList.map Declaration.bare) := by
    intro definition hd
    cases definition with
    | operation o => rfl
    | fragment f => rfl
    | type t => exact declaration?_type (hdefinitions (.type t) hd)
    | schema s => rfl
  have hdeclarations : d.declarations = d.definitions.filterMap Definition.declaration? := rfl
  rw [declarations?, readDefinitions_record hread, hdeclarations,
    List.filterMap_eq_flatMap_toList, List.map_flatMap]

theorem table?_record {d : Document} (h : HoleFree d.pieces) : d.record.table? = some d.table := by
  rw [table?, declarations?_record h, Document.table, Document.tableViolations]
  simp only [Option.bind_eq_bind, Option.bind_some, kindTable_bare, typeTable_bare,
    Violation.declared_bare, List.flatMap_map, Violation.references_bare,
    Violation.missingFields_bare]
  cases hdeclared : Violation.declared d.declarations with
  | cons e rest => rfl
  | nil =>
      have hproper := (Violation.declared_eq_nil_iff.1 hdeclared).1
      have hentries : (d.declarations.map Declaration.bare).all (fun t =>
          (kindTable d.declarations).lookup t.name.value = some t.body.kind) = true := by
        rw [List.all_map, List.all_eq_true]
        intro t ht
        simp [Declaration.bare, kind_bare,
          (Document.lookup_kindTable_iff hproper).2 (Document.Defines.declared ht)]
      rw [if_pos hentries, List.nil_append]
      generalize List.flatMap _ _ ++ List.flatMap _ _ = violations
      cases violations <;> rfl

end Record

end SelectionCheck
