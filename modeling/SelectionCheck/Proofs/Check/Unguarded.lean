import SelectionCheck.Proofs.Check.Report
import SelectionCheck.Proofs.Schema.Unguarded

/-!
# Documents read without looking

The findings about a query can be read off the record of its document by following the parts of
its definitions and selections without looking whether they are there. The functions here do so;
they give no answer where a part that they follow is nothing or a node takes none of its forms.

The main statement is about a source without errors. All nodes in the record of its document are
sound, and every reader that does not look gets from the record what it would get from the
document: the findings about definitions that are not executable, the names of operations, the
types that references denote, the table of types, and, for any schema, the violations.
-/

namespace SelectionCheck

/-- What a selection on a leaf type is listed as: the name of a field or fragment, or the type of an
inline fragment. -/
def Selection.leafItem (returns : Text) : Selection → Text ⊕ Text
  | .field _ name _ _ _ | .spread _ name _ => .inl name.value
  | .inline _ (some condition) _ _ => .inr condition.name.value
  | .inline _ none _ _ => .inr returns

namespace Record

def nameOrNone? : Record → Option (Option Name)
  | .nothing => some none
  | r => r.name?.map some

/-! ## Queries -/

def notExecutableDefinition? (source : Text) : Record → Option (List Finding)
  | .node .definition [.nothing, .nothing, type, schema] => do
    let start ← (node .definition [.nothing, .nothing, type, schema]).start?
    some [.atPosition "not an operation nor a fragment" (.ofOffset source start)]
  | .node .definition [_, _, _, _] => some []
  | _ => none

def notExecutable? (source : Text) : Record → Option (List Finding) :=
  readDefinitions (notExecutableDefinition? source)

def operationName? : Record → Option (List Text)
  | .node .definition (.nothing :: _) => some []
  | .node .definition (.node .operation (_ :: _ :: name :: _) :: _) => do
    some [((← name.nameOrNone?).map Name.value).getD []]
  | _ => none

def operationNames? : Record → Option (List Text) :=
  readDefinitions operationName?

/-! ## Selection sets -/

def leafItem? (returns : Text) : Record → Option (Text ⊕ Text)
  | .node .selection [.node .field (_ :: name :: _), _, _] => do some (.inl (← name.name?).value)
  | .node .selection [.nothing, .node .spread (_ :: name :: _), _] => do
    some (.inl (← name.name?).value)
  | .node .selection [.nothing, .nothing, .node .inline (_ :: .nothing :: _)] =>
    some (.inr returns)
  | .node .selection [.nothing, .nothing,
      .node .inline (_ :: .node .typeCondition [_, name] :: _)] => do
    some (.inr (← name.name?).value)
  | _ => none

def leafMisuses? (field returns : Text) (set : Record) : Option (List Misuse) := do
  let items ← (← set.elements?).mapM (leafItem? returns)
  let selected := items.filterMap Sum.getLeft?
  let conditions := items.filterMap Sum.getRight?
  some ((if selected.isEmpty then [] else [.selections field returns selected]) ++
    if conditions.isEmpty then [] else [.inlineFragments field returns conditions])

mutual

def violatedSelection? (table : TypeTable) (parent : Text) (path : FieldPath) :
    Record → Option (List Violated)
  | .node .selection [.node .field [aliasName, name, arguments, directives, set], _, _] => do
    let key ← (node .field [aliasName, name, arguments, directives, set]).key?
    let field ← name.name?
    let path := path.push key.value
    match table.fieldTypeName? parent field.value with
    | none => some []
    | some returns =>
      match table.classOf (.named returns false) with
      | .composite =>
        match ← set.elements? with
        | [] => some [⟨.noSelections field.value returns, key.start, path.toList⟩]
        | _ :: _ => violatedSet? table returns path set
      | .leaf => do
        let misuses ← leafMisuses? field.value returns set
        some (misuses.map (⟨·, key.start, path.toList⟩))
      | .unresolved => some []
  | .node .selection [.nothing, .node .spread _, _] => some []
  | .node .selection [.nothing, .nothing, .node .inline [_, .nothing, _, set]] =>
    violatedSet? table parent path set
  | .node .selection [.nothing, .nothing,
      .node .inline [_, .node .typeCondition [_, name], _, set]] => do
    let condition ← name.name?
    match table.classOf (.named condition.value false) with
    | .composite => violatedSet? table condition.value path set
    | .leaf | .unresolved => some []
  | _ => none

def violatedSet? (table : TypeTable) (parent : Text) (path : FieldPath) :
    Record → Option (List Violated)
  | .node .selectionSet [_, .list selections, _] => violatedList? table parent path selections
  | _ => none

def violatedList? (table : TypeTable) (parent : Text) (path : FieldPath) :
    List Record → Option (List Violated)
  | [] => some []
  | r :: rs => do
    some ((← violatedSelection? table parent path r) ++ (← violatedList? table parent path rs))

end

def violatedDefinition? (schema : Schema) : Record → Option (List Violated)
  | .node .definition
      (.node .operation [.offset (some start), .operationType type, name, _, _, set] :: _) => do
    let name ← name.nameOrNone?
    let path := FieldPath.root.push (segment type name)
    match schema.root? type with
    | none => some []
    | some root =>
      match ← set.elements? with
      | [] => some [⟨.emptyOperation type name root, start, path.toList⟩]
      | _ :: _ => violatedSet? schema.types root path set
  | .node .definition (.nothing ::
      .node .fragment [_, name, .node .typeCondition [_, condition], _, set] :: _) => do
    let name ← name.name?
    let condition ← condition.name?
    match schema.types.classOf (.named condition.value false) with
    | .composite =>
      violatedSet? schema.types condition.value (FieldPath.root.push ("fragment " ++ name.value))
        set
    | .leaf | .unresolved => some []
  | .node .definition (.nothing :: .nothing :: _) => some []
  | _ => none
where
  segment (type : OperationType) (name : Option Name) : Text :=
    match name with
    | some name => (type.keyword : Text) ++ " " ++ name.value
    | none => type.keyword

def violated? (schema : Schema) : Record → Option (List Violated) :=
  readDefinitions (violatedDefinition? schema)

/-! ## Records of documents -/

@[simp]
theorem nameOrNone?_ofOption (o : Option Name) :
    (ofOption Name.record o).nameOrNone? = some o := by
  cases o <;> rfl

theorem violatedList?_map {table : TypeTable} {parent : Text} {path : FieldPath}
    {items : List Selection} (h : ∀ s ∈ items,
      violatedSelection? table parent path s.record = some (s.violated table parent path)) :
    violatedList? table parent path (items.map Selection.record) =
      some (items.flatMap (Selection.violated table parent path)) := by
  induction items with
  | nil => rfl
  | cons s items ih =>
      obtain ⟨hs, hitems⟩ := List.forall_mem_cons.1 h
      rw [List.map_cons, violatedList?, hs, ih hitems]
      rfl

theorem key?_field {aliasName : Option Name} {name : Name} {parts : List Record} :
    (node .field (ofOption Name.record aliasName :: name.record :: parts)).key? =
      some (Selection.fieldKey aliasName name) := by
  cases aliasName <;> rfl

theorem leafItem?_record (returns : Text) (s : Selection) :
    leafItem? returns s.record = some (s.leafItem returns) := by
  cases s with
  | field aliasName name arguments directives set => rfl
  | spread ellipsis name directives => rfl
  | inline ellipsis condition directives set => cases condition <;> rfl

theorem leafMisuses?_eq_some (field returns : Text) (set : Option SelectionSet) :
    leafMisuses? field returns (ofOption (ofBracketed .selectionSet Selection.record) set) =
      some (leafMisuses field returns (itemsOf set)) := by
  have hselected : ∀ s : Selection, (s.leafItem returns).getLeft? = s.selectedName? := by
    intro s
    rcases s with _ | _ | ⟨_, _ | _, _, _⟩ <;> rfl
  have hconditions : ∀ s : Selection, (s.leafItem returns).getRight? = s.conditionName? returns := by
    intro s
    rcases s with _ | _ | ⟨_, _ | _, _, _⟩ <;> rfl
  rw [leafMisuses?, elements?_ofOption]
  simp only [Option.bind_eq_bind, Option.bind_some,
    mapM_map_eq_some fun s (_ : s ∈ itemsOf set) => leafItem?_record returns s,
    List.filterMap_map, Function.comp_def, hselected, hconditions]
  rfl

theorem violatedSet?_ofBracketed {table : TypeTable} {parent : Text} {path : FieldPath}
    {set : SelectionSet} (h : ∀ s ∈ set.items,
      violatedSelection? table parent path s.record = some (s.violated table parent path)) :
    violatedSet? table parent path (ofBracketed .selectionSet Selection.record set) =
      some (violatedSet table parent path set) := by
  rw [violatedSet_eq_flatMap]
  exact violatedList?_map h

/-- The walk through the record of a selection takes the same way as the walk through the
selection. -/
theorem violatedSelection?_record (table : TypeTable) (s : Selection) (parent : Text)
    (path : FieldPath) :
    violatedSelection? table parent path s.record = some (s.violated table parent path) := by
  induction s using Selection.induction generalizing parent path with
  | field aliasName name arguments directives set ih =>
      rw [Selection.record, Selection.setRecord?_eq]
      change violatedSelection? table parent path
        (.node .selection [.node .field [_, _, _, _, _], _, _]) = _
      rw [violatedSelection?, key?_field, name?_record]
      simp only [Option.bind_eq_bind, Option.bind_some]
      cases hreturns : table.fieldTypeName? parent name.value with
      | none => cases set <;> simp [Selection.violated, hreturns]
      | some returns =>
          rw [Selection.violated_field hreturns]
          simp only
          cases table.classOf (.named returns false) with
          | composite =>
              simp only [elements?_ofOption, Option.bind_some]
              cases set with
              | none => rfl
              | some set =>
                  have hset := violatedSet?_ofBracketed fun s hs =>
                    ih s hs returns (path.push (Selection.fieldKey aliasName name).value)
                  rw [violatedSet_eq_flatMap] at hset
                  cases hitems : set.items with
                  | nil => simp [itemsOf, hitems]
                  | cons first rest =>
                      rw [hitems] at hset
                      simpa [itemsOf, hitems, ofOption] using hset
          | leaf => simp [leafMisuses?_eq_some]
          | unresolved => rfl
  | spread ellipsis name directives => rfl
  | inline ellipsis condition directives set ih =>
      rw [Selection.record, Selection.setRecord_eq]
      cases condition with
      | none =>
          rw [Selection.violated]
          exact violatedSet?_ofBracketed fun s hs => ih s hs parent path
      | some condition =>
          have hset := violatedSet?_ofBracketed fun s hs => ih s hs condition.name.value path
          change violatedSelection? table parent path (.node .selection
            [.nothing, .nothing, .node .inline [_, .node .typeCondition [_, _], _, _]]) = _
          rw [violatedSelection?, name?_record, Selection.violated, TypeTable.conditionType?]
          simp only [Option.bind_eq_bind, Option.bind_some]
          cases table.classOf (.named condition.name.value false) with
          | composite => exact hset
          | leaf => rfl
          | unresolved => rfl

theorem violatedSet?_setRecord (table : TypeTable) (parent : Text) (path : FieldPath)
    (set : SelectionSet) :
    violatedSet? table parent path (Selection.setRecord set) =
      some (violatedSet table parent path set) := by
  rw [Selection.setRecord_eq]
  exact violatedSet?_ofBracketed fun s _ => violatedSelection?_record table s parent path

theorem violatedDefinition?_record (schema : Schema) (d : Definition) :
    violatedDefinition? schema d.record = some (d.violated schema) := by
  cases d with
  | operation o =>
      change violatedDefinition? schema (.node .definition
        (.node .operation [_, _, _, _, _, _] :: _)) = _
      rw [violatedDefinition?, nameOrNone?_ofOption, Definition.violated, Operation.violated]
      simp only [Option.bind_eq_bind, Option.bind_some]
      cases schema.root? o.type with
      | none => rfl
      | some root =>
          have hset := violatedSet?_setRecord schema.types root (FieldPath.root.push o.segment)
            o.selections
          have helements : (Selection.setRecord o.selections).elements? =
              some (o.selections.items.map Selection.record) := by
            rw [Selection.setRecord_eq, elements?_ofBracketed]
          simp only [helements, Option.bind_some]
          cases o.selections.items with
          | nil => rfl
          | cons first rest => exact hset
  | fragment f =>
      change violatedDefinition? schema (.node .definition (.nothing ::
        .node .fragment [_, _, .node .typeCondition [_, _], _, _] :: _)) = _
      rw [violatedDefinition?, name?_record, name?_record, Definition.violated, Fragment.violated]
      simp only [Option.bind_eq_bind, Option.bind_some]
      cases schema.types.classOf (.named f.condition.name.value false) with
      | composite => exact violatedSet?_setRecord _ _ _ _
      | leaf => rfl
      | unresolved => rfl
  | type d => rfl
  | schema d => rfl

theorem start?_definition (d : Definition) : d.record.start? = some d.start := by
  cases d with
  | operation o => rfl
  | fragment f => rfl
  | type d =>
      obtain ⟨description, keyword, name, body⟩ := d
      cases body <;> cases description <;> rfl
  | schema d => rfl

theorem notExecutableDefinition?_record (source : Text) (d : Definition) :
    notExecutableDefinition? source d.record = some (Query.notExecutable? source d).toList := by
  cases d with
  | operation o => rfl
  | fragment f => rfl
  | type t =>
      have hstart : (node .definition [.nothing, .nothing, t.record, .nothing]).start? =
        some t.keyword := start?_definition (.type t)
      change notExecutableDefinition? source
        (.node .definition [.nothing, .nothing, t.record, .nothing]) = _
      rw [notExecutableDefinition?, hstart]
      rfl
  | schema d => rfl

theorem operationName?_record (d : Definition) :
    operationName? d.record = some (match d with
      | .operation o => [(o.name.map Name.value).getD []]
      | _ => []) := by
  cases d with
  | operation o =>
      obtain ⟨start, type, name, parameters, directives, selections⟩ := o
      cases name <;> rfl
  | fragment f => rfl
  | type d => rfl
  | schema d => rfl

theorem notExecutable?_record (source : Text) (d : Document) :
    d.record.notExecutable? source =
      some (d.definitions.filterMap (Query.notExecutable? source)) := by
  rw [notExecutable?, List.filterMap_eq_flatMap_toList]
  exact readDefinitions_record fun definition _ => notExecutableDefinition?_record source definition

theorem operationNames?_record (source : Text) (d : Document) :
    d.record.operationNames? = some (Query.operationNames ⟨source, d⟩) := by
  rw [operationNames?, Query.operationNames, List.filterMap_eq_flatMap_toList]
  refine readDefinitions_record fun definition _ => ?_
  rw [operationName?_record]
  cases definition <;> rfl

theorem violated?_record (schema : Schema) (d : Document) :
    d.record.violated? schema = some (d.violated schema) :=
  readDefinitions_record fun definition _ => violatedDefinition?_record schema definition

end Record

/-! ## Sources without errors -/

/-- All nodes in the record of a document are sound, and readers that do not look get from the
record what they would get from the document. -/
structure Document.Readable (d : Document) (source : Text) : Prop where
  sound : d.record.AllSound
  notExecutable : d.record.notExecutable? source =
    some (d.definitions.filterMap (Query.notExecutable? source))
  operationNames : d.record.operationNames? = some (Query.operationNames ⟨source, d⟩)
  resolve : ∀ r ∈ d.record.nodes, r.isA .typeRef = true →
    ∃ t : TypeRef, t.record = r ∧ ∀ kinds : KindTable, r.resolve? kinds = some (kinds.resolve? t)
  table : d.record.table? = some d.table
  violated : ∀ schema : Schema, d.record.violated? schema = some (d.violated schema)

/-- A document without holes can be read without looking. -/
theorem Document.readable_of_holeFree {d : Document} (h : HoleFree d.pieces) (source : Text) :
    d.Readable source where
  sound := (Document.clear h).sound
  notExecutable := Record.notExecutable?_record source d
  operationNames := Record.operationNames?_record source d
  resolve r hr hisA := by
    obtain ⟨t, rfl, hread⟩ := ((Document.clear h).sound r hr).typeRef hisA
    exact ⟨t, rfl, fun kinds => Record.resolve?_record kinds hread⟩
  table := Record.table?_record h
  violated schema := Record.violated?_record schema d

/-- A source without errors gives a document that can be read without looking. -/
theorem readable_of_errors_eq_nil {source : Text} (h : (parse source).errors = []) :
    ∃ d, (parse source).document = some d ∧ d.Readable source := by
  obtain ⟨d, hparse⟩ := exists_of_errors_eq_nil h
  have hholeFree := (spells_of_parse hparse).holeFree
  exact ⟨d, by rw [hparse], Document.readable_of_holeFree hholeFree source⟩

def formsSource : Text :=
  "schema \x7b query: Q \x7d type Q implements I \x7b f(x: [Int!]! = [1, \x7bk: null\x7d]): E \x7d
enum E \x7b A \x7d query \x7b q: f(x: [$v]) ... on Q @d \x7b f \x7d ...F \x7d"

theorem readable_formsSource :
    (parse formsSource).errors = [] ∧
      ∃ d, (parse formsSource).document = some d ∧ d.Readable formsSource := by
  have h : (parse formsSource).errors = [] := by
    rw [formsSource, Text.ofString_ofList]
    decide +kernel
  exact ⟨h, readable_of_errors_eq_nil h⟩

-- Where an argument has no value, the document has an argument that is not whole.
example : ((parse "\x7b f(x: ) \x7d").document.map fun d => d.record.nodes.all Record.isWhole) =
    some false := by
  decide +kernel

end SelectionCheck
