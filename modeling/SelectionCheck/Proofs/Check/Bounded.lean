import SelectionCheck.Proofs.Check.Report
import SelectionCheck.Proofs.Document.Nesting.Reading
import SelectionCheck.Schema.Declaration

/-!
# Bounded recursion

The check of selections calls itself once for each selection set inside another, and the functions
on type references once for each list type. Each of them has a twin here that gives up when more
calls than allowed are inside each other. On a tree that is bounded the twin has the answer of the
function itself, and every document that was read is bounded, however long its source is.
-/

namespace SelectionCheck

variable {α β : Type} {n : Nesting}

/-! ## Parts of a bounded record -/

theorem Nesting.Holds.of_cons {kind : RecordKind} {way : List RecordKind}
    (h : n.Holds (kind :: way)) : n.Holds way := by
  have hsub := List.sublist_cons_self kind way
  exact ⟨Nat.le_trans (hsub.count_le _) h.selections, Nat.le_trans hsub.countP_le h.values,
    Nat.le_trans (hsub.count_le _) h.types⟩

namespace Record

theorem Within.of_part {kind : RecordKind} {parts : List Record} {r : Record}
    (h : (node kind parts).Within n) (hr : r ∈ parts) : r.Within n :=
  fun _ hway => (h _ (.part hr hway)).of_cons

mutual

theorem Within.of_mem_nodes {s : Record} : (r : Record) → r.Within n → s ∈ r.nodes → s.Within n
  | .node kind parts, h, hs => by
      rw [nodes, List.mem_cons] at hs
      rcases hs with rfl | hs
      · exact h
      · exact Within.of_mem_listNodes parts (fun _ => h.of_part) hs
  | .list elements, h, hs => Within.of_mem_listNodes elements (within_list.1 h) hs
  | .offset _, _, hs => by cases hs
  | .text _, _, hs => by cases hs
  | .operationType _, _, hs => by cases hs
  | .scalarKind _, _, hs => by cases hs
  | .nothing, _, hs => by cases hs

theorem Within.of_mem_listNodes {s : Record} : (rs : List Record) → (∀ r ∈ rs, r.Within n) →
    s ∈ listNodes rs → s.Within n
  | [], _, hs => by cases hs
  | r :: rs, h, hs => by
      obtain ⟨hr, hrs⟩ := List.forall_mem_cons.1 h
      rw [listNodes, List.mem_append] at hs
      rcases hs with hs | hs
      · exact Within.of_mem_nodes r hr hs
      · exact Within.of_mem_listNodes rs hrs hs

end

end Record

/-! ## Type references -/

namespace TypeRef

/-- A type reference as it is written, by at most `limit` calls inside each other. -/
def renderWithin : (limit : Nat) → TypeRef → Option Text
  | 0, _ => none
  | _ + 1, .named name bang => some (name.value ++ bangMark bang)
  | limit + 1, .list _ element _ bang =>
    (element.renderWithin limit).map fun text => "[" ++ text ++ "]" ++ bangMark bang
  | _ + 1, .missing => some "<nil>"

def resolveWithin (kinds : KindTable) : (limit : Nat) → TypeRef → Option (Option TypeExpr)
  | 0, _ => none
  | limit + 1, .list _ element _ bang =>
    (resolveWithin kinds limit element).map fun type => type.map (.list · bang.isSome)
  | _ + 1, t => some (kinds.resolve? t)

def lists : TypeRef → Nat
  | .list _ element _ _ => element.lists + 1
  | .named _ _ | .missing => 0

theorem renderWithin_of_lists_lt {t : TypeRef} {limit : Nat} (h : t.lists < limit) :
    t.renderWithin limit = some t.render := by
  induction limit generalizing t with
  | zero => cases h
  | succ limit ih =>
      cases t with
      | named | missing => rfl
      | list opening element closing bang =>
          rw [renderWithin, ih (Nat.lt_of_succ_lt_succ h), Option.map_some, render]

theorem resolveWithin_of_lists_lt (kinds : KindTable) {t : TypeRef} {limit : Nat}
    (h : t.lists < limit) : t.resolveWithin kinds limit = some (kinds.resolve? t) := by
  induction limit generalizing t with
  | zero => cases h
  | succ limit ih =>
      cases t with
      | named | missing => rfl
      | list opening element closing bang =>
          rw [resolveWithin, ih (Nat.lt_of_succ_lt_succ h), Option.map_some, KindTable.resolve?]

theorem lists_le_of_within {t : TypeRef} (h : t.record.Within n) : t.lists ≤ n.types := by
  induction t generalizing n with
  | named name bang => exact Nat.zero_le _
  | list opening element closing bang ih =>
      have hmem : Record.node .listType [.offset (some opening), element.record, .offset closing] ∈
          (TypeRef.list opening element closing bang).record.nodes := by
        cases bang <;> simp [record, Record.oneOf, Record.nodes, Record.listNodes]
      have hpos : 0 < n.types := (Record.Within.of_mem_nodes _ h hmem _ (.here _ _)).types
      obtain ⟨selections, values, types⟩ := n
      cases types with
      | zero => exact absurd hpos (Nat.lt_irrefl 0)
      | succ types => exact Nat.succ_le_succ (ih (@within_list ⟨_, _, types⟩ _ _ _ _ |>.1 h))
  | missing => exact Nat.zero_le _

end TypeRef

/-! ## Selection sets -/

/-- The violations inside a selection, when `inner` finds those inside a selection set. -/
def Selection.violatedBy (table : TypeTable)
    (inner : Text → FieldPath → SelectionSet → Option (List Violated)) (parent : Text)
    (path : FieldPath) : Selection → Option (List Violated)
  | .field aliasName name arguments directives none =>
    some ((Selection.field aliasName name arguments directives none).violated table parent path)
  | .field aliasName name _ _ (some selections) =>
    let key := Selection.fieldKey aliasName name
    let path := path.push key.value
    match table.fieldTypeName? parent name.value with
    | none => some []
    | some returns =>
      match table.classOf (.named returns false) with
      | .composite =>
        match selections.items with
        | [] => some [⟨.noSelections name.value returns, key.start, path.toList⟩]
        | _ :: _ => inner returns path selections
      | .leaf =>
        some ((leafMisuses name.value returns selections.items).map (⟨·, key.start, path.toList⟩))
      | .unresolved => some []
  | .spread _ _ _ => some []
  | .inline _ condition _ selections =>
    match table.conditionType? parent condition with
    | some type => inner type path selections
    | none => some []

def violatedSetWithin (table : TypeTable) : (limit : Nat) → (parent : Text) → FieldPath →
    SelectionSet → Option (List Violated)
  | 0, _, _, _ => none
  | limit + 1, parent, path, set =>
    (set.items.mapM (Selection.violatedBy table (violatedSetWithin table limit) parent path)).map
      List.flatten

def Definition.violatedWithin (limit : Nat) (schema : Schema) :
    Definition → Option (List Violated)
  | .operation o =>
    match schema.root? o.type with
    | none => some []
    | some root =>
      match o.selections.items with
      | [] => some (o.violated schema)
      | _ :: _ =>
        violatedSetWithin schema.types limit root (FieldPath.root.push o.segment) o.selections
  | .fragment f =>
    match schema.types.classOf (.named f.condition.name.value false) with
    | .composite =>
      violatedSetWithin schema.types limit f.condition.name.value
        (FieldPath.root.push ("fragment " ++ f.name.value)) f.selections
    | .leaf | .unresolved => some []
  | .type _ | .schema _ => some []

def Document.violatedWithin (limit : Nat) (schema : Schema) (d : Document) :
    Option (List Violated) :=
  (d.definitions.mapM (Definition.violatedWithin limit schema)).map List.flatten

theorem flatten_mapM_eq_some {f : α → Option (List β)} {g : α → List β} {items : List α}
    (h : ∀ a ∈ items, f a = some (g a)) :
    (items.mapM f).map List.flatten = some (items.flatMap g) := by
  have hmap : items.mapM f = some (items.map g) := by
    induction items with
    | nil => rfl
    | cons a items ih =>
        obtain ⟨ha, hitems⟩ := List.forall_mem_cons.1 h
        rw [List.mapM_cons, ha, ih hitems]
        rfl
  rw [hmap, Option.map_some, List.flatMap_def]

theorem Selection.violatedBy_eq_some {table : TypeTable} {parent : Text} {path : FieldPath}
    {inner : Text → FieldPath → SelectionSet → Option (List Violated)} {s : Selection}
    (hs : s.record.Within n)
    (hinner : ∀ set : SelectionSet, (Selection.setRecord set).Within n → ∀ parent path,
      inner parent path set = some (violatedSet table parent path set)) :
    s.violatedBy table inner parent path = some (s.violated table parent path) := by
  cases s with
  | field aliasName name arguments directives selections =>
      cases selections with
      | none => rfl
      | some selections =>
          have hset := hinner selections ((Selection.within_field.1 hs).2.2 _ rfl)
          cases htype : table.fieldTypeName? parent name.value with
          | none => simp only [violatedBy, violated, htype]
          | some returns =>
              cases hclass : table.classOf (.named returns false) with
              | composite =>
                  cases hitems : selections.items with
                  | nil => simp only [violatedBy, violated, htype, hclass, hitems]
                  | cons first rest =>
                      simp only [violatedBy, violated, htype, hclass, hitems, hset]
              | leaf => simp only [violatedBy, violated, htype, hclass]
              | unresolved => simp only [violatedBy, violated, htype, hclass]
  | spread ellipsis name directives => rfl
  | inline ellipsis condition directives selections =>
      have hset := hinner selections (Selection.within_inline.1 hs).2
      cases htype : table.conditionType? parent condition with
      | none => simp only [violatedBy, violated, htype]
      | some type => simp only [violatedBy, violated, htype, hset]

/-- A selection set is checked by as many calls inside each other as it has sets inside each
other. -/
theorem violatedSetWithin_eq_some (table : TypeTable) {set : SelectionSet}
    (h : (Selection.setRecord set).Within n) (parent : Text) (path : FieldPath) :
    violatedSetWithin table n.selections parent path set =
      some (violatedSet table parent path set) := by
  obtain ⟨limit, values, types⟩ := n
  induction limit generalizing set parent path with
  | zero =>
      obtain ⟨opening, items, closing⟩ := set
      have hpos : 0 < 0 := (h _ (.here _ _)).selections
      exact absurd hpos (Nat.lt_irrefl 0)
  | succ limit ih =>
      have hitems := (@SelectionSet.within_iff ⟨limit, values, types⟩ set).1 h
      rw [violatedSetWithin, violatedSet_eq_flatMap]
      exact flatten_mapM_eq_some fun s hs =>
        Selection.violatedBy_eq_some (hitems s hs) fun inner hinner parent path =>
          ih parent path hinner

theorem Definition.violatedWithin_eq_some (schema : Schema) {d : Definition}
    (h : d.record.Within n) :
    d.violatedWithin n.selections schema = some (d.violated schema) := by
  cases d with
  | operation o =>
      have hset := (Operation.within_iff.1 (Definition.within_operation.1 h)).2.2
      cases hroot : schema.root? o.type with
      | none => simp only [violatedWithin, violated, Operation.violated, hroot]
      | some root =>
          cases hitems : o.selections.items with
          | nil => simp only [violatedWithin, violated, hroot, hitems]
          | cons first rest =>
              have hwalk := violatedSetWithin_eq_some schema.types hset root
                (FieldPath.root.push o.segment)
              simp only [violatedWithin, violated, Operation.violated, hroot, hitems, hwalk]
  | fragment f =>
      have hset := (Fragment.within_iff.1 (Definition.within_fragment.1 h)).2
      have hwalk := violatedSetWithin_eq_some schema.types hset f.condition.name.value
        (FieldPath.root.push ("fragment " ++ f.name.value))
      cases hclass : schema.types.classOf (.named f.condition.name.value false) with
      | composite => simp only [violatedWithin, violated, Fragment.violated, hclass, hwalk]
      | leaf => simp only [violatedWithin, violated, Fragment.violated, hclass]
      | unresolved => simp only [violatedWithin, violated, Fragment.violated, hclass]
  | type d => rfl
  | schema d => rfl

theorem Document.violatedWithin_eq_some (schema : Schema) {d : Document}
    (h : d.record.Within n) :
    d.violatedWithin n.selections schema = some (d.violated schema) :=
  flatten_mapM_eq_some fun definition hmem =>
    Definition.violatedWithin_eq_some schema (Document.within_iff.1 h definition hmem)

/-! ## Documents that were read -/

/-- However long its source is and whatever errors it has, a document has no more than 25 selection
sets, 23 list or object values and 47 list types inside each other, so the functions that follow
them need no more calls inside each other. -/
theorem nesting_of_parse {source : Text} {d : Document} (h : (parse source).document = some d) :
    (∀ way, d.record.Way way → way.count .selectionSet ≤ 25 ∧
      way.countP RecordKind.isCompoundValue ≤ 23 ∧ way.count .listType ≤ 47) ∧
    (∀ schema : Schema, d.violatedWithin 25 schema = some (d.violated schema)) ∧
    ∀ t : TypeRef, t.record ∈ d.record.nodes → t.renderWithin 48 = some t.render ∧
      ∀ kinds : KindTable, t.resolveWithin kinds 48 = some (kinds.resolve? t) := by
  have hwithin := within_of_parse h
  refine ⟨fun way hway => Nesting.holds_iff.1 (hwithin way hway),
    fun schema => Document.violatedWithin_eq_some schema hwithin, fun t ht => ?_⟩
  have hlists : t.lists < 48 :=
    Nat.lt_succ_of_le (TypeRef.lists_le_of_within (Record.Within.of_mem_nodes _ hwithin ht))
  exact ⟨TypeRef.renderWithin_of_lists_lt hlists,
    fun kinds => TypeRef.resolveWithin_of_lists_lt kinds hlists⟩

/-- A type and a default value that are nested as deep as can be read without a fault, and
selection sets that are nested deeper. -/
def deepSource : Text :=
  "type T \x7b f: " ++ (List.replicate 46 ("[" : Text)).flatten ++ "T" ++
    (List.replicate 46 ("]" : Text)).flatten ++ " \x7d query ($v: T = " ++
    (List.replicate 22 ("[" : Text)).flatten ++ "1" ++
    (List.replicate 22 ("]" : Text)).flatten ++ ") " ++
    (List.replicate 27 ("\x7ba" : Text)).flatten

def nestedCounts (d : Document) : Nat × Nat × Nat :=
  (d.record.nodes.countP (·.isA .selectionSet), d.record.nodes.countP (·.isA .listValue),
    d.record.nodes.countP (·.isA .listType))

theorem nesting_deepSource : ∃ d, (parse deepSource).document = some d ∧
    nestedCounts d = (25, 22, 46) ∧
    (∀ way, d.record.Way way → way.count .selectionSet ≤ 25 ∧
      way.countP RecordKind.isCompoundValue ≤ 23 ∧ way.count .listType ≤ 47) ∧
    (∀ schema : Schema, d.violatedWithin 25 schema = some (d.violated schema)) ∧
    ∀ t : TypeRef, t.record ∈ d.record.nodes → t.renderWithin 48 = some t.render ∧
      ∀ kinds : KindTable, t.resolveWithin kinds 48 = some (kinds.resolve? t) := by
  have hcounts : (parse deepSource).document.map nestedCounts = some (25, 22, 46) := by
    decide +kernel
  obtain ⟨d, hd, hcount⟩ := Option.map_eq_some_iff.1 hcounts
  exact ⟨d, hd, hcount, nesting_of_parse hd⟩

end SelectionCheck
