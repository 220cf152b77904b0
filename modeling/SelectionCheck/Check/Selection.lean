import SelectionCheck.Check.Path
import SelectionCheck.Finding
import SelectionCheck.Schema.Basic

/-!
# Checking selection sets

A field of an object, interface or union type must select something, and a field of a scalar or
enumeration must not. The check walks the selections of every operation and fragment definition
together with the type they are made on. A reference to a fragment is not followed: the fragment
is checked once, where it is defined, against its own type condition. A field or condition whose
type cannot be resolved is passed over with all that it contains.
-/

namespace SelectionCheck

inductive Misuse
  | emptyOperation (type : OperationType) (name : Option Name) (returns : Text)
  | noSelections (field returns : Text)
  | selections (field returns : Text) (selected : List Text)
  | inlineFragments (field returns : Text) (conditions : List Text)
deriving DecidableEq, Repr

namespace Misuse

def kind : Misuse → FindingKind
  | .emptyOperation _ _ _ | .noSelections _ _ => .missingSelections
  | .selections _ _ _ => .selectionsOnLeaf
  | .inlineFragments _ _ _ => .inlineFragmentsOnLeaf

def fieldSubject (name : Text) : Text :=
  "field '" ++ name ++ "'"

def missingMessage (subject returns : Text) : Text :=
  "Objects must have selections (" ++ subject ++ " returns " ++ returns ++ " but has no selections)"

def leafMessage (field returns what : Text) (items : List Text) : Text :=
  "Selections can't be made on scalars (" ++ fieldSubject field ++ " returns " ++ returns ++
    " but has " ++
    what ++ " [" ++ Text.join ", " items ++ "])"

def message : Misuse → Text
  | .emptyOperation type none returns =>
    missingMessage ("anonymous " ++ (type.keyword : Text)) returns
  | .emptyOperation _ (some name) returns => missingMessage (fieldSubject name.value) returns
  | .noSelections field returns => missingMessage (fieldSubject field) returns
  | .selections field returns selected => leafMessage field returns "selections" selected
  | .inlineFragments field returns conditions =>
    leafMessage field returns "inline fragments" conditions

end Misuse

structure Violated where
  misuse : Misuse
  offset : Nat
  path : List Text
deriving DecidableEq, Repr

def Violated.finding (source : Text) (v : Violated) : Finding :=
  ⟨v.misuse.message, [.ofPosition (.ofOffset source v.offset)], v.path, v.misuse.kind⟩

namespace Selection

/-- What a selection on a leaf type is called in messages: the name of a field or fragment. Inline
fragments are listed apart. -/
def selectedName? : Selection → Option Text
  | .field _ name _ _ _ => some name.value
  | .spread _ name _ => some name.value
  | .inline _ _ _ _ => none

def conditionName? (parent : Text) : Selection → Option Text
  | .inline _ (some condition) _ _ => some condition.name.value
  | .inline _ none _ _ => some parent
  | .field _ _ _ _ _ | .spread _ _ _ => none

end Selection

def leafMisuses (field returns : Text) (selections : List Selection) : List Misuse :=
  let selected := selections.filterMap Selection.selectedName?
  let conditions := selections.filterMap (Selection.conditionName? returns)
  (if selected.isEmpty then [] else [.selections field returns selected]) ++
    if conditions.isEmpty then [] else [.inlineFragments field returns conditions]

/-- The named type on which the selections of an inline fragment are made, unless its condition
names no composite type. -/
def TypeTable.conditionType? (table : TypeTable) (parent : Text)
    (condition : Option TypeCondition) :
    Option Text :=
  match condition with
  | none => some parent
  | some condition =>
    match table.classOf (.named condition.name.value false) with
    | .composite => some condition.name.value
    | .leaf | .unresolved => none

/-- The name of the type of a field of the named type `parent`, below all wrappers. -/
def TypeTable.fieldTypeName? (table : TypeTable) (parent field : Text) : Option Text :=
  (table.fieldType? (.named parent false) field).map TypeExpr.base

mutual

def Selection.violated (table : TypeTable) (parent : Text) (path : FieldPath) :
    Selection → List Violated
  | .field aliasName name _ _ none =>
    let key := Selection.fieldKey aliasName name
    match table.fieldTypeName? parent name.value with
    | none => []
    | some returns =>
      match table.classOf (.named returns false) with
      | .composite =>
        [⟨.noSelections name.value returns, key.start, (path.push key.value).toList⟩]
      | .leaf | .unresolved => []
  | .field aliasName name _ _ (some selections) =>
    let key := Selection.fieldKey aliasName name
    let path := path.push key.value
    match table.fieldTypeName? parent name.value with
    | none => []
    | some returns =>
      match table.classOf (.named returns false) with
      | .composite =>
        match selections.items with
        | [] => [⟨.noSelections name.value returns, key.start, path.toList⟩]
        | _ :: _ => violatedSet table returns path selections
      | .leaf =>
        (leafMisuses name.value returns selections.items).map (⟨·, key.start, path.toList⟩)
      | .unresolved => []
  | .spread _ _ _ => []
  | .inline _ condition _ selections =>
    match table.conditionType? parent condition with
    | some type => violatedSet table type path selections
    | none => []

def violatedSet (table : TypeTable) (parent : Text) (path : FieldPath) :
    SelectionSet → List Violated
  | ⟨_, selections, _⟩ => violatedList table parent path selections

def violatedList (table : TypeTable) (parent : Text) (path : FieldPath) :
    List Selection → List Violated
  | [] => []
  | selection :: selections =>
    selection.violated table parent path ++ violatedList table parent path selections

end

def Operation.segment (o : Operation) : Text :=
  match o.name with
  | some name => (o.type.keyword : Text) ++ " " ++ name.value
  | none => o.type.keyword

/-- The violations inside an operation. An operation that the schema does not support is passed
over. -/
def Operation.violated (schema : Schema) (o : Operation) : List Violated :=
  let path := FieldPath.root.push o.segment
  match schema.root? o.type with
  | none => []
  | some root =>
    match o.selections.items with
    | [] => [⟨.emptyOperation o.type o.name root, o.start, path.toList⟩]
    | _ :: _ => violatedSet schema.types root path o.selections

def Fragment.violated (schema : Schema) (f : Fragment) : List Violated :=
  match schema.types.classOf (.named f.condition.name.value false) with
  | .composite =>
    violatedSet schema.types f.condition.name.value
      (FieldPath.root.push ("fragment " ++ f.name.value))
      f.selections
  | .leaf | .unresolved => []

def Definition.violated (schema : Schema) : Definition → List Violated
  | .operation o => o.violated schema
  | .fragment f => f.violated schema
  | .type _ | .schema _ => []

def Document.violated (schema : Schema) (d : Document) : List Violated :=
  d.definitions.flatMap (Definition.violated schema)

end SelectionCheck
