import Mathlib.Data.List.Forall2
import SelectionCheck.Document.Record

/-!
# Whole records

`RecordKind.parts` says what the language demands of the parts of a record. A node is whole if it
has them all: where it may take several forms it takes exactly one, what is required is there and
of the right kind, no list has an element that is nothing, and no offset is lacking.

A reader of records asks a node where it starts and stops and what it is called, and follows the
parts of the node without looking whether they are there. A node is sound if it is whole and all
such questions have an answer. The lemmas here say how a sound node is put together from its
parts.
-/

namespace SelectionCheck

variable {α : Type}

/-! ## What a record must have -/

/-- What a part of a record must be. Of the alternatives of a node one must be there. -/
inductive RecordPart
  | offset
  | text
  | operationType
  | scalarKind
  | required (kind : RecordKind)
  | optional (kind : RecordKind)
  | alternative (kind : RecordKind)
  | list (kind : RecordKind)
deriving DecidableEq, Repr

def RecordKind.parts : RecordKind → List RecordPart
  | .document => [.list .definition]
  | .definition =>
    [.alternative .operation, .alternative .fragment, .alternative .typeDefinition,
      .alternative .schemaDefinition]
  | .operation =>
    [.offset, .operationType, .optional .name, .optional .variableDefinitions, .list .directive,
      .required .selectionSet]
  | .fragment =>
    [.offset, .required .name, .required .typeCondition, .list .directive,
      .required .selectionSet]
  | .typeCondition => [.offset, .required .name]
  | .selectionSet => [.offset, .list .selection, .offset]
  | .selection => [.alternative .field, .alternative .spread, .alternative .inline]
  | .field =>
    [.optional .name, .required .name, .optional .arguments, .list .directive,
      .optional .selectionSet]
  | .spread => [.offset, .required .name, .list .directive]
  | .inline =>
    [.offset, .optional .typeCondition, .list .directive, .required .selectionSet]
  | .arguments => [.offset, .list .argument, .offset]
  | .argument => [.required .name, .offset, .required .value]
  | .directive => [.offset, .required .name, .optional .arguments]
  | .value =>
    [.alternative .name, .alternative .scalarValue, .alternative .var, .alternative .listValue,
      .alternative .objectValue]
  | .scalarValue => [.offset, .scalarKind, .text]
  | .listValue => [.offset, .list .value, .offset]
  | .objectValue => [.offset, .list .objectField, .offset]
  | .objectField => [.required .name, .offset, .required .value]
  | .var => [.offset, .required .name]
  | .defaultValue => [.offset, .required .value]
  | .variableDefinitions => [.offset, .list .variableDefinition, .offset]
  | .variableDefinition =>
    [.required .var, .offset, .required .typeRef, .optional .defaultValue]
  | .name => [.text, .offset]
  | .typeRef => [.alternative .name, .alternative .listType, .alternative .nonNullType]
  | .listType => [.offset, .required .typeRef, .offset]
  | .nonNullType => [.alternative .name, .alternative .listType, .offset]
  | .description => [.offset, .text]
  | .schemaDefinition => [.offset, .offset, .list .rootDefinition, .offset]
  | .rootDefinition => [.operationType, .offset, .offset, .required .name]
  | .typeDefinition =>
    [.alternative .scalarType, .alternative .objectType, .alternative .interfaceType,
      .alternative .unionType, .alternative .enumType, .alternative .inputType]
  | .scalarType => [.optional .description, .offset, .required .name]
  | .objectType =>
    [.optional .description, .offset, .required .name, .list .name, .required .fieldDefinitions]
  | .interfaceType =>
    [.optional .description, .offset, .required .name, .required .fieldDefinitions]
  | .unionType => [.optional .description, .offset, .required .name, .offset, .list .name]
  | .enumType =>
    [.optional .description, .offset, .required .name, .required .enumValueDefinitions]
  | .inputType =>
    [.optional .description, .offset, .required .name, .required .inputFieldDefinitions]
  | .fieldDefinitions => [.offset, .list .fieldDefinition, .offset]
  | .fieldDefinition =>
    [.optional .description, .required .name, .optional .argumentDefinitions, .offset,
      .required .typeRef, .list .directive]
  | .argumentDefinitions => [.offset, .list .inputValueDefinition, .offset]
  | .enumValueDefinitions => [.offset, .list .enumValueDefinition, .offset]
  | .enumValueDefinition => [.optional .description, .required .name, .list .directive]
  | .inputFieldDefinitions => [.offset, .list .inputValueDefinition, .offset]
  | .inputValueDefinition =>
    [.optional .description, .required .name, .offset, .required .typeRef,
      .optional .defaultValue]

def Record.isA (kind : RecordKind) : Record → Bool
  | .node k _ => k = kind
  | _ => false

def Record.isNothing : Record → Bool
  | .nothing => true
  | _ => false

namespace RecordPart

def admits : RecordPart → Record → Bool
  | .offset, .offset start => start.isSome
  | .text, .text _ => true
  | .operationType, .operationType _ => true
  | .scalarKind, .scalarKind _ => true
  | .required kind, r => r.isA kind
  | .optional kind, r => r.isNothing || r.isA kind
  | .alternative kind, r => r.isNothing || r.isA kind
  | .list kind, .list elements => elements.all (Record.isA kind)
  | _, _ => false

/-- Whether the part is an alternative and the record is there for it. -/
def isTaken : RecordPart → Record → Bool
  | .alternative _, r => !r.isNothing
  | _, _ => false

def isAlternative : RecordPart → Bool
  | .alternative _ => true
  | _ => false

def admitAll : List RecordPart → List Record → Bool
  | [], [] => true
  | p :: ps, r :: rs => p.admits r && admitAll ps rs
  | _, _ => false

def taken : List RecordPart → List Record → Nat
  | p :: ps, r :: rs => (if p.isTaken r then 1 else 0) + taken ps rs
  | _, _ => 0

end RecordPart

/-- Whether a node has the parts that its kind demands, and takes exactly one of its forms if it
has several. -/
def Record.isWhole : Record → Bool
  | .node kind parts =>
    RecordPart.admitAll kind.parts parts &&
      (!kind.parts.any RecordPart.isAlternative || RecordPart.taken kind.parts parts = 1)
  | _ => false

/-! ## The nodes of a record -/

mutual

def Record.nodes : Record → List Record
  | .node kind parts => .node kind parts :: Record.listNodes parts
  | .list elements => Record.listNodes elements
  | .offset _ | .text _ | .operationType _ | .scalarKind _ | .nothing => []

def Record.listNodes : List Record → List Record
  | [] => []
  | r :: rs => r.nodes ++ Record.listNodes rs

end

/-! ## What a node is asked

A node is asked for its parts without looking whether they are there. The answer is `none` if a
part that is followed is nothing, or if a node takes none of its forms. -/

namespace Record

/-- The form that a node takes: the first of its parts that is there. -/
def form? : List Record → Option Record
  | [] => none
  | .nothing :: rs => form? rs
  | r :: _ => some r

def firstOffset? : List Record → Option Nat
  | [] => none
  | .offset start :: _ => start
  | _ :: rs => firstOffset? rs

def ownStart? : Record → Option Nat
  | .node _ parts => firstOffset? parts
  | _ => none

def name? : Record → Option Name
  | .node .name [.text value, .offset (some start)] => some ⟨value, start⟩
  | _ => none

/-- The name under which a field is answered: the first name that is there. -/
def key? : Record → Option Name
  | .node .field (aliasName :: name :: _) => (form? [aliasName, name]).bind name?
  | _ => none

def typeName? : Record → Option Name
  | .node .typeDefinition forms =>
    match form? forms with
    | some (.node _ (_ :: _ :: name :: _)) => name.name?
    | _ => none
  | _ => none

/-- The offset of the first token of a type definition, behind its description. -/
def typeStart? : Record → Option Nat
  | .node .typeDefinition forms => (form? forms).bind ownStart?
  | _ => none

def start? : Record → Option Nat
  | .node .definition forms =>
    (form? forms).bind fun r => if r.isA .typeDefinition then r.typeStart? else r.ownStart?
  | .node .typeDefinition forms => (node .typeDefinition forms).typeStart?
  | .node .selection forms =>
    (form? forms).bind fun r =>
      if r.isA .field then r.key?.map Name.start else r.ownStart?
  | .node .field parts => (node .field parts).key?.map Name.start
  | .node .value forms => (form? forms).bind ownStart?
  | .node .typeRef forms =>
    match form? forms with
    | some (.node .nonNullType [named, listed, _]) => (form? [named, listed]).bind ownStart?
    | form => form.bind ownStart?
  | _ => none

def bracketStop? : Record → Option Nat
  | .node _ [_, _, .offset (some closing)] => some (closing + 1)
  | _ => none

/-- The offset after a name, or after a field: behind its selections, else behind its arguments,
else behind its name. -/
def stop? : Record → Option Nat
  | .node .field [_, name, arguments, _, selections] =>
    match selections, arguments with
    | .nothing, .nothing => name.name?.map Name.stop
    | .nothing, arguments => arguments.bracketStop?
    | selections, _ => selections.bracketStop?
  | r => r.name?.map Name.stop

end Record

def RecordKind.starts : RecordKind → Bool
  | .definition | .typeDefinition | .selection | .field | .value | .typeRef => true
  | _ => false

def RecordKind.stops : RecordKind → Bool
  | .name | .field => true
  | _ => false

/-! ## Nodes that may be used -/

def TypeRef.isRead : TypeRef → Bool
  | .named _ _ => true
  | .list _ element _ _ => element.isRead
  | .missing => false

/-- A node is whole and answers all that it is asked. -/
structure Record.Sound (r : Record) : Prop where
  whole : r.isWhole = true
  start : ∀ kind, kind.starts = true → r.isA kind = true → r.start?.isSome = true
  stop : ∀ kind, kind.stops = true → r.isA kind = true → r.stop?.isSome = true
  key : r.isA .field = true → r.key?.isSome = true
  typeName : r.isA .typeDefinition = true → r.typeName?.isSome = true
  typeRef : r.isA .typeRef = true → ∃ t : TypeRef, t.record = r ∧ t.isRead = true

def Record.AllSound (r : Record) : Prop :=
  ∀ s ∈ r.nodes, s.Sound

/-- A node of the given kind, with only sound nodes in it. -/
structure Record.Clear (kind : RecordKind) (r : Record) : Prop where
  isA : r.isA kind = true
  sound : r.AllSound

section

variable {kind : RecordKind} {parts : List Record}

theorem Record.listNodes_eq_flatMap (rs : List Record) :
    Record.listNodes rs = rs.flatMap Record.nodes := by
  induction rs with
  | nil => rfl
  | cons r rs ih => rw [Record.listNodes, ih, List.flatMap_cons]

/-- Kinds that are asked for nothing and have only one form. -/
def RecordKind.isPlain (kind : RecordKind) : Bool :=
  !kind.starts && !kind.stops && !kind.parts.any RecordPart.isAlternative

namespace Record

theorem Sound.of_node (hwhole : (node kind parts).isWhole = true)
    (hstart : kind.starts = true → (node kind parts).start?.isSome = true)
    (hstop : kind.stops = true → (node kind parts).stop?.isSome = true)
    (hkey : kind = .field → (node kind parts).key?.isSome = true)
    (htypeName : kind = .typeDefinition → (node kind parts).typeName?.isSome = true)
    (htypeRef : kind = .typeRef → ∃ t : TypeRef, t.record = node kind parts ∧ t.isRead = true) :
    (node kind parts).Sound where
  whole := hwhole
  start _ hk hisA := hstart (of_decide_eq_true hisA ▸ hk)
  stop _ hk hisA := hstop (of_decide_eq_true hisA ▸ hk)
  key hisA := hkey (of_decide_eq_true hisA)
  typeName hisA := htypeName (of_decide_eq_true hisA)
  typeRef hisA := htypeRef (of_decide_eq_true hisA)

theorem forall_mem_nodes_list {P : Record → Prop} {elements : List Record} :
    (∀ s ∈ (list elements).nodes, P s) ↔ ∀ r ∈ elements, ∀ s ∈ r.nodes, P s := by
  simp only [nodes, listNodes_eq_flatMap, List.mem_flatMap]
  constructor
  · intro h r hr s hs
    exact h s ⟨r, hr, hs⟩
  · rintro h s ⟨r, hr, hs⟩
    exact h r hr s hs

theorem forall_mem_nodes_node {P : Record → Prop} :
    (∀ s ∈ (node kind parts).nodes, P s) ↔
      P (node kind parts) ∧ ∀ r ∈ parts, ∀ s ∈ r.nodes, P s := by
  rw [nodes, List.forall_mem_cons]
  exact and_congr_right fun _ => forall_mem_nodes_list

theorem allSound_node :
    (node kind parts).AllSound ↔ (node kind parts).Sound ∧ ∀ r ∈ parts, r.AllSound :=
  forall_mem_nodes_node

theorem exists_of_isA {r : Record} (h : r.isA kind = true) : ∃ parts, r = node kind parts := by
  cases r with
  | node k parts => exact ⟨parts, by rw [of_decide_eq_true h]⟩
  | _ => cases h

theorem Clear.self {r : Record} (h : r.Clear kind) : r.Sound := by
  obtain ⟨parts, rfl⟩ := exists_of_isA h.isA
  exact (allSound_node.1 h.sound).1

@[simp]
theorem allSound_list {elements : List Record} :
    (list elements).AllSound ↔ ∀ r ∈ elements, r.AllSound :=
  forall_mem_nodes_list

@[simp]
theorem allSound_nothing : nothing.AllSound := nofun

@[simp]
theorem allSound_offset {start : Option Nat} : (offset start).AllSound := nofun

@[simp]
theorem allSound_text {value : Text} : (text value).AllSound := nofun

@[simp]
theorem allSound_operationType {type : OperationType} : (operationType type).AllSound := nofun

@[simp]
theorem allSound_scalarKind {scalar : ScalarKind} : (scalarKind scalar).AllSound := nofun

/-! The parts of which nodes are made. -/

/-- A record stands for a part, with only sound nodes in it. -/
structure Filled (part : RecordPart) (r : Record) : Prop where
  admits : part.admits r = true
  sound : r.AllSound

theorem Filled.offset {start : Option Nat} (h : start.isSome = true) :
    Filled .offset (.offset start) :=
  ⟨h, allSound_offset⟩

theorem Filled.text (value : Text) : Filled .text (.text value) :=
  ⟨rfl, allSound_text⟩

theorem Filled.operationType (type : OperationType) :
    Filled .operationType (.operationType type) :=
  ⟨rfl, allSound_operationType⟩

theorem Filled.scalarKind (scalar : ScalarKind) : Filled .scalarKind (.scalarKind scalar) :=
  ⟨rfl, allSound_scalarKind⟩

theorem Clear.required {r : Record} (h : r.Clear kind) : Filled (.required kind) r :=
  ⟨h.isA, h.sound⟩

theorem Filled.optional {record : α → Record} {o : Option α}
    (h : ∀ a ∈ o, (record a).Clear kind) : Filled (.optional kind) (ofOption record o) := by
  cases o with
  | none => exact ⟨rfl, allSound_nothing⟩
  | some a => exact ⟨by simp [RecordPart.admits, ofOption, (h a rfl).isA], (h a rfl).sound⟩

theorem Filled.list {record : α → Record} {items : List α}
    (h : ∀ a ∈ items, (record a).Clear kind) : Filled (.list kind) (.list (items.map record)) := by
  constructor
  · simp only [RecordPart.admits, List.all_map, List.all_eq_true]
    exact fun a ha => (h a ha).isA
  · rw [allSound_list]
    intro r hr
    obtain ⟨a, ha, rfl⟩ := List.mem_map.1 hr
    exact (h a ha).sound

theorem admitAll_of_filled {ps : List RecordPart} (h : List.Forall₂ Filled ps parts) :
    RecordPart.admitAll ps parts = true := by
  induction h with
  | nil => rfl
  | cons hr _ ih => simp [RecordPart.admitAll, hr.admits, ih]

theorem allSound_of_filled {ps : List RecordPart} (h : List.Forall₂ Filled ps parts) :
    ∀ r ∈ parts, r.AllSound := by
  induction h with
  | nil => nofun
  | cons hr _ ih => exact List.forall_mem_cons.2 ⟨hr.sound, ih⟩

theorem isWhole_of_filled (hforms : kind.parts.any RecordPart.isAlternative = false)
    (hparts : List.Forall₂ Filled kind.parts parts) : (node kind parts).isWhole = true := by
  simp [isWhole, admitAll_of_filled hparts, hforms]

theorem Clear.of_isPlain (hkind : kind.isPlain = true)
    (hparts : List.Forall₂ Filled kind.parts parts) : (node kind parts).Clear kind := by
  simp only [RecordKind.isPlain, Bool.and_eq_true, Bool.not_eq_true'] at hkind
  obtain ⟨⟨hstarts, hstops⟩, hforms⟩ := hkind
  refine ⟨decide_eq_true rfl, allSound_node.2 ⟨?_, allSound_of_filled hparts⟩⟩
  refine .of_node (isWhole_of_filled hforms hparts) ?_ ?_ ?_ ?_ ?_
  · intro h
    rw [hstarts] at h
    cases h
  · intro h
    rw [hstops] at h
    cases h
  all_goals
    rintro rfl
    cases hstarts

theorem Clear.ofBracketed {record : α → Record} {item : RecordKind} {b : Bracketed α}
    (hkind : kind.isPlain = true) (hparts : kind.parts = [.offset, .list item, .offset])
    (hclosing : b.closing.isSome = true) (hitems : ∀ a ∈ b.items, (record a).Clear item) :
    (ofBracketed kind record b).Clear kind := by
  refine .of_isPlain hkind ?_
  rw [hparts]
  exact .cons (.offset rfl) (.cons (.list hitems) (.cons (.offset hclosing) .nil))

/-! Nodes that take one of several forms. -/

theorem form?_replicate {form : RecordKind} {r : Record} (h : r.isA form = true)
    (before after : Nat) :
    form? (List.replicate before .nothing ++ r :: List.replicate after .nothing) = some r := by
  induction before with
  | zero => cases r <;> first | rfl | cases h
  | succ before ih => exact ih

theorem allSound_oneOf {before after : Nat} {r : Record}
    (hsound : (oneOf kind before r after).Sound) (hr : r.AllSound) :
    (oneOf kind before r after).AllSound := by
  refine allSound_node.2 ⟨hsound, fun s hs => ?_⟩
  rcases List.mem_append.1 hs with hs | hs
  · rw [List.eq_of_mem_replicate hs]
    exact allSound_nothing
  · rcases List.mem_cons.1 hs with rfl | hs
    · exact hr
    · rw [List.eq_of_mem_replicate hs]
      exact allSound_nothing

end Record

end

end SelectionCheck
