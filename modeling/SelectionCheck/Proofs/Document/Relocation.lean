import SelectionCheck.Document.Parse
import SelectionCheck.Proofs.Document.Shape

/-!
# Moving to other offsets

`relocate f` puts `f offset` in place of every offset, in a tree, in a token or in an error, and
leaves everything else alone. A `Placed` type is one whose values have offsets in this sense; a
number that is relocated is itself an offset.

Two sources with the same tokens at other offsets are read in the same way, since no reader looks
at an offset: it only hands offsets on. `Equivariant g` says this of a function `g`: relocating what
it is given relocates what it gives. Erasing the offsets of a tree is relocating it to zero
(`Document.relocate_zero`).
-/

namespace SelectionCheck

/-- Values with offsets, which can be moved. -/
class Placed (α : Type) where
  relocate : (Nat → Nat) → α → α

open Placed (relocate)

variable {α β γ : Type} [Placed α] [Placed β] [Placed γ] (f : Nat → Nat)

/-- A function that only hands offsets on. -/
def Equivariant (g : α → β) : Prop :=
  ∀ (f : Nat → Nat) (a : α), g (relocate f a) = relocate f (g a)

/-! ## Offsets and collections -/

instance : Placed Nat := ⟨fun f offset => f offset⟩

instance : Placed (Option α) := ⟨fun f => Option.map (relocate f)⟩

instance : Placed (List α) := ⟨fun f => List.map (relocate f)⟩

instance : Placed (α × β) := ⟨fun f p => (relocate f p.1, relocate f p.2)⟩

instance : Placed (Except α β) :=
  ⟨fun f => fun
    | .error a => .error (relocate f a)
    | .ok b => .ok (relocate f b)⟩

instance : Placed (Bracketed α) :=
  ⟨fun f b => ⟨f b.opening, relocate f b.items, relocate f b.closing⟩⟩

@[simp]
theorem relocate_offset (offset : Nat) : relocate f offset = f offset := rfl

@[simp]
theorem relocate_none : relocate f (none : Option α) = none := rfl

@[simp]
theorem relocate_some (a : α) : relocate f (some a) = some (relocate f a) := rfl

@[simp]
theorem relocate_nil : relocate f ([] : List α) = [] := rfl

@[simp]
theorem relocate_cons (a : α) (as : List α) :
    relocate f (a :: as) = relocate f a :: relocate f as := rfl

@[simp]
theorem relocate_append (as bs : List α) :
    relocate f (as ++ bs) = relocate f as ++ relocate f bs :=
  List.map_append

@[simp]
theorem relocate_reverse (as : List α) : relocate f as.reverse = (relocate f as).reverse :=
  List.map_reverse

@[simp]
theorem relocate_head? (as : List α) : relocate f as.head? = (relocate f as).head? :=
  List.head?_map.symm

@[simp]
theorem relocate_toList (a : Option α) : relocate f a.toList = (relocate f a).toList := by
  cases a <;> rfl

@[simp]
theorem relocate_pair (a : α) (b : β) : relocate f (a, b) = (relocate f a, relocate f b) := rfl

@[simp]
theorem fst_relocate (p : α × β) : (relocate f p).1 = relocate f p.1 := rfl

@[simp]
theorem snd_relocate (p : α × β) : (relocate f p).2 = relocate f p.2 := rfl

@[simp]
theorem Bracketed.relocate_mk (opening : Nat) (items : List α) (closing : Option Nat) :
    relocate f (⟨opening, items, closing⟩ : Bracketed α) =
      ⟨f opening, relocate f items, relocate f closing⟩ := rfl

theorem Equivariant.map_list {g : α → β} (h : Equivariant g) (as : List α) :
    (relocate f as).map g = relocate f (as.map g) := by
  induction as with
  | nil => rfl
  | cons a as ih => rw [relocate_cons, List.map_cons, List.map_cons, relocate_cons, h, ih]

theorem relocate_flatMap {g : α → List β} {as : List α}
    (h : ∀ a ∈ as, g (relocate f a) = relocate f (g a)) :
    (relocate f as).flatMap g = relocate f (as.flatMap g) := by
  induction as with
  | nil => rfl
  | cons a as ih =>
      rw [relocate_cons, List.flatMap_cons, List.flatMap_cons, relocate_append,
        h a List.mem_cons_self, ih fun x hx => h x (List.mem_cons_of_mem a hx)]

section Invariant

variable {δ : Type}

/-- What does not depend on offsets is the same after they are moved. -/
theorem map_relocate {g g' : α → δ} (h : ∀ a, g' (relocate f a) = g a) (as : List α) :
    (relocate f as).map g' = as.map g := by
  induction as with
  | nil => rfl
  | cons a as ih => rw [relocate_cons, List.map_cons, List.map_cons, h, ih]

theorem filterMap_relocate {g g' : α → Option δ} (h : ∀ a, g' (relocate f a) = g a)
    (as : List α) : (relocate f as).filterMap g' = as.filterMap g := by
  induction as with
  | nil => rfl
  | cons a as ih => rw [relocate_cons, List.filterMap_cons, List.filterMap_cons, h, ih]

end Invariant

/-! ## Values, types and directives -/

instance : Placed Name := ⟨fun f n => ⟨n.value, f n.start⟩⟩

@[simp]
theorem Name.relocate_mk (value : Text) (start : Nat) :
    relocate f (⟨value, start⟩ : Name) = ⟨value, f start⟩ := rfl

@[simp]
theorem Name.value_relocate (n : Name) : (relocate f n).value = n.value := rfl

@[simp]
theorem Name.start_relocate (n : Name) : (relocate f n).start = f n.start := rfl

instance : Placed Variable := ⟨fun f v => ⟨f v.dollar, relocate f v.name⟩⟩

mutual

def Value.moved (f : Nat → Nat) : Value → Value
  | .null name => .null (relocate f name)
  | .scalar start kind raw => .scalar (f start) kind raw
  | .var reference => .var (relocate f reference)
  | .list ⟨opening, values, closing⟩ =>
    .list ⟨f opening, Value.movedList f values, relocate f closing⟩
  | .object ⟨opening, fields, closing⟩ =>
    .object ⟨f opening, Value.movedFields f fields, relocate f closing⟩
  | .tooDeep => .tooDeep
  | .missing => .missing

def Value.movedList (f : Nat → Nat) : List Value → List Value
  | [] => []
  | v :: values => v.moved f :: Value.movedList f values

def Value.movedFields (f : Nat → Nat) : List ObjectField → List ObjectField
  | [] => []
  | ⟨name, colon, value⟩ :: fields =>
    ⟨relocate f name, f colon, value.moved f⟩ :: Value.movedFields f fields

end

instance : Placed Value := ⟨Value.moved⟩

instance : Placed ObjectField :=
  ⟨fun f => fun | ⟨name, colon, value⟩ => ⟨relocate f name, f colon, relocate f value⟩⟩

theorem Value.movedList_eq (values : List Value) :
    Value.movedList f values = relocate f values := by
  induction values with
  | nil => rfl
  | cons v values ih =>
      rw [Value.movedList, ih]
      rfl

theorem Value.movedFields_eq (fields : List ObjectField) :
    Value.movedFields f fields = relocate f fields := by
  induction fields with
  | nil => rfl
  | cons field fields ih =>
      obtain ⟨name, colon, value⟩ := field
      rw [Value.movedFields, ih]
      rfl

theorem Value.relocate_list (values : Bracketed Value) :
    relocate f (Value.list values) = .list (relocate f values) := by
  obtain ⟨opening, items, closing⟩ := values
  rw [Bracketed.relocate_mk, ← Value.movedList_eq]
  rfl

theorem Value.relocate_object (fields : Bracketed ObjectField) :
    relocate f (Value.object fields) = .object (relocate f fields) := by
  obtain ⟨opening, items, closing⟩ := fields
  rw [Bracketed.relocate_mk, ← Value.movedFields_eq]
  rfl

instance : Placed DefaultValue := ⟨fun f d => ⟨f d.equals, relocate f d.value⟩⟩

instance : Placed Argument := ⟨fun f a => ⟨relocate f a.name, f a.colon, relocate f a.value⟩⟩

instance : Placed Directive :=
  ⟨fun f d => ⟨f d.sign, relocate f d.name, relocate f d.arguments⟩⟩

@[simp]
theorem Directive.relocate_mk (sign : Nat) (name : Name) (arguments : Option (Bracketed Argument)) :
    relocate f (⟨sign, name, arguments⟩ : Directive) =
      ⟨f sign, relocate f name, relocate f arguments⟩ := rfl

def TypeRef.moved (f : Nat → Nat) : TypeRef → TypeRef
  | .named name bang => .named (relocate f name) (relocate f bang)
  | .list opening element closing bang =>
    .list (f opening) (element.moved f) (relocate f closing) (relocate f bang)
  | .missing => .missing

instance : Placed TypeRef := ⟨TypeRef.moved⟩

@[simp]
theorem TypeRef.relocate_missing : relocate f TypeRef.missing = .missing := rfl

@[simp]
theorem TypeRef.relocate_list (opening : Nat) (element : TypeRef) (closing bang : Option Nat) :
    relocate f (TypeRef.list opening element closing bang) =
      .list (f opening) (relocate f element) (relocate f closing) (relocate f bang) := rfl

instance : Placed TypeCondition := ⟨fun f c => ⟨f c.keyword, relocate f c.name⟩⟩

/-! ## Operations and fragments -/

mutual

def Selection.moved (f : Nat → Nat) : Selection → Selection
  | .field aliasName name arguments directives none =>
    .field (relocate f aliasName) (relocate f name) (relocate f arguments)
      (relocate f directives) none
  | .field aliasName name arguments directives (some ⟨opening, selections, closing⟩) =>
    .field (relocate f aliasName) (relocate f name) (relocate f arguments)
      (relocate f directives)
      (some ⟨f opening, Selection.movedList f selections, relocate f closing⟩)
  | .spread ellipsis name directives =>
    .spread (f ellipsis) (relocate f name) (relocate f directives)
  | .inline ellipsis condition directives ⟨opening, selections, closing⟩ =>
    .inline (f ellipsis) (relocate f condition) (relocate f directives)
      ⟨f opening, Selection.movedList f selections, relocate f closing⟩

def Selection.movedList (f : Nat → Nat) : List Selection → List Selection
  | [] => []
  | s :: selections => s.moved f :: Selection.movedList f selections

end

instance : Placed Selection := ⟨Selection.moved⟩

theorem Selection.movedList_eq (selections : List Selection) :
    Selection.movedList f selections = relocate f selections := by
  induction selections with
  | nil => rfl
  | cons s selections ih =>
      rw [Selection.movedList, ih]
      rfl

@[simp]
theorem Selection.relocate_field (aliasName : Option Name) (name : Name)
    (arguments : Option (Bracketed Argument)) (directives : List Directive)
    (selections : Option SelectionSet) :
    relocate f (Selection.field aliasName name arguments directives selections) =
      .field (relocate f aliasName) (relocate f name) (relocate f arguments)
        (relocate f directives) (relocate f selections) := by
  match selections with
  | none => rfl
  | some ⟨opening, items, closing⟩ =>
      rw [relocate_some, Bracketed.relocate_mk, ← Selection.movedList_eq]
      rfl

@[simp]
theorem Selection.relocate_inline (ellipsis : Nat) (condition : Option TypeCondition)
    (directives : List Directive) (selections : SelectionSet) :
    relocate f (Selection.inline ellipsis condition directives selections) =
      .inline (f ellipsis) (relocate f condition) (relocate f directives)
        (relocate f selections) := by
  obtain ⟨opening, items, closing⟩ := selections
  rw [Bracketed.relocate_mk, ← Selection.movedList_eq]
  rfl

instance : Placed VariableDefinition :=
  ⟨fun f d =>
    ⟨relocate f d.var, relocate f d.colon, relocate f d.type, relocate f d.defaultValue⟩⟩

instance : Placed Operation :=
  ⟨fun f o => ⟨f o.start, o.type, relocate f o.name, relocate f o.parameters,
    relocate f o.directives, relocate f o.selections⟩⟩

@[simp]
theorem Operation.relocate_mk (start : Nat) (type : OperationType) (name : Option Name)
    (parameters : Option (Bracketed VariableDefinition)) (directives : List Directive)
    (selections : SelectionSet) :
    relocate f (⟨start, type, name, parameters, directives, selections⟩ : Operation) =
      ⟨f start, type, relocate f name, relocate f parameters, relocate f directives,
        relocate f selections⟩ := rfl

instance : Placed Fragment :=
  ⟨fun f d => ⟨f d.keyword, relocate f d.name, relocate f d.condition, relocate f d.directives,
    relocate f d.selections⟩⟩

@[simp]
theorem Fragment.relocate_mk (keyword : Nat) (name : Name) (condition : TypeCondition)
    (directives : List Directive) (selections : SelectionSet) :
    relocate f (⟨keyword, name, condition, directives, selections⟩ : Fragment) =
      ⟨f keyword, relocate f name, relocate f condition, relocate f directives,
        relocate f selections⟩ := rfl

/-! ## Type definitions -/

instance : Placed Description := ⟨fun f d => ⟨f d.start, d.raw⟩⟩

instance : Placed Slot :=
  ⟨fun f => fun
    | .unread => .unread
    | .missing => .missing
    | .found offset => .found (f offset)⟩

@[simp]
theorem Slot.relocate_missing : relocate f Slot.missing = .missing := rfl

@[simp]
theorem Slot.relocate_found (offset : Nat) : relocate f (Slot.found offset) = .found (f offset) :=
  rfl

instance : Placed InputValueDefinition :=
  ⟨fun f d => ⟨relocate f d.description, relocate f d.name, relocate f d.colon, relocate f d.type,
    relocate f d.defaultValue⟩⟩

instance : Placed FieldDefinition :=
  ⟨fun f d => ⟨relocate f d.description, relocate f d.name, relocate f d.arguments,
    relocate f d.colon, relocate f d.type, relocate f d.directives⟩⟩

@[simp]
theorem FieldDefinition.relocate_mk (description : Option Description) (name : Name)
    (arguments : Option (Bracketed InputValueDefinition)) (colon : Slot) (type : TypeRef)
    (directives : List Directive) :
    relocate f (⟨description, name, arguments, colon, type, directives⟩ : FieldDefinition) =
      ⟨relocate f description, relocate f name, relocate f arguments, relocate f colon,
        relocate f type, relocate f directives⟩ := rfl

instance : Placed EnumValueDefinition :=
  ⟨fun f d => ⟨relocate f d.description, relocate f d.value, relocate f d.directives⟩⟩

@[simp]
theorem EnumValueDefinition.relocate_mk (description : Option Description) (value : Name)
    (directives : List Directive) :
    relocate f (⟨description, value, directives⟩ : EnumValueDefinition) =
      ⟨relocate f description, relocate f value, relocate f directives⟩ := rfl

instance : Placed TypeBody :=
  ⟨fun f => fun
    | .scalar => .scalar
    | .object interfaces fields => .object (relocate f interfaces) (relocate f fields)
    | .interface fields => .interface (relocate f fields)
    | .union equals members => .union (relocate f equals) (relocate f members)
    | .enum values => .enum (relocate f values)
    | .input fields => .input (relocate f fields)⟩

@[simp]
theorem TypeBody.relocate_object (interfaces : List Name)
    (fields : Option (Bracketed FieldDefinition)) :
    relocate f (TypeBody.object interfaces fields) =
      .object (relocate f interfaces) (relocate f fields) := rfl

instance : Placed TypeDefinition :=
  ⟨fun f d => ⟨relocate f d.description, f d.keyword, relocate f d.name, relocate f d.body⟩⟩

instance : Placed RootDefinition :=
  ⟨fun f d => ⟨d.operation, f d.start, f d.colon, relocate f d.type⟩⟩

instance : Placed SchemaDefinition := ⟨fun f d => ⟨f d.keyword, relocate f d.roots⟩⟩

/-! ## Documents -/

instance : Placed Definition :=
  ⟨fun f => fun
    | .operation o => .operation (relocate f o)
    | .fragment d => .fragment (relocate f d)
    | .type d => .type (relocate f d)
    | .schema d => .schema (relocate f d)⟩

instance : Placed Document := ⟨fun f d => ⟨relocate f d.definitions⟩⟩

/-! ## Erasing -/

section Erasing

variable {g : α → α}

theorem relocate_zero_option (h : ∀ a, relocate (fun _ => 0) a = g a) (o : Option α) :
    relocate (fun _ => 0) o = o.map g :=
  congrArg (o.map ·) (funext h)

theorem relocate_zero_list (h : ∀ a, relocate (fun _ => 0) a = g a) (as : List α) :
    relocate (fun _ => 0) as = as.map g :=
  congrArg (as.map ·) (funext h)

theorem relocate_zero_bracketed (h : ∀ a, relocate (fun _ => 0) a = g a) (b : Bracketed α) :
    relocate (fun _ => 0) b = b.erase g := by
  obtain ⟨opening, items, closing⟩ := b
  rw [Bracketed.relocate_mk, relocate_zero_list h]
  rfl

end Erasing

mutual

theorem Value.relocate_zero : ∀ v : Value, relocate (fun _ => 0) v = v.erase
  | .null _ | .scalar _ _ _ | .var _ | .tooDeep | .missing => rfl
  | .list ⟨opening, values, closing⟩ => by
      rw [Value.relocate_list, Bracketed.relocate_mk, Value.relocateList_zero values, Value.erase]
      rfl
  | .object ⟨opening, fields, closing⟩ => by
      rw [Value.relocate_object, Bracketed.relocate_mk, Value.relocateFields_zero fields,
        Value.erase]
      rfl

theorem Value.relocateList_zero : ∀ values : List Value,
    relocate (fun _ => 0) values = Value.eraseList values
  | [] => rfl
  | v :: values => by
      rw [relocate_cons, Value.relocate_zero v, Value.relocateList_zero values, Value.eraseList]

theorem Value.relocateFields_zero : ∀ fields : List ObjectField,
    relocate (fun _ => 0) fields = Value.eraseFields fields
  | [] => rfl
  | ⟨name, colon, value⟩ :: fields => by
      rw [relocate_cons, Value.relocateFields_zero fields, Value.eraseFields,
        ← Value.relocate_zero value]
      rfl

end

theorem DefaultValue.relocate_zero (d : DefaultValue) : relocate (fun _ => 0) d = d.erase :=
  congrArg (DefaultValue.mk 0) d.value.relocate_zero

theorem Argument.relocate_zero (a : Argument) : relocate (fun _ => 0) a = a.erase :=
  congrArg (Argument.mk a.name.erase 0) a.value.relocate_zero

theorem relocate_zero_arguments (o : Option (Bracketed Argument)) :
    relocate (fun _ => 0) o = o.map (Bracketed.erase Argument.erase) :=
  relocate_zero_option (relocate_zero_bracketed Argument.relocate_zero) o

theorem Directive.relocate_zero (d : Directive) : relocate (fun _ => 0) d = d.erase :=
  congrArg (Directive.mk 0 d.name.erase) (relocate_zero_arguments d.arguments)

theorem relocate_zero_directives (ds : List Directive) :
    relocate (fun _ => 0) ds = ds.map Directive.erase :=
  relocate_zero_list Directive.relocate_zero ds

theorem TypeRef.relocate_zero (type : TypeRef) :
    relocate (fun _ => 0) type = type.erase := by
  induction type with
  | named name bang => rfl
  | list opening element closing bang ih =>
      rw [TypeRef.erase, ← ih]
      rfl
  | missing => rfl

mutual

theorem Selection.relocate_zero : ∀ s : Selection, relocate (fun _ => 0) s = s.erase
  | .field aliasName name arguments directives none => by
      rw [Selection.relocate_field, Selection.erase, relocate_zero_arguments,
        relocate_zero_directives]
      rfl
  | .field aliasName name arguments directives (some ⟨opening, selections, closing⟩) => by
      rw [Selection.relocate_field, Selection.erase, relocate_zero_arguments,
        relocate_zero_directives, relocate_some, Bracketed.relocate_mk,
        Selection.relocateList_zero selections]
      rfl
  | .spread ellipsis name directives => by
      rw [Selection.erase, ← relocate_zero_directives]
      rfl
  | .inline ellipsis condition directives ⟨opening, selections, closing⟩ => by
      rw [Selection.relocate_inline, Selection.erase, relocate_zero_directives,
        Bracketed.relocate_mk, Selection.relocateList_zero selections]
      rfl

theorem Selection.relocateList_zero : ∀ selections : List Selection,
    relocate (fun _ => 0) selections = Selection.eraseList selections
  | [] => rfl
  | s :: selections => by
      rw [relocate_cons, Selection.relocate_zero s, Selection.relocateList_zero selections,
        Selection.eraseList]

end

theorem SelectionSet.relocate_zero (set : SelectionSet) : relocate (fun _ => 0) set = set.erase :=
  relocate_zero_bracketed Selection.relocate_zero set

theorem VariableDefinition.relocate_zero (d : VariableDefinition) :
    relocate (fun _ => 0) d = d.erase := by
  rw [VariableDefinition.erase, ← d.type.relocate_zero,
    ← relocate_zero_option DefaultValue.relocate_zero]
  rfl

theorem Operation.relocate_zero (o : Operation) : relocate (fun _ => 0) o = o.erase := by
  rw [Operation.erase, ← relocate_zero_directives, ← SelectionSet.relocate_zero,
    ← relocate_zero_option (relocate_zero_bracketed VariableDefinition.relocate_zero)]
  rfl

theorem Fragment.relocate_zero (d : Fragment) : relocate (fun _ => 0) d = d.erase := by
  rw [Fragment.erase, ← relocate_zero_directives, ← SelectionSet.relocate_zero]
  rfl

theorem Slot.relocate_zero (s : Slot) : relocate (fun _ => 0) s = s.erase := by
  cases s <;> rfl

theorem InputValueDefinition.relocate_zero (d : InputValueDefinition) :
    relocate (fun _ => 0) d = d.erase := by
  rw [InputValueDefinition.erase, ← d.type.relocate_zero,
    ← relocate_zero_option DefaultValue.relocate_zero]
  rfl

theorem relocate_zero_inputs (o : Option (Bracketed InputValueDefinition)) :
    relocate (fun _ => 0) o = o.map (Bracketed.erase InputValueDefinition.erase) :=
  relocate_zero_option (relocate_zero_bracketed InputValueDefinition.relocate_zero) o

theorem FieldDefinition.relocate_zero (d : FieldDefinition) :
    relocate (fun _ => 0) d = d.erase := by
  rw [FieldDefinition.erase, ← d.type.relocate_zero, ← relocate_zero_directives,
    ← relocate_zero_inputs, ← d.colon.relocate_zero]
  rfl

theorem EnumValueDefinition.relocate_zero (d : EnumValueDefinition) :
    relocate (fun _ => 0) d = d.erase := by
  rw [EnumValueDefinition.erase, ← relocate_zero_directives]
  rfl

theorem TypeBody.relocate_zero (body : TypeBody) : relocate (fun _ => 0) body = body.erase := by
  have hfields := relocate_zero_option (relocate_zero_bracketed FieldDefinition.relocate_zero)
  cases body with
  | scalar => rfl
  | object interfaces fields => exact congrArg (TypeBody.object _) (hfields fields)
  | interface fields => exact congrArg TypeBody.interface (hfields fields)
  | union equals members => exact congrArg (TypeBody.union · _) equals.relocate_zero
  | enum values =>
      exact congrArg TypeBody.enum
        (relocate_zero_option (relocate_zero_bracketed EnumValueDefinition.relocate_zero) values)
  | input fields => exact congrArg TypeBody.input (relocate_zero_inputs fields)

theorem TypeDefinition.relocate_zero (d : TypeDefinition) :
    relocate (fun _ => 0) d = d.erase :=
  congrArg (TypeDefinition.mk _ 0 _) d.body.relocate_zero

theorem Definition.relocate_zero (d : Definition) : relocate (fun _ => 0) d = d.erase := by
  cases d with
  | operation o => exact congrArg Definition.operation o.relocate_zero
  | fragment d => exact congrArg Definition.fragment d.relocate_zero
  | type d => exact congrArg Definition.type d.relocate_zero
  | schema d => rfl

/-- Erasing the offsets of a document moves all of them to zero. -/
theorem Document.relocate_zero (d : Document) : relocate (fun _ => 0) d = d.erase :=
  congrArg Document.mk (relocate_zero_list Definition.relocate_zero d.definitions)

end SelectionCheck
