import SelectionCheck.Proofs.Document.Piece

/-!
# The shape of a document

Two documents have the same shape if they differ in offsets only. `erase` puts zero in place of
every offset, so that two trees have the same shape exactly when they erase to the same tree; what
is absent stays absent.
-/

namespace SelectionCheck

variable {α β : Type}

/-! ## Values, types and directives -/

def Name.erase (n : Name) : Name := ⟨n.value, 0⟩

def Bracketed.erase (item : α → β) (b : Bracketed α) : Bracketed β :=
  ⟨0, b.items.map item, b.closing.map fun _ => 0⟩

def Variable.erase (v : Variable) : Variable := ⟨0, v.name.erase⟩

mutual

def Value.erase : Value → Value
  | .null name => .null name.erase
  | .scalar _ kind raw => .scalar 0 kind raw
  | .var reference => .var reference.erase
  | .list ⟨_, values, closing⟩ => .list ⟨0, Value.eraseList values, closing.map fun _ => 0⟩
  | .object ⟨_, fields, closing⟩ => .object ⟨0, Value.eraseFields fields, closing.map fun _ => 0⟩
  | .tooDeep => .tooDeep
  | .missing => .missing

def Value.eraseList : List Value → List Value
  | [] => []
  | v :: values => v.erase :: Value.eraseList values

def Value.eraseFields : List ObjectField → List ObjectField
  | [] => []
  | ⟨name, _, value⟩ :: fields => ⟨name.erase, 0, value.erase⟩ :: Value.eraseFields fields

end

def ObjectField.erase : ObjectField → ObjectField
  | ⟨name, _, value⟩ => ⟨name.erase, 0, value.erase⟩

theorem Value.eraseList_eq_map (values : List Value) :
    Value.eraseList values = values.map Value.erase := by
  induction values with
  | nil => rfl
  | cons v values ih => rw [Value.eraseList, ih, List.map_cons]

theorem Value.eraseFields_eq_map (fields : List ObjectField) :
    Value.eraseFields fields = fields.map ObjectField.erase := by
  induction fields with
  | nil => rfl
  | cons f fields ih =>
      obtain ⟨name, colon, value⟩ := f
      rw [Value.eraseFields, ih, List.map_cons]
      rfl

theorem Value.erase_list (values : Bracketed Value) :
    (Value.list values).erase = .list (values.erase Value.erase) := by
  obtain ⟨opening, items, closing⟩ := values
  rw [Value.erase, Value.eraseList_eq_map]
  rfl

theorem Value.erase_object (fields : Bracketed ObjectField) :
    (Value.object fields).erase = .object (fields.erase ObjectField.erase) := by
  obtain ⟨opening, items, closing⟩ := fields
  rw [Value.erase, Value.eraseFields_eq_map]
  rfl

def DefaultValue.erase (d : DefaultValue) : DefaultValue := ⟨0, d.value.erase⟩

def Argument.erase (a : Argument) : Argument := ⟨a.name.erase, 0, a.value.erase⟩

def Directive.erase (d : Directive) : Directive :=
  ⟨0, d.name.erase, d.arguments.map (Bracketed.erase Argument.erase)⟩

def TypeRef.erase : TypeRef → TypeRef
  | .named name bang => .named name.erase (bang.map fun _ => 0)
  | .list _ element closing bang =>
    .list 0 element.erase (closing.map fun _ => 0) (bang.map fun _ => 0)
  | .missing => .missing

def TypeCondition.erase (c : TypeCondition) : TypeCondition := ⟨0, c.name.erase⟩

/-! ## Operations and fragments -/

mutual

def Selection.erase : Selection → Selection
  | .field aliasName name arguments directives none =>
    .field (aliasName.map Name.erase) name.erase (arguments.map (Bracketed.erase Argument.erase))
      (directives.map Directive.erase) none
  | .field aliasName name arguments directives (some ⟨_, selections, closing⟩) =>
    .field (aliasName.map Name.erase) name.erase (arguments.map (Bracketed.erase Argument.erase))
      (directives.map Directive.erase)
      (some ⟨0, Selection.eraseList selections, closing.map fun _ => 0⟩)
  | .spread _ name directives => .spread 0 name.erase (directives.map Directive.erase)
  | .inline _ condition directives ⟨_, selections, closing⟩ =>
    .inline 0 (condition.map TypeCondition.erase) (directives.map Directive.erase)
      ⟨0, Selection.eraseList selections, closing.map fun _ => 0⟩

def Selection.eraseList : List Selection → List Selection
  | [] => []
  | s :: selections => s.erase :: Selection.eraseList selections

end

def SelectionSet.erase (set : SelectionSet) : SelectionSet :=
  Bracketed.erase Selection.erase set

theorem Selection.eraseList_eq_map (selections : List Selection) :
    Selection.eraseList selections = selections.map Selection.erase := by
  induction selections with
  | nil => rfl
  | cons s selections ih => rw [Selection.eraseList, ih, List.map_cons]

theorem Selection.erase_field (aliasName : Option Name) (name : Name)
    (arguments : Option (Bracketed Argument)) (directives : List Directive)
    (selections : Option SelectionSet) :
    (Selection.field aliasName name arguments directives selections).erase =
      .field (aliasName.map Name.erase) name.erase
        (arguments.map (Bracketed.erase Argument.erase)) (directives.map Directive.erase)
        (selections.map SelectionSet.erase) := by
  match selections with
  | none => rfl
  | some ⟨opening, items, closing⟩ =>
      rw [Selection.erase, Selection.eraseList_eq_map]
      rfl

theorem Selection.erase_inline (ellipsis : Nat) (condition : Option TypeCondition)
    (directives : List Directive) (selections : SelectionSet) :
    (Selection.inline ellipsis condition directives selections).erase =
      .inline 0 (condition.map TypeCondition.erase) (directives.map Directive.erase)
        selections.erase := by
  obtain ⟨opening, items, closing⟩ := selections
  rw [Selection.erase, Selection.eraseList_eq_map]
  rfl

def VariableDefinition.erase (d : VariableDefinition) : VariableDefinition :=
  ⟨d.var.erase, d.colon.map fun _ => 0, d.type.erase, d.defaultValue.map DefaultValue.erase⟩

def Operation.erase (o : Operation) : Operation :=
  ⟨0, o.type, o.name.map Name.erase,
    o.parameters.map (Bracketed.erase VariableDefinition.erase),
    o.directives.map Directive.erase, o.selections.erase⟩

def Fragment.erase (f : Fragment) : Fragment :=
  ⟨0, f.name.erase, f.condition.erase, f.directives.map Directive.erase, f.selections.erase⟩

/-! ## Type definitions -/

def Description.erase (d : Description) : Description := ⟨0, d.raw⟩

def Slot.erase : Slot → Slot
  | .unread => .unread
  | .missing => .missing
  | .found _ => .found 0

def InputValueDefinition.erase (d : InputValueDefinition) : InputValueDefinition :=
  ⟨d.description.map Description.erase, d.name.erase, d.colon.map fun _ => 0, d.type.erase,
    d.defaultValue.map DefaultValue.erase⟩

def FieldDefinition.erase (d : FieldDefinition) : FieldDefinition :=
  ⟨d.description.map Description.erase, d.name.erase,
    d.arguments.map (Bracketed.erase InputValueDefinition.erase), d.colon.erase, d.type.erase,
    d.directives.map Directive.erase⟩

def EnumValueDefinition.erase (d : EnumValueDefinition) : EnumValueDefinition :=
  ⟨d.description.map Description.erase, d.value.erase, d.directives.map Directive.erase⟩

def TypeBody.erase : TypeBody → TypeBody
  | .scalar => .scalar
  | .object interfaces fields =>
    .object (interfaces.map Name.erase) (fields.map (Bracketed.erase FieldDefinition.erase))
  | .interface fields => .interface (fields.map (Bracketed.erase FieldDefinition.erase))
  | .union equals members => .union equals.erase (members.map Name.erase)
  | .enum values => .enum (values.map (Bracketed.erase EnumValueDefinition.erase))
  | .input fields => .input (fields.map (Bracketed.erase InputValueDefinition.erase))

def TypeDefinition.erase (d : TypeDefinition) : TypeDefinition :=
  ⟨d.description.map Description.erase, 0, d.name.map Name.erase, d.body.erase⟩

def RootDefinition.erase (d : RootDefinition) : RootDefinition :=
  ⟨d.operation, 0, 0, d.type.erase⟩

def SchemaDefinition.erase (d : SchemaDefinition) : SchemaDefinition :=
  ⟨0, d.roots.erase RootDefinition.erase⟩

/-! ## Documents -/

def Definition.erase : Definition → Definition
  | .operation o => .operation o.erase
  | .fragment f => .fragment f.erase
  | .type d => .type d.erase
  | .schema d => .schema d.erase

def Document.erase (d : Document) : Document := ⟨d.definitions.map Definition.erase⟩

end SelectionCheck
