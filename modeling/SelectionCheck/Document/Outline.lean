import SelectionCheck.Document.Basic

/-!
# Outlines

The outline of a document lists its nodes from left to right, each node before its parts, with
what a reader of the list needs to find the node in the source again: offsets, and the text of
names, literals, variables and type references. Parts that were not read have no node, except that
a list or object beyond the nesting limit has a node without an offset.
-/

namespace SelectionCheck

inductive Node
  | definition (start : Nat)
  | typeDefinition (start : Nat) (name : Text)
  | selection (start : Nat)
  | selections (count : Nat)
  | field (start stop : Nat) (key : Text)
  | value (start : Option Nat)
  | scalar (raw : Text)
  | var (text : Text)
  | typeRef (start : Nat) (text : Text)
  | name (stop : Nat) (text : Text)
deriving DecidableEq, Repr

def Name.outline (n : Name) : List Node :=
  [.name n.stop n.value]

def Name.outline? (n : Option Name) : List Node :=
  n.toList.flatMap Name.outline

def Variable.outline (v : Variable) : List Node :=
  .var v.render :: v.name.outline

mutual

def Value.outline : Value → List Node
  | .null name => .value (some name.start) :: name.outline
  | .scalar start _ raw => [.value (some start), .scalar raw]
  | .var reference => .value (some reference.dollar) :: reference.outline
  | .list values => .value (some values.opening) :: outlineValues values
  | .object fields => .value (some fields.opening) :: outlineFields fields
  | .tooDeep => [.value none]
  | .missing => []

def outlineValues : Bracketed Value → List Node
  | ⟨_, values, _⟩ => outlineValueList values

def outlineFields : Bracketed ObjectField → List Node
  | ⟨_, fields, _⟩ => outlineFieldList fields

def outlineValueList : List Value → List Node
  | [] => []
  | value :: values => value.outline ++ outlineValueList values

def outlineFieldList : List ObjectField → List Node
  | [] => []
  | field :: fields => field.outline ++ outlineFieldList fields

def ObjectField.outline : ObjectField → List Node
  | .mk name _ value => name.outline ++ value.outline

end

def DefaultValue.outline? (d : Option DefaultValue) : List Node :=
  d.toList.flatMap fun d => d.value.outline

def Argument.outlineAll? (arguments : Option (Bracketed Argument)) : List Node :=
  arguments.toList.flatMap fun list =>
    list.items.flatMap fun argument => argument.name.outline ++ argument.value.outline

def Directive.outlineAll (directives : List Directive) : List Node :=
  directives.flatMap fun directive =>
    directive.name.outline ++ Argument.outlineAll? directive.arguments

def TypeRef.outline : TypeRef → List Node
  | .named name bang => .typeRef name.start (TypeRef.named name bang).render :: name.outline
  | .list opening element closing bang =>
    .typeRef opening (TypeRef.list opening element closing bang).render :: element.outline
  | .missing => []

def TypeCondition.outline? (condition : Option TypeCondition) : List Node :=
  condition.toList.flatMap fun condition => condition.name.outline

mutual

def Selection.outline : Selection → List Node
  | .field aliasName name arguments directives none =>
    let key := Selection.fieldKey aliasName name
    .selection key.start :: .field key.start (Selection.fieldStop name arguments none) key.value ::
      (Name.outline? aliasName ++ name.outline ++ Argument.outlineAll? arguments ++
        Directive.outlineAll directives)
  | .field aliasName name arguments directives (some selections) =>
    let key := Selection.fieldKey aliasName name
    .selection key.start ::
      .field key.start (Selection.fieldStop name arguments (some selections)) key.value ::
      (Name.outline? aliasName ++ name.outline ++ Argument.outlineAll? arguments ++
        Directive.outlineAll directives ++ outlineSelections selections)
  | .spread ellipsis name directives =>
    .selection ellipsis :: (name.outline ++ Directive.outlineAll directives)
  | .inline ellipsis condition directives selections =>
    .selection ellipsis :: (TypeCondition.outline? condition ++ Directive.outlineAll directives ++
      outlineSelections selections)

def outlineSelections : Bracketed Selection → List Node
  | ⟨_, selections, _⟩ => .selections selections.length :: outlineSelectionList selections

def outlineSelectionList : List Selection → List Node
  | [] => []
  | selection :: selections => selection.outline ++ outlineSelectionList selections

end

def VariableDefinition.outline (d : VariableDefinition) : List Node :=
  d.var.outline ++ d.type.outline ++ DefaultValue.outline? d.defaultValue

def Operation.outline (o : Operation) : List Node :=
  Name.outline? o.name ++
    (o.parameters.toList.flatMap fun list => list.items.flatMap VariableDefinition.outline) ++
    Directive.outlineAll o.directives ++ outlineSelections o.selections

def Fragment.outline (f : Fragment) : List Node :=
  f.name.outline ++ f.condition.name.outline ++ Directive.outlineAll f.directives ++
    outlineSelections f.selections

def InputValueDefinition.outlineAll? (list : Option (Bracketed InputValueDefinition)) : List Node :=
  list.toList.flatMap fun list => list.items.flatMap fun d =>
    d.name.outline ++ d.type.outline ++ DefaultValue.outline? d.defaultValue

def FieldDefinition.outlineAll? (list : Option (Bracketed FieldDefinition)) : List Node :=
  list.toList.flatMap fun list => list.items.flatMap fun d =>
    d.name.outline ++ InputValueDefinition.outlineAll? d.arguments ++ d.type.outline ++
      Directive.outlineAll d.directives

def TypeBody.outline : TypeBody → List Node
  | .scalar => []
  | .object interfaces fields =>
    interfaces.flatMap Name.outline ++ FieldDefinition.outlineAll? fields
  | .interface fields => FieldDefinition.outlineAll? fields
  | .union _ members => members.flatMap Name.outline
  | .enum values => values.toList.flatMap fun list => list.items.flatMap fun d =>
      d.value.outline ++ Directive.outlineAll d.directives
  | .input fields => InputValueDefinition.outlineAll? fields

def Definition.outline (d : Definition) : List Node :=
  .definition d.start ::
    match d with
    | .operation o => o.outline
    | .fragment f => f.outline
    | .type t =>
      .typeDefinition t.keyword ((t.name.map Name.value).getD []) ::
        (Name.outline? t.name ++ t.body.outline)
    | .schema s => s.roots.items.flatMap fun root => root.type.outline

def Document.outline (d : Document) : List Node :=
  d.definitions.flatMap Definition.outline

end SelectionCheck
