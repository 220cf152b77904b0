import SelectionCheck.Document.Parse

/-!
# Documents laid out as tokens

A tree says which tokens its document consists of. `pieces` writes a tree out again, part after
part in the order in which the parts stand in the text, and puts back the keywords and separators
that the tree does not keep. A piece has the kind and the text of a token, and the offset that the
tree keeps for it, if the tree has a place for one.

One token leaves no trace in a tree: a separator that a writer may put before the first of several
names. Such a piece is optional. A part that the language demands and the tree lacks is a piece
that no token is. `Spells pieces tokens` says that the tokens are the pieces one after the other,
where an optional piece may be left out; nothing else may be left out, added or moved, and every
offset kept is the offset of its own token.
-/

namespace SelectionCheck

variable {α : Type}

/-- Where a tree keeps the offset of a token: nowhere, or in a place that may be empty. -/
inductive Place
  | unrecorded
  | recorded (offset : Option Nat)
deriving DecidableEq, Repr

/-- An offset agrees with a place that keeps none, or that keeps this one. An empty place agrees
with no offset. -/
def Place.Agrees : Place → Nat → Prop
  | .unrecorded, _ => True
  | .recorded offset, start => offset = some start

/-- What a tree says about one token. Only a punctuator may be optional. -/
structure Piece where
  kind : Token.Kind
  text : Text
  place : Place
  optional : Bool
  spelling_ne : optional = true → kind.spelling ≠ ""
deriving DecidableEq, Repr

namespace Piece

/-- A punctuator whose offset the tree keeps. -/
def mark (kind : Token.Kind) (offset : Option Nat) : Piece :=
  ⟨kind, kind.spelling, .recorded offset, false, nofun⟩

/-- A punctuator whose offset the tree does not keep. -/
def separator (kind : Token.Kind) : Piece :=
  ⟨kind, kind.spelling, .unrecorded, false, nofun⟩

/-- A separator that may stand before the first of several names. -/
def leading (kind : Token.Kind) (h : kind.spelling ≠ "") : Piece :=
  ⟨kind, kind.spelling, .unrecorded, true, fun _ => h⟩

def lexeme (kind : Token.Kind) (text : Text) (start : Nat) : Piece :=
  ⟨kind, text, .recorded (some start), false, nofun⟩

def keyword (text : Text) : Piece :=
  ⟨.name, text, .unrecorded, false, nofun⟩

/-- The place of a part that is missing. No token stands there. -/
def absent : Piece :=
  ⟨.unknown, [], .recorded none, false, nofun⟩

/-- A token is the one that the piece speaks of. -/
structure Denotes (p : Piece) (t : Token) : Prop where
  kind_eq : t.kind = p.kind
  text_eq : t.text = p.text
  agrees : p.place.Agrees t.start

end Piece

/-- The tokens are the pieces one after the other; optional pieces may be left out. -/
inductive Spells : List Piece → List Token → Prop
  | nil : Spells [] []
  | take {p : Piece} {t : Token} {ps : List Piece} {ts : List Token} :
      p.Denotes t → Spells ps ts → Spells (p :: ps) (t :: ts)
  | skip {p : Piece} {ps : List Piece} {ts : List Token} :
      p.optional = true → Spells ps ts → Spells (p :: ps) ts

theorem Spells.append {ps qs : List Piece} {ts us : List Token} (hp : Spells ps ts)
    (hq : Spells qs us) : Spells (ps ++ qs) (ts ++ us) := by
  induction hp with
  | nil => exact hq
  | take h _ ih => exact .take h ih
  | skip h _ ih => exact .skip h ih

theorem Spells.singleton {p : Piece} {t : Token} (h : p.Denotes t) : Spells [p] [t] :=
  .take h .nil

/-! ## Values, types and directives -/

def Name.piece (n : Name) : Piece := .lexeme .name n.value n.start

def Bracketed.pieces (opener closer : Token.Kind) (item : α → List Piece) (b : Bracketed α) :
    List Piece :=
  .mark opener (some b.opening) :: (b.items.flatMap item ++ [.mark closer b.closing])

def ScalarKind.tokenKind : ScalarKind → Token.Kind
  | .string => .string
  | .boolean | .enum => .name
  | .int => .int
  | .float => .float

def Variable.pieces (v : Variable) : List Piece :=
  [.mark .dollar (some v.dollar), v.name.piece]

mutual

def Value.pieces : Value → List Piece
  | .null name => [name.piece]
  | .scalar start kind raw => [.lexeme kind.tokenKind raw start]
  | .var reference => reference.pieces
  | .list ⟨opening, values, closing⟩ =>
    .mark .lbracket (some opening) :: (Value.listPieces values ++ [.mark .rbracket closing])
  | .object ⟨opening, fields, closing⟩ =>
    .mark .lbrace (some opening) :: (Value.fieldPieces fields ++ [.mark .rbrace closing])
  | .tooDeep | .missing => [.absent]

def Value.listPieces : List Value → List Piece
  | [] => []
  | v :: vs => v.pieces ++ Value.listPieces vs

def Value.fieldPieces : List ObjectField → List Piece
  | [] => []
  | ⟨name, colon, value⟩ :: fields =>
    name.piece :: .mark .colon (some colon) :: (value.pieces ++ Value.fieldPieces fields)

end

def ObjectField.pieces : ObjectField → List Piece
  | ⟨name, colon, value⟩ => name.piece :: .mark .colon (some colon) :: value.pieces

theorem Value.listPieces_eq_flatMap (values : List Value) :
    Value.listPieces values = values.flatMap Value.pieces := by
  induction values with
  | nil => rfl
  | cons v vs ih => rw [Value.listPieces, ih, List.flatMap_cons]

theorem Value.fieldPieces_eq_flatMap (fields : List ObjectField) :
    Value.fieldPieces fields = fields.flatMap ObjectField.pieces := by
  induction fields with
  | nil => rfl
  | cons f fs ih =>
      obtain ⟨name, colon, value⟩ := f
      rw [Value.fieldPieces, ih, List.flatMap_cons]
      rfl

theorem Value.pieces_list (values : Bracketed Value) :
    (Value.list values).pieces = values.pieces .lbracket .rbracket Value.pieces := by
  obtain ⟨opening, items, closing⟩ := values
  rw [Value.pieces, Value.listPieces_eq_flatMap]
  rfl

theorem Value.pieces_object (fields : Bracketed ObjectField) :
    (Value.object fields).pieces = fields.pieces .lbrace .rbrace ObjectField.pieces := by
  obtain ⟨opening, items, closing⟩ := fields
  rw [Value.pieces, Value.fieldPieces_eq_flatMap]
  rfl

def DefaultValue.pieces (d : DefaultValue) : List Piece :=
  .mark .equals (some d.equals) :: d.value.pieces

def Argument.pieces (a : Argument) : List Piece :=
  a.name.piece :: .mark .colon (some a.colon) :: a.value.pieces

def argumentPieces (arguments : Option (Bracketed Argument)) : List Piece :=
  arguments.elim [] (Bracketed.pieces .lparen .rparen Argument.pieces)

def Directive.pieces (d : Directive) : List Piece :=
  .mark .atSign (some d.sign) :: d.name.piece :: argumentPieces d.arguments

def bangPieces : Option Nat → List Piece
  | some offset => [.mark .bang (some offset)]
  | none => []

def TypeRef.pieces : TypeRef → List Piece
  | .named name bang => name.piece :: bangPieces bang
  | .list opening element closing bang =>
    .mark .lbracket (some opening) ::
      (element.pieces ++ .mark .rbracket closing :: bangPieces bang)
  | .missing => [.absent]

/-! ## Operations and fragments -/

def TypeCondition.pieces (c : TypeCondition) : List Piece :=
  [.lexeme .name "on" c.keyword, c.name.piece]

def aliasPieces : Option Name → List Piece
  | some name => [name.piece, .separator .colon]
  | none => []

mutual

def Selection.pieces : Selection → List Piece
  | .field aliasName name arguments directives none =>
    aliasPieces aliasName ++ name.piece ::
      (argumentPieces arguments ++ directives.flatMap Directive.pieces)
  | .field aliasName name arguments directives (some ⟨opening, selections, closing⟩) =>
    aliasPieces aliasName ++ name.piece ::
      (argumentPieces arguments ++ (directives.flatMap Directive.pieces ++
        .mark .lbrace (some opening) ::
          (Selection.listPieces selections ++ [.mark .rbrace closing])))
  | .spread ellipsis name directives =>
    .mark .ellipsis (some ellipsis) :: name.piece :: directives.flatMap Directive.pieces
  | .inline ellipsis condition directives ⟨opening, selections, closing⟩ =>
    .mark .ellipsis (some ellipsis) ::
      (condition.elim [] TypeCondition.pieces ++ (directives.flatMap Directive.pieces ++
        .mark .lbrace (some opening) ::
          (Selection.listPieces selections ++ [.mark .rbrace closing])))

def Selection.listPieces : List Selection → List Piece
  | [] => []
  | s :: selections => s.pieces ++ Selection.listPieces selections

end

def SelectionSet.pieces (set : SelectionSet) : List Piece :=
  Bracketed.pieces .lbrace .rbrace Selection.pieces set

theorem Selection.listPieces_eq_flatMap (selections : List Selection) :
    Selection.listPieces selections = selections.flatMap Selection.pieces := by
  induction selections with
  | nil => rfl
  | cons s ss ih => rw [Selection.listPieces, ih, List.flatMap_cons]

theorem Selection.pieces_field (aliasName : Option Name) (name : Name)
    (arguments : Option (Bracketed Argument)) (directives : List Directive)
    (selections : Option SelectionSet) :
    (Selection.field aliasName name arguments directives selections).pieces =
      aliasPieces aliasName ++ name.piece :: (argumentPieces arguments ++
        (directives.flatMap Directive.pieces ++ selections.elim [] SelectionSet.pieces)) := by
  match selections with
  | none => simp [Selection.pieces]
  | some ⟨opening, items, closing⟩ =>
      rw [Selection.pieces, Selection.listPieces_eq_flatMap]
      rfl

theorem Selection.pieces_inline (ellipsis : Nat) (condition : Option TypeCondition)
    (directives : List Directive) (selections : SelectionSet) :
    (Selection.inline ellipsis condition directives selections).pieces =
      .mark .ellipsis (some ellipsis) :: (condition.elim [] TypeCondition.pieces ++
        (directives.flatMap Directive.pieces ++ selections.pieces)) := by
  obtain ⟨opening, items, closing⟩ := selections
  rw [Selection.pieces, Selection.listPieces_eq_flatMap]
  rfl

def VariableDefinition.pieces (d : VariableDefinition) : List Piece :=
  d.var.pieces ++ .mark .colon d.colon ::
    (d.type.pieces ++ d.defaultValue.elim [] DefaultValue.pieces)

/-- Whether an operation is written as its selection set alone: it begins with the brace of the
set, and there is nothing more to write. -/
def Operation.isShorthand (o : Operation) : Bool :=
  o.start = o.selections.opening && o.type = .query && o.name.isNone && o.parameters.isNone &&
    o.directives.isEmpty

def Operation.pieces (o : Operation) : List Piece :=
  if o.isShorthand then o.selections.pieces
  else
    .lexeme .name o.type.keyword o.start :: (o.name.toList.map Name.piece ++
      (o.parameters.elim [] (Bracketed.pieces .lparen .rparen VariableDefinition.pieces) ++
        (o.directives.flatMap Directive.pieces ++ o.selections.pieces)))

def Fragment.pieces (f : Fragment) : List Piece :=
  .lexeme .name "fragment" f.keyword :: f.name.piece ::
    (f.condition.pieces ++ (f.directives.flatMap Directive.pieces ++ f.selections.pieces))

/-! ## Type definitions -/

def Description.piece (d : Description) : Piece := .lexeme .string d.raw d.start

def Slot.offset? : Slot → Option Nat
  | .found offset => some offset
  | .unread | .missing => none

def InputValueDefinition.pieces (d : InputValueDefinition) : List Piece :=
  d.description.toList.map Description.piece ++ d.name.piece :: .mark .colon d.colon ::
    (d.type.pieces ++ d.defaultValue.elim [] DefaultValue.pieces)

def FieldDefinition.pieces (d : FieldDefinition) : List Piece :=
  d.description.toList.map Description.piece ++ d.name.piece ::
    (d.arguments.elim [] (Bracketed.pieces .lparen .rparen InputValueDefinition.pieces) ++
      .mark .colon d.colon.offset? ::
        (d.type.pieces ++ d.directives.flatMap Directive.pieces))

def EnumValueDefinition.pieces (d : EnumValueDefinition) : List Piece :=
  d.description.toList.map Description.piece ++ d.value.piece ::
    d.directives.flatMap Directive.pieces

def separatedPieces (kind : Token.Kind) : List Name → List Piece
  | [] => [.absent]
  | [n] => [n.piece]
  | n :: m :: names => n.piece :: .separator kind :: separatedPieces kind (m :: names)

/-- One or more names with a separator between each two and, if the writer likes, before the
first. -/
def namePieces (kind : Token.Kind) (h : kind.spelling ≠ "") (names : List Name) : List Piece :=
  .leading kind h :: separatedPieces kind names

def implementsPieces : List Name → List Piece
  | [] => []
  | n :: names => .keyword "implements" :: namePieces .ampersand (by decide) (n :: names)

def TypeBody.form : TypeBody → Grammar.TypeForm
  | .scalar => .scalar
  | .object _ _ => .object
  | .interface _ => .interface
  | .union _ _ => .union
  | .enum _ => .enum
  | .input _ => .input

def bodyPieces (item : α → List Piece) (items : Option (Bracketed α)) : List Piece :=
  items.elim [.absent] (Bracketed.pieces .lbrace .rbrace item)

def TypeBody.pieces : TypeBody → List Piece
  | .scalar => []
  | .object interfaces fields =>
    implementsPieces interfaces ++ bodyPieces FieldDefinition.pieces fields
  | .interface fields => bodyPieces FieldDefinition.pieces fields
  | .union equals members => .mark .equals equals.offset? :: namePieces .bar (by decide) members
  | .enum values => bodyPieces EnumValueDefinition.pieces values
  | .input fields => bodyPieces InputValueDefinition.pieces fields

def TypeDefinition.pieces (d : TypeDefinition) : List Piece :=
  d.description.toList.map Description.piece ++ .lexeme .name d.body.form.keyword d.keyword ::
    (d.name.elim .absent Name.piece :: d.body.pieces)

def RootDefinition.pieces (d : RootDefinition) : List Piece :=
  [.lexeme .name d.operation.keyword d.start, .mark .colon (some d.colon), d.type.piece]

def SchemaDefinition.pieces (d : SchemaDefinition) : List Piece :=
  .lexeme .name "schema" d.keyword :: d.roots.pieces .lbrace .rbrace RootDefinition.pieces

/-! ## Documents -/

def Definition.pieces : Definition → List Piece
  | .operation o => o.pieces
  | .fragment f => f.pieces
  | .type d => d.pieces
  | .schema d => d.pieces

def Document.pieces (d : Document) : List Piece :=
  d.definitions.flatMap Definition.pieces

end SelectionCheck
