import SelectionCheck.Proofs.Document.Shape
import SelectionCheck.Proofs.Token.Spaced

/-!
# Well-formed documents and how they are written

A document is written word after word, with a space between each two; the words are its pieces, less
the separators that a writer may leave out. It is well formed if every word is a proper token of its
kind and the tree is one that the grammar has: what is demanded is there, lists that must not be
empty are not, constants hold no variables, and reserved words do not stand where they would be read
as something else.

`height` is the number of rules nested inside each other when a tree is read. A rule counts also
where it finds nothing to read: a field without directives still asks for directives, and a variable
without a default value still asks for one. Arguments are different, since they are asked for only
at an opening parenthesis.
-/

namespace SelectionCheck

variable {α : Type}

/-! ## Words -/

def Piece.word (p : Piece) : Word := ⟨p.kind, p.text⟩

def words (ps : List Piece) : List Word :=
  (ps.filter (!·.optional)).map Piece.word

@[simp]
theorem words_nil : words [] = [] := rfl

@[simp]
theorem words_append (ps qs : List Piece) : words (ps ++ qs) = words ps ++ words qs := by
  simp [words]

@[simp]
theorem words_mark (kind : Token.Kind) (offset : Option Nat) (ps : List Piece) :
    words (.mark kind offset :: ps) = ⟨kind, kind.spelling⟩ :: words ps := rfl

@[simp]
theorem words_separator (kind : Token.Kind) (ps : List Piece) :
    words (.separator kind :: ps) = ⟨kind, kind.spelling⟩ :: words ps := rfl

@[simp]
theorem words_leading (kind : Token.Kind) (h : kind.spelling ≠ "") (ps : List Piece) :
    words (.leading kind h :: ps) = words ps := rfl

@[simp]
theorem words_lexeme (kind : Token.Kind) (text : Text) (start : Nat) (ps : List Piece) :
    words (.lexeme kind text start :: ps) = ⟨kind, text⟩ :: words ps := rfl

@[simp]
theorem words_keyword (text : Text) (ps : List Piece) :
    words (.keyword text :: ps) = ⟨.name, text⟩ :: words ps := rfl

@[simp]
theorem words_name (n : Name) (ps : List Piece) :
    words (n.piece :: ps) = ⟨.name, n.value⟩ :: words ps := rfl

def Document.words (d : Document) : List Word := SelectionCheck.words d.pieces

def Document.print (d : Document) : Text := Word.spaced d.words

/-! ## Heights -/

/-- The greatest height of an item; zero if there is none. -/
def tallest (height : α → Nat) (items : List α) : Nat :=
  (items.map height).foldr max 0

@[simp]
theorem tallest_cons (height : α → Nat) (a : α) (items : List α) :
    tallest height (a :: items) = max (height a) (tallest height items) := rfl

theorem le_tallest {height : α → Nat} {a : α} {items : List α} (h : a ∈ items) :
    height a ≤ tallest height items := by
  induction items with
  | nil => cases h
  | cons b items ih =>
      rw [tallest_cons]
      rcases List.mem_cons.1 h with rfl | h
      · exact Nat.le_max_left _ _
      · exact Nat.le_trans (ih h) (Nat.le_max_right _ _)

mutual

def Value.height : Value → Nat
  | .list ⟨_, values, _⟩ => 2 + Value.listHeight values
  | .object ⟨_, fields, _⟩ => 2 + Value.fieldHeight fields
  | .null _ | .scalar _ _ _ | .var _ | .tooDeep | .missing => 1

def Value.listHeight : List Value → Nat
  | [] => 0
  | v :: values => max v.height (Value.listHeight values)

def Value.fieldHeight : List ObjectField → Nat
  | [] => 0
  | ⟨_, _, value⟩ :: fields => max value.height (Value.fieldHeight fields)

end

def ObjectField.height : ObjectField → Nat
  | ⟨_, _, value⟩ => value.height

theorem Value.listHeight_eq_tallest (values : List Value) :
    Value.listHeight values = tallest Value.height values := by
  induction values with
  | nil => rfl
  | cons v values ih => rw [Value.listHeight, ih, tallest_cons]

theorem Value.fieldHeight_eq_tallest (fields : List ObjectField) :
    Value.fieldHeight fields = tallest ObjectField.height fields := by
  induction fields with
  | nil => rfl
  | cons f fields ih =>
      obtain ⟨name, colon, value⟩ := f
      rw [Value.fieldHeight, ih, tallest_cons]
      rfl

theorem Value.height_list (values : Bracketed Value) :
    (Value.list values).height = 2 + tallest Value.height values.items := by
  obtain ⟨opening, items, closing⟩ := values
  rw [Value.height, Value.listHeight_eq_tallest]

theorem Value.height_object (fields : Bracketed ObjectField) :
    (Value.object fields).height = 2 + tallest ObjectField.height fields.items := by
  obtain ⟨opening, items, closing⟩ := fields
  rw [Value.height, Value.fieldHeight_eq_tallest]

/-- The height of a default value, which is asked for also where there is none. -/
def defaultHeight : Option DefaultValue → Nat
  | none => 1
  | some d => 1 + d.value.height

def Argument.height (a : Argument) : Nat := 1 + a.value.height

def argumentsHeight : Option (Bracketed Argument) → Nat
  | none => 0
  | some arguments => 1 + tallest Argument.height arguments.items

def Directive.height (d : Directive) : Nat := argumentsHeight d.arguments

def directivesHeight (directives : List Directive) : Nat :=
  1 + tallest Directive.height directives

def TypeRef.height : TypeRef → Nat
  | .named _ _ | .missing => 1
  | .list _ element _ _ => 1 + element.height

mutual

def Selection.height : Selection → Nat
  | .field _ _ arguments directives none =>
    1 + max (argumentsHeight arguments) (directivesHeight directives)
  | .field _ _ arguments directives (some ⟨_, selections, _⟩) =>
    1 + max (max (argumentsHeight arguments) (directivesHeight directives))
      (1 + Selection.listHeight selections)
  | .spread _ _ directives => 2 + directivesHeight directives
  | .inline _ _ directives ⟨_, selections, _⟩ =>
    2 + max (directivesHeight directives) (1 + Selection.listHeight selections)

def Selection.listHeight : List Selection → Nat
  | [] => 0
  | s :: selections => max s.height (Selection.listHeight selections)

end

def SelectionSet.height (set : SelectionSet) : Nat := 1 + tallest Selection.height set.items

theorem Selection.listHeight_eq_tallest (selections : List Selection) :
    Selection.listHeight selections = tallest Selection.height selections := by
  induction selections with
  | nil => rfl
  | cons s selections ih => rw [Selection.listHeight, ih, tallest_cons]

theorem Selection.height_field (aliasName : Option Name) (name : Name)
    (arguments : Option (Bracketed Argument)) (directives : List Directive)
    (selections : Option SelectionSet) :
    (Selection.field aliasName name arguments directives selections).height =
      1 + max (max (argumentsHeight arguments) (directivesHeight directives))
        (selections.elim 0 SelectionSet.height) := by
  match selections with
  | none => rw [Selection.height, Option.elim_none, Nat.max_zero]
  | some ⟨opening, items, closing⟩ =>
      rw [Selection.height, Selection.listHeight_eq_tallest]
      rfl

theorem Selection.height_inline (ellipsis : Nat) (condition : Option TypeCondition)
    (directives : List Directive) (selections : SelectionSet) :
    (Selection.inline ellipsis condition directives selections).height =
      2 + max (directivesHeight directives) selections.height := by
  obtain ⟨opening, items, closing⟩ := selections
  rw [Selection.height, Selection.listHeight_eq_tallest]
  rfl

def VariableDefinition.height (d : VariableDefinition) : Nat :=
  1 + max d.type.height (defaultHeight d.defaultValue)

/-- The height of an operation. Two rules stand above its parts: that of definitions and its own. -/
def Operation.height (o : Operation) : Nat :=
  2 + max (o.parameters.elim 0 fun b => 1 + tallest VariableDefinition.height b.items)
    (max (directivesHeight o.directives) o.selections.height)

def Fragment.height (f : Fragment) : Nat :=
  2 + max (directivesHeight f.directives) f.selections.height

def InputValueDefinition.height (d : InputValueDefinition) : Nat :=
  1 + max d.type.height (defaultHeight d.defaultValue)

def FieldDefinition.height (d : FieldDefinition) : Nat :=
  1 + max (d.arguments.elim 0 fun b => 1 + tallest InputValueDefinition.height b.items)
    (max d.type.height (directivesHeight d.directives))

def EnumValueDefinition.height (d : EnumValueDefinition) : Nat := directivesHeight d.directives

def bodyHeight (height : α → Nat) (items : Option (Bracketed α)) : Nat :=
  items.elim 0 fun b => 1 + tallest height b.items

def TypeBody.height : TypeBody → Nat
  | .scalar | .union _ _ => 0
  | .object _ fields | .interface fields => bodyHeight FieldDefinition.height fields
  | .enum values => bodyHeight EnumValueDefinition.height values
  | .input fields => bodyHeight InputValueDefinition.height fields

def Definition.height : Definition → Nat
  | .operation o => o.height
  | .fragment f => f.height
  | .type d => 2 + d.body.height
  | .schema _ => 2

def Document.height (d : Document) : Nat := tallest Definition.height d.definitions

/-! ## Trees of the grammar -/

/-- A closed list of items of the grammar. -/
def Bracketed.isGrammatical (item : α → Bool) (b : Bracketed α) : Bool :=
  b.closing.isSome && b.items.all item

/-- A closed list of items of the grammar, where at least one item is demanded. -/
def Bracketed.isFilled (item : α → Bool) (b : Bracketed α) : Bool :=
  !b.items.isEmpty && b.isGrammatical item

theorem Bracketed.isFilled_iff {item : α → Bool} {b : Bracketed α} :
    b.isFilled item = true ↔
      b.items ≠ [] ∧ b.closing.isSome = true ∧ ∀ a ∈ b.items, item a = true := by
  simp [Bracketed.isFilled, Bracketed.isGrammatical]

def isReservedSymbol (word : Text) : Bool :=
  [("null" : Text), "true", "false"].contains word

/-- Whether a word spells a scalar of the given kind, as far as its token leaves this open. -/
def ScalarKind.admits : ScalarKind → Text → Bool
  | .boolean, raw => raw = ("true" : Text) || raw = ("false" : Text)
  | .enum, raw => !isReservedSymbol raw
  | .string, _ | .int, _ | .float, _ => true

mutual

/-- A value of the grammar; variables are none in a constant. -/
def Value.isGrammatical (constant : Bool) : Value → Bool
  | .null name => name.value = ("null" : Text)
  | .scalar _ kind raw => kind.admits raw
  | .var _ => !constant
  | .list ⟨_, values, closing⟩ => closing.isSome && Value.listIsGrammatical constant values
  | .object ⟨_, fields, closing⟩ => closing.isSome && Value.fieldsAreGrammatical constant fields
  | .tooDeep | .missing => false

def Value.listIsGrammatical (constant : Bool) : List Value → Bool
  | [] => true
  | v :: values => v.isGrammatical constant && Value.listIsGrammatical constant values

def Value.fieldsAreGrammatical (constant : Bool) : List ObjectField → Bool
  | [] => true
  | ⟨_, _, value⟩ :: fields =>
    value.isGrammatical constant && Value.fieldsAreGrammatical constant fields

end

def ObjectField.isGrammatical (constant : Bool) : ObjectField → Bool
  | ⟨_, _, value⟩ => value.isGrammatical constant

theorem Value.listIsGrammatical_eq_all (constant : Bool) (values : List Value) :
    Value.listIsGrammatical constant values = values.all (Value.isGrammatical constant) := by
  induction values with
  | nil => rfl
  | cons v values ih => rw [Value.listIsGrammatical, ih, List.all_cons]

theorem Value.fieldsAreGrammatical_eq_all (constant : Bool) (fields : List ObjectField) :
    Value.fieldsAreGrammatical constant fields =
      fields.all (ObjectField.isGrammatical constant) := by
  induction fields with
  | nil => rfl
  | cons f fields ih =>
      obtain ⟨name, colon, value⟩ := f
      rw [Value.fieldsAreGrammatical, ih, List.all_cons]
      rfl

theorem Value.isGrammatical_list (constant : Bool) (values : Bracketed Value) :
    (Value.list values).isGrammatical constant =
      values.isGrammatical (Value.isGrammatical constant) := by
  obtain ⟨opening, items, closing⟩ := values
  rw [Value.isGrammatical, Value.listIsGrammatical_eq_all]
  rfl

theorem Value.isGrammatical_object (constant : Bool) (fields : Bracketed ObjectField) :
    (Value.object fields).isGrammatical constant =
      fields.isGrammatical (ObjectField.isGrammatical constant) := by
  obtain ⟨opening, items, closing⟩ := fields
  rw [Value.isGrammatical, Value.fieldsAreGrammatical_eq_all]
  rfl

def DefaultValue.isGrammatical (d : DefaultValue) : Bool := d.value.isGrammatical true

def Argument.isGrammatical (constant : Bool) (a : Argument) : Bool :=
  a.value.isGrammatical constant

/-- Arguments may be left out, but an empty list of them may not be written. -/
def argumentsAreGrammatical (constant : Bool) (arguments : Option (Bracketed Argument)) : Bool :=
  arguments.all (Bracketed.isFilled (Argument.isGrammatical constant))

def Directive.isGrammatical (constant : Bool) (d : Directive) : Bool :=
  argumentsAreGrammatical constant d.arguments

def TypeRef.isGrammatical : TypeRef → Bool
  | .named _ _ => true
  | .list _ element closing _ => element.isGrammatical && closing.isSome
  | .missing => false

/-- The word that would be read as the beginning of a type condition. -/
def isConditionWord (word : Text) : Bool := word = ("on" : Text)

mutual

def Selection.isGrammatical : Selection → Bool
  | .field _ _ arguments directives none =>
    argumentsAreGrammatical false arguments && directives.all (Directive.isGrammatical false)
  | .field _ _ arguments directives (some ⟨_, selections, closing⟩) =>
    argumentsAreGrammatical false arguments && directives.all (Directive.isGrammatical false) &&
      (closing.isSome && Selection.listIsGrammatical selections)
  | .spread _ name directives =>
    !isConditionWord name.value && directives.all (Directive.isGrammatical false)
  | .inline _ _ directives ⟨_, selections, closing⟩ =>
    directives.all (Directive.isGrammatical false) &&
      (closing.isSome && Selection.listIsGrammatical selections)

def Selection.listIsGrammatical : List Selection → Bool
  | [] => true
  | s :: selections => s.isGrammatical && Selection.listIsGrammatical selections

end

def SelectionSet.isGrammatical (set : SelectionSet) : Bool :=
  Bracketed.isGrammatical Selection.isGrammatical set

theorem Selection.listIsGrammatical_eq_all (selections : List Selection) :
    Selection.listIsGrammatical selections = selections.all Selection.isGrammatical := by
  induction selections with
  | nil => rfl
  | cons s selections ih => rw [Selection.listIsGrammatical, ih, List.all_cons]

theorem Selection.isGrammatical_field (aliasName : Option Name) (name : Name)
    (arguments : Option (Bracketed Argument)) (directives : List Directive)
    (selections : Option SelectionSet) :
    (Selection.field aliasName name arguments directives selections).isGrammatical =
      (argumentsAreGrammatical false arguments &&
        directives.all (Directive.isGrammatical false) &&
        selections.all SelectionSet.isGrammatical) := by
  match selections with
  | none => simp [Selection.isGrammatical]
  | some ⟨opening, items, closing⟩ =>
      rw [Selection.isGrammatical, Selection.listIsGrammatical_eq_all]
      rfl

theorem Selection.isGrammatical_inline (ellipsis : Nat) (condition : Option TypeCondition)
    (directives : List Directive) (selections : SelectionSet) :
    (Selection.inline ellipsis condition directives selections).isGrammatical =
      (directives.all (Directive.isGrammatical false) && selections.isGrammatical) := by
  obtain ⟨opening, items, closing⟩ := selections
  rw [Selection.isGrammatical, Selection.listIsGrammatical_eq_all]
  rfl

def VariableDefinition.isGrammatical (d : VariableDefinition) : Bool :=
  d.colon.isSome && d.type.isGrammatical && d.defaultValue.all DefaultValue.isGrammatical

def Operation.isGrammatical (o : Operation) : Bool :=
  o.parameters.all (Bracketed.isFilled VariableDefinition.isGrammatical) &&
    o.directives.all (Directive.isGrammatical false) && o.selections.isGrammatical

def Fragment.isGrammatical (f : Fragment) : Bool :=
  !isConditionWord f.name.value && f.directives.all (Directive.isGrammatical false) &&
    f.selections.isGrammatical

def InputValueDefinition.isGrammatical (d : InputValueDefinition) : Bool :=
  d.colon.isSome && d.type.isGrammatical && d.defaultValue.all DefaultValue.isGrammatical

def FieldDefinition.isGrammatical (d : FieldDefinition) : Bool :=
  d.arguments.all (Bracketed.isFilled InputValueDefinition.isGrammatical) &&
    d.colon.offset?.isSome && d.type.isGrammatical &&
    d.directives.all (Directive.isGrammatical true)

def EnumValueDefinition.isGrammatical (d : EnumValueDefinition) : Bool :=
  !isReservedSymbol d.value.value && d.directives.all (Directive.isGrammatical true)

def TypeBody.isGrammatical : TypeBody → Bool
  | .scalar => true
  | .object _ fields | .interface fields =>
    fields.any (Bracketed.isFilled FieldDefinition.isGrammatical)
  | .union equals members => equals.offset?.isSome && !members.isEmpty
  | .enum values => values.any (Bracketed.isFilled EnumValueDefinition.isGrammatical)
  | .input fields => fields.any (Bracketed.isFilled InputValueDefinition.isGrammatical)

def TypeDefinition.isGrammatical (d : TypeDefinition) : Bool :=
  d.name.isSome && d.body.isGrammatical

def Definition.isGrammatical : Definition → Bool
  | .operation o => o.isGrammatical
  | .fragment f => f.isGrammatical
  | .type d => d.isGrammatical
  | .schema d => d.roots.closing.isSome

/-- The tree is one of the grammar, and each of its words is a proper token of its kind. -/
structure Document.WellFormed (d : Document) : Prop where
  grammatical : ∀ definition ∈ d.definitions, definition.isGrammatical = true
  proper : ∀ w ∈ d.words, w.isProper = true

end SelectionCheck
