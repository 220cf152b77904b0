import SelectionCheck.Proofs.Document.Account
import SelectionCheck.Proofs.Document.Whole

/-!
# Documents without holes

The main statement is that all nodes in the record of a document are sound if the document has no
hole. A hole shows in the pieces of a document as a piece that no token is, so a document that
spells its tokens has none. The proof goes through the tree once; every kind of node has its lemma.
-/

namespace SelectionCheck

variable {α : Type}

/-! ## Pieces without holes -/

/-- No piece is the place of a part that is missing. -/
def HoleFree (ps : List Piece) : Prop :=
  ∀ p ∈ ps, p.optional = false → p.place ≠ .recorded none

theorem Spells.holeFree {ps : List Piece} {ts : List Token} (h : Spells ps ts) : HoleFree ps := by
  intro p hp hoptional hplace
  obtain ⟨t, -, hdenotes⟩ := h.exists_denotes hp hoptional
  have hagrees := hdenotes.agrees
  rw [hplace] at hagrees
  cases hagrees

section HoleFree

variable {ps qs : List Piece}

@[simp]
theorem holeFree_nil : HoleFree [] := nofun

@[simp]
theorem holeFree_append : HoleFree (ps ++ qs) ↔ HoleFree ps ∧ HoleFree qs := by
  simp only [HoleFree, List.mem_append, or_imp, forall_and]

theorem holeFree_cons {p : Piece} :
    HoleFree (p :: ps) ↔ (p.optional = false → p.place ≠ .recorded none) ∧ HoleFree ps := by
  simp only [HoleFree, List.mem_cons, or_imp, forall_and, forall_eq]

@[simp]
theorem holeFree_mark {kind : Token.Kind} {offset : Option Nat} :
    HoleFree (.mark kind offset :: ps) ↔ offset.isSome = true ∧ HoleFree ps := by
  rw [holeFree_cons]
  cases offset <;> simp [Piece.mark]

@[simp]
theorem holeFree_lexeme {kind : Token.Kind} {text : Text} {start : Nat} :
    HoleFree (.lexeme kind text start :: ps) ↔ HoleFree ps := by
  simp [holeFree_cons, Piece.lexeme]

@[simp]
theorem not_holeFree_absent : ¬HoleFree (.absent :: ps) := by
  simp [holeFree_cons, Piece.absent]

@[simp]
theorem holeFree_name {n : Name} : HoleFree (n.piece :: ps) ↔ HoleFree ps :=
  holeFree_lexeme

@[simp]
theorem holeFree_flatMap {item : α → List Piece} {items : List α} :
    HoleFree (items.flatMap item) ↔ ∀ a ∈ items, HoleFree (item a) := by
  induction items with
  | nil => simp
  | cons a items ih => simp [ih]

@[simp]
theorem holeFree_elim {item : α → List Piece} {o : Option α} :
    HoleFree (o.elim [] item) ↔ ∀ a ∈ o, HoleFree (item a) := by
  cases o <;> simp

@[simp]
theorem holeFree_bracketed {opener closer : Token.Kind} {item : α → List Piece}
    {b : Bracketed α} :
    HoleFree (b.pieces opener closer item) ↔
      (∀ a ∈ b.items, HoleFree (item a)) ∧ b.closing.isSome = true := by
  simp [Bracketed.pieces]

end HoleFree

/-! ## Values, types and directives -/

open Record

theorem Name.clear (n : Name) : n.record.Clear .name :=
  ⟨rfl, allSound_node.2 ⟨.of_node rfl nofun (fun _ => rfl) nofun nofun nofun, by simp⟩⟩

theorem Variable.clear (v : Variable) : v.record.Clear .var :=
  .of_isPlain rfl (.cons (.offset rfl) (.cons v.name.clear.required .nil))

/-- A value is clear if the form that it takes is. -/
theorem clear_value {form : RecordKind} {before after : Nat} {r : Record} (hr : r.Clear form)
    (hwhole : (oneOf .value before r after).isWhole = true) (hstart : r.ownStart?.isSome = true) :
    (oneOf .value before r after).Clear .value := by
  refine ⟨rfl, allSound_oneOf (.of_node hwhole (fun _ => ?_) nofun nofun nofun nofun) hr.sound⟩
  rw [start?, form?_replicate hr.isA]
  exact hstart

def ObjectField.record : ObjectField → Record
  | ⟨name, colon, value⟩ =>
    .node .objectField [name.record, .offset (some colon), value.record]

theorem Value.listRecords_eq_map (values : List Value) :
    Value.listRecords values = values.map Value.record := by
  induction values with
  | nil => rfl
  | cons v vs ih => rw [Value.listRecords, ih, List.map_cons]

theorem Value.fieldRecords_eq_map (fields : List ObjectField) :
    Value.fieldRecords fields = fields.map ObjectField.record := by
  induction fields with
  | nil => rfl
  | cons f fs ih =>
      obtain ⟨name, colon, value⟩ := f
      rw [Value.fieldRecords, ih, List.map_cons]
      rfl

theorem Value.record_list (values : Bracketed Value) :
    (Value.list values).record =
      oneOf .value 3 (ofBracketed .listValue Value.record values) 1 := by
  obtain ⟨opening, items, closing⟩ := values
  rw [Value.record, Value.listRecords_eq_map]
  rfl

theorem Value.record_object (fields : Bracketed ObjectField) :
    (Value.object fields).record =
      oneOf .value 4 (ofBracketed .objectValue ObjectField.record fields) 0 := by
  obtain ⟨opening, items, closing⟩ := fields
  rw [Value.record, Value.fieldRecords_eq_map]
  rfl

mutual

theorem Value.clear : (v : Value) → HoleFree v.pieces → v.record.Clear .value
  | .null name, _ => clear_value name.clear rfl rfl
  | .scalar start kind raw, _ => by
      have hscalar : (node .scalarValue [.offset (some start), .scalarKind kind, .text raw]).Clear
          .scalarValue :=
        .of_isPlain rfl (.cons (.offset rfl) (.cons (.scalarKind kind) (.cons (.text raw) .nil)))
      exact clear_value hscalar rfl rfl
  | .var reference, _ => clear_value reference.clear rfl rfl
  | .list ⟨opening, values, closing⟩, h => by
      rw [Value.pieces_list, holeFree_bracketed] at h
      have hlist : (ofBracketed .listValue Value.record ⟨opening, values, closing⟩).Clear
          .listValue := .ofBracketed rfl rfl h.2 (Value.listClear values h.1)
      rw [Value.record_list]
      exact clear_value hlist rfl rfl
  | .object ⟨opening, fields, closing⟩, h => by
      rw [Value.pieces_object, holeFree_bracketed] at h
      have hobject : (ofBracketed .objectValue ObjectField.record ⟨opening, fields, closing⟩).Clear
          .objectValue := .ofBracketed rfl rfl h.2 (Value.fieldsClear fields h.1)
      rw [Value.record_object]
      exact clear_value hobject rfl rfl
  | .tooDeep, h | .missing, h => (not_holeFree_absent h).elim

theorem Value.listClear : (values : List Value) → (∀ v ∈ values, HoleFree v.pieces) →
    ∀ v ∈ values, v.record.Clear .value
  | [], _ => nofun
  | v :: vs, h =>
      List.forall_mem_cons.2 ⟨v.clear (h v List.mem_cons_self),
        Value.listClear vs fun w hw => h w (List.mem_cons_of_mem v hw)⟩

theorem Value.fieldsClear : (fields : List ObjectField) → (∀ f ∈ fields, HoleFree f.pieces) →
    ∀ f ∈ fields, f.record.Clear .objectField
  | [], _ => nofun
  | ⟨name, colon, value⟩ :: fs, h => by
      have hfields := List.forall_mem_cons.1 h
      have hvalue := value.clear (by simpa [ObjectField.pieces] using hfields.1)
      refine List.forall_mem_cons.2 ⟨.of_isPlain rfl ?_, Value.fieldsClear fs hfields.2⟩
      exact .cons name.clear.required (.cons (.offset rfl) (.cons hvalue.required .nil))

end

theorem DefaultValue.clear {d : DefaultValue} (h : HoleFree d.pieces) :
    d.record.Clear .defaultValue := by
  have hvalue := d.value.clear (by simpa [DefaultValue.pieces] using h)
  exact .of_isPlain rfl (.cons (.offset rfl) (.cons hvalue.required .nil))

theorem Argument.clear {a : Argument} (h : HoleFree a.pieces) : a.record.Clear .argument := by
  have hvalue := a.value.clear (by simpa [Argument.pieces] using h)
  exact .of_isPlain rfl
    (.cons a.name.clear.required (.cons (.offset rfl) (.cons hvalue.required .nil)))

/-- Optional brackets with clear items in them. -/
theorem clear_bracketed {opener closer : Token.Kind} {item : α → List Piece}
    {record : α → Record} {kind element : RecordKind} {o : Option (Bracketed α)}
    (hkind : kind.isPlain = true) (hparts : kind.parts = [.offset, .list element, .offset])
    (hitem : ∀ a, HoleFree (item a) → (record a).Clear element)
    (h : HoleFree (o.elim [] (Bracketed.pieces opener closer item))) :
    ∀ b ∈ o, (ofBracketed kind record b).Clear kind := by
  intro b hb
  obtain ⟨hitems, hclosing⟩ := holeFree_bracketed.1 (holeFree_elim.1 h b hb)
  exact .ofBracketed hkind hparts hclosing fun a ha => hitem a (hitems a ha)

theorem filled_arguments {arguments : Option (Bracketed Argument)}
    (h : HoleFree (argumentPieces arguments)) :
    Filled (.optional .arguments) (argumentsRecord arguments) :=
  .optional (clear_bracketed rfl rfl (fun _ => Argument.clear) h)

theorem Directive.clear {d : Directive} (h : HoleFree d.pieces) :
    d.record.Clear .directive := by
  have harguments := filled_arguments (by simpa [Directive.pieces] using h)
  exact .of_isPlain rfl (.cons (.offset rfl) (.cons d.name.clear.required (.cons harguments .nil)))

theorem filled_directives {directives : List Directive}
    (h : HoleFree (directives.flatMap Directive.pieces)) :
    Filled (.list .directive) (directivesRecord directives) :=
  .list fun d hd => Directive.clear (holeFree_flatMap.1 h d hd)

theorem clear_typeRef {t : TypeRef} {before after : Nat} {r : Record}
    (hrecord : t.record = oneOf .typeRef before r after)
    (hwhole : (oneOf .typeRef before r after).isWhole = true)
    (hstart : (oneOf .typeRef before r after).start?.isSome = true) (hr : r.AllSound)
    (h : t.isRead = true) : t.record.Clear .typeRef := by
  rw [hrecord]
  refine ⟨rfl, allSound_oneOf (.of_node hwhole (fun _ => hstart) nofun nofun nofun ?_) hr⟩
  exact fun _ => ⟨t, hrecord, h⟩

theorem TypeRef.isRead_of_holeFree {t : TypeRef} (h : HoleFree t.pieces) : t.isRead = true := by
  induction t with
  | named name bang => rfl
  | list opening element closing bang ih =>
      rw [pieces, holeFree_mark, holeFree_append] at h
      exact ih h.2.1
  | missing => exact (not_holeFree_absent h).elim

theorem TypeRef.clear (t : TypeRef) (h : HoleFree t.pieces) : t.record.Clear .typeRef := by
  have hread := isRead_of_holeFree h
  induction t with
  | named name bang =>
      cases bang with
      | none => exact clear_typeRef rfl rfl rfl name.clear.sound hread
      | some bang =>
          have hnonNull : (node .nonNullType [name.record, .nothing, .offset (some bang)]).AllSound :=
            allSound_node.2 ⟨.of_node rfl nofun nofun nofun nofun nofun, by simp [name.clear.sound]⟩
          exact clear_typeRef rfl rfl rfl hnonNull hread
  | list opening element closing bang ih =>
      rw [pieces, holeFree_mark, holeFree_append, holeFree_mark] at h
      obtain ⟨-, helement, hclosing, -⟩ := h
      have hlist : (node .listType [.offset (some opening), element.record, .offset closing]).Clear
          .listType :=
        .of_isPlain rfl
          (.cons (.offset rfl) (.cons (ih helement hread).required (.cons (.offset hclosing) .nil)))
      cases bang with
      | none => exact clear_typeRef rfl rfl rfl hlist.sound hread
      | some bang =>
          have hnonNull : (node .nonNullType [.nothing,
              .node .listType [.offset (some opening), element.record, .offset closing],
              .offset (some bang)]).AllSound :=
            allSound_node.2 ⟨.of_node rfl nofun nofun nofun nofun nofun, by simp [hlist.sound]⟩
          exact clear_typeRef rfl rfl rfl hnonNull hread
  | missing => exact (not_holeFree_absent h).elim

/-! ## Operations and fragments -/

theorem TypeCondition.clear (c : TypeCondition) : c.record.Clear .typeCondition :=
  .of_isPlain rfl (.cons (.offset rfl) (.cons c.name.clear.required .nil))

theorem Selection.listRecords_eq_map (selections : List Selection) :
    Selection.listRecords selections = selections.map Selection.record := by
  induction selections with
  | nil => rfl
  | cons s ss ih => rw [Selection.listRecords, ih, List.map_cons]

theorem Selection.setRecord_eq (set : SelectionSet) :
    Selection.setRecord set = ofBracketed .selectionSet Selection.record set := by
  obtain ⟨opening, items, closing⟩ := set
  rw [Selection.setRecord, Selection.listRecords_eq_map]
  rfl

theorem Selection.setRecord?_eq (set : Option SelectionSet) :
    Selection.setRecord? set = ofOption (ofBracketed .selectionSet Selection.record) set := by
  cases set with
  | none => rfl
  | some set => rw [Selection.setRecord?, Selection.setRecord_eq]; rfl

theorem clear_selection {before after : Nat} {r : Record}
    (hwhole : (oneOf .selection before r after).isWhole = true)
    (hstart : (oneOf .selection before r after).start?.isSome = true) (hr : r.AllSound) :
    (oneOf .selection before r after).Clear .selection :=
  ⟨rfl, allSound_oneOf (.of_node hwhole (fun _ => hstart) nofun nofun nofun nofun) hr⟩

theorem isSome_bracketStop? {kind : RecordKind} {record : α → Record} {b : Bracketed α}
    (h : b.closing.isSome = true) : (ofBracketed kind record b).bracketStop?.isSome = true := by
  obtain ⟨closing, hclosing⟩ := Option.isSome_iff_exists.1 h
  simp [ofBracketed, bracketStop?, hclosing]

/-- A field is clear if its parts are there and it has a key and an end. -/
theorem clear_field {parts : List Record}
    (hparts : List.Forall₂ Filled RecordKind.field.parts parts)
    (hkey : (node .field parts).key?.isSome = true)
    (hstop : (node .field parts).stop?.isSome = true) :
    (oneOf .selection 0 (node .field parts) 2).Clear .selection := by
  have hstart : (node .field parts).start?.isSome = true := Option.isSome_map.trans hkey
  have hfield : (node .field parts).AllSound :=
    allSound_node.2 ⟨.of_node (isWhole_of_filled rfl hparts) (fun _ => hstart) (fun _ => hstop)
      (fun _ => hkey) nofun nofun, allSound_of_filled hparts⟩
  exact clear_selection rfl hstart hfield

theorem Selection.clear_of_set {aliasName : Option Name} {name : Name}
    {arguments : Option (Bracketed Argument)} {directives : List Directive}
    {selections : Option SelectionSet} (harguments : HoleFree (argumentPieces arguments))
    (hdirectives : HoleFree (directives.flatMap Directive.pieces))
    (hclosing : ∀ set ∈ selections, set.closing.isSome = true)
    (hselections : ∀ set ∈ selections, ∀ s ∈ set.items, s.record.Clear .selection) :
    (Selection.field aliasName name arguments directives selections).record.Clear .selection := by
  rw [Selection.record, Selection.setRecord?_eq]
  refine clear_field ?_ ?_ ?_
  · have hset : ∀ set ∈ selections, (ofBracketed .selectionSet Selection.record set).Clear
        .selectionSet :=
      fun set hs => .ofBracketed rfl rfl (hclosing set hs) (hselections set hs)
    exact .cons (.optional fun n _ => n.clear) (.cons name.clear.required
      (.cons (filled_arguments harguments) (.cons (filled_directives hdirectives)
        (.cons (.optional hset) .nil))))
  · cases aliasName <;> rfl
  · cases selections with
    | some set => exact isSome_bracketStop? (hclosing set rfl)
    | none =>
        cases arguments with
        | some list => exact isSome_bracketStop? (holeFree_bracketed.1 harguments).2
        | none => rfl

mutual

theorem Selection.clear : (s : Selection) → HoleFree s.pieces → s.record.Clear .selection
  | .field aliasName name arguments directives none, h => by
      rw [Selection.pieces_field] at h
      simp only [holeFree_append, holeFree_name] at h
      exact Selection.clear_of_set h.2.1 h.2.2.1 nofun nofun
  | .field aliasName name arguments directives (some ⟨opening, selections, closing⟩), h => by
      rw [Selection.pieces_field] at h
      simp only [holeFree_append, holeFree_name] at h
      obtain ⟨hitems, hclosing⟩ := holeFree_bracketed.1 h.2.2.2
      have hselections := Selection.listClear selections hitems
      refine Selection.clear_of_set h.2.1 h.2.2.1 ?_ ?_
      · rintro _ ⟨⟩
        exact hclosing
      · rintro _ ⟨⟩
        exact hselections
  | .spread ellipsis name directives, h => by
      rw [Selection.pieces] at h
      simp only [holeFree_mark, holeFree_name] at h
      have hspread : (node .spread [.offset (some ellipsis), name.record,
          directivesRecord directives]).Clear .spread :=
        .of_isPlain rfl (.cons (.offset rfl)
          (.cons name.clear.required (.cons (filled_directives h.2) .nil)))
      exact clear_selection rfl rfl hspread.sound
  | .inline ellipsis condition directives ⟨opening, selections, closing⟩, h => by
      rw [Selection.pieces_inline] at h
      simp only [holeFree_mark, holeFree_append] at h
      obtain ⟨hitems, hclosing⟩ := holeFree_bracketed.1 h.2.2.2
      have hset : (ofBracketed .selectionSet Selection.record ⟨opening, selections, closing⟩).Clear
          .selectionSet := .ofBracketed rfl rfl hclosing (Selection.listClear selections hitems)
      have hinline : (node .inline [.offset (some ellipsis),
          ofOption TypeCondition.record condition, directivesRecord directives,
          ofBracketed .selectionSet Selection.record ⟨opening, selections, closing⟩]).Clear
          .inline :=
        .of_isPlain rfl (.cons (.offset rfl) (.cons (.optional fun c _ => c.clear)
          (.cons (filled_directives h.2.2.1) (.cons hset.required .nil))))
      rw [Selection.record, Selection.setRecord_eq]
      exact clear_selection rfl rfl hinline.sound

theorem Selection.listClear : (selections : List Selection) →
    (∀ s ∈ selections, HoleFree s.pieces) → ∀ s ∈ selections, s.record.Clear .selection
  | [], _ => nofun
  | s :: ss, h =>
      List.forall_mem_cons.2 ⟨s.clear (h s List.mem_cons_self),
        Selection.listClear ss fun t ht => h t (List.mem_cons_of_mem s ht)⟩

end

theorem SelectionSet.clear {set : SelectionSet} (h : HoleFree set.pieces) :
    (Selection.setRecord set).Clear .selectionSet := by
  obtain ⟨hitems, hclosing⟩ := holeFree_bracketed.1 h
  rw [Selection.setRecord_eq]
  exact .ofBracketed rfl rfl hclosing fun s hs => s.clear (hitems s hs)

theorem filled_default {value : Option DefaultValue}
    (h : HoleFree (value.elim [] DefaultValue.pieces)) :
    Filled (.optional .defaultValue) (ofOption DefaultValue.record value) :=
  .optional fun d hd => DefaultValue.clear (holeFree_elim.1 h d hd)

theorem VariableDefinition.clear {d : VariableDefinition} (h : HoleFree d.pieces) :
    d.record.Clear .variableDefinition := by
  rw [pieces] at h
  simp only [holeFree_append, holeFree_mark] at h
  obtain ⟨-, hcolon, htype, hdefault⟩ := h
  exact .of_isPlain rfl (.cons d.var.clear.required (.cons (.offset hcolon)
    (.cons (d.type.clear htype).required (.cons (filled_default hdefault) .nil))))

theorem Operation.holeFree_pieces_iff {o : Operation} :
    HoleFree o.pieces ↔
      HoleFree (o.parameters.elim []
          (Bracketed.pieces .lparen .rparen VariableDefinition.pieces)) ∧
        HoleFree (o.directives.flatMap Directive.pieces) ∧ HoleFree o.selections.pieces := by
  rw [pieces]
  split
  · next hshorthand =>
      simp only [isShorthand, Bool.and_eq_true, Option.isNone_iff_eq_none,
        List.isEmpty_iff] at hshorthand
      obtain ⟨⟨-, hparameters⟩, hdirectives⟩ := hshorthand
      simp [hparameters, hdirectives]
  · cases o.name <;> simp

theorem Operation.clear {o : Operation} (h : HoleFree o.pieces) : o.record.Clear .operation := by
  obtain ⟨hparameters, hdirectives, hset⟩ := holeFree_pieces_iff.1 h
  have hvariables : ∀ list ∈ o.parameters,
      (ofBracketed .variableDefinitions VariableDefinition.record list).Clear .variableDefinitions :=
    clear_bracketed rfl rfl (fun _ => VariableDefinition.clear) hparameters
  exact .of_isPlain rfl (.cons (.offset rfl) (.cons (.operationType o.type)
    (.cons (.optional fun n _ => n.clear) (.cons (.optional hvariables)
      (.cons (filled_directives hdirectives) (.cons (SelectionSet.clear hset).required .nil))))))

theorem Fragment.clear {f : Fragment} (h : HoleFree f.pieces) : f.record.Clear .fragment := by
  rw [pieces] at h
  simp only [holeFree_lexeme, holeFree_name, holeFree_append] at h
  obtain ⟨-, hdirectives, hset⟩ := h
  exact .of_isPlain rfl (.cons (.offset rfl) (.cons f.name.clear.required
    (.cons f.condition.clear.required (.cons (filled_directives hdirectives)
      (.cons (SelectionSet.clear hset).required .nil)))))

/-! ## Type definitions -/

theorem filled_description (description : Option Description) :
    Filled (.optional .description) (ofOption Description.record description) :=
  .optional fun d _ => .of_isPlain rfl (.cons (.offset rfl) (.cons (.text d.raw) .nil))

theorem filled_slot {slot : Slot} (h : slot.offset?.isSome = true) :
    Filled .offset (ofSlot slot) := by
  cases slot with
  | found start => exact .offset rfl
  | unread => cases h
  | missing => cases h

theorem filled_names (names : List Name) :
    Filled (.list .name) (.list (names.map Name.record)) :=
  .list fun n _ => n.clear

theorem filled_body {item : α → List Piece} {record : α → Record} {kind element : RecordKind}
    {items : Option (Bracketed α)} (hkind : kind.isPlain = true)
    (hparts : kind.parts = [.offset, .list element, .offset])
    (hitem : ∀ a, HoleFree (item a) → (record a).Clear element)
    (h : HoleFree (bodyPieces item items)) :
    Filled (.required kind) (ofOption (ofBracketed kind record) items) := by
  cases items with
  | none => exact (not_holeFree_absent h).elim
  | some b =>
      obtain ⟨hitems, hclosing⟩ := holeFree_bracketed.1 h
      exact (Clear.ofBracketed hkind hparts hclosing fun a ha => hitem a (hitems a ha)).required

theorem InputValueDefinition.clear {d : InputValueDefinition} (h : HoleFree d.pieces) :
    d.record.Clear .inputValueDefinition := by
  rw [pieces] at h
  simp only [holeFree_append, holeFree_name, holeFree_mark] at h
  obtain ⟨-, hcolon, htype, hdefault⟩ := h
  exact .of_isPlain rfl (.cons (filled_description d.description) (.cons d.name.clear.required
    (.cons (.offset hcolon) (.cons (d.type.clear htype).required
      (.cons (filled_default hdefault) .nil)))))

theorem FieldDefinition.clear {d : FieldDefinition} (h : HoleFree d.pieces) :
    d.record.Clear .fieldDefinition := by
  rw [pieces] at h
  simp only [holeFree_append, holeFree_name, holeFree_mark] at h
  obtain ⟨-, harguments, hcolon, htype, hdirectives⟩ := h
  have hlist : ∀ list ∈ d.arguments,
      (ofBracketed .argumentDefinitions InputValueDefinition.record list).Clear
        .argumentDefinitions :=
    clear_bracketed rfl rfl (fun _ => InputValueDefinition.clear) harguments
  exact .of_isPlain rfl (.cons (filled_description d.description) (.cons d.name.clear.required
    (.cons (.optional hlist) (.cons (filled_slot hcolon) (.cons (d.type.clear htype).required
      (.cons (filled_directives hdirectives) .nil))))))

theorem EnumValueDefinition.clear {d : EnumValueDefinition} (h : HoleFree d.pieces) :
    d.record.Clear .enumValueDefinition := by
  rw [pieces] at h
  simp only [holeFree_append, holeFree_name] at h
  exact .of_isPlain rfl (.cons (filled_description d.description) (.cons d.value.clear.required
    (.cons (filled_directives h.2) .nil)))

theorem filled_fields {fields : Option (Bracketed FieldDefinition)}
    (h : HoleFree (bodyPieces FieldDefinition.pieces fields)) :
    Filled (.required .fieldDefinitions)
      (ofOption (ofBracketed .fieldDefinitions FieldDefinition.record) fields) :=
  filled_body rfl rfl (fun _ => FieldDefinition.clear) h

theorem TypeBody.filled {body : TypeBody} (h : HoleFree body.pieces) :
    ∃ parts, body.recordKind.parts = .optional .description :: .offset :: .required .name :: parts ∧
      List.Forall₂ Filled parts body.records := by
  cases body with
  | scalar => exact ⟨_, rfl, .nil⟩
  | object interfaces fields =>
      have hfields := filled_fields (holeFree_append.1 h).2
      exact ⟨_, rfl, .cons (filled_names interfaces) (.cons hfields .nil)⟩
  | interface fields => exact ⟨_, rfl, .cons (filled_fields h) .nil⟩
  | union equals members =>
      have hequals := filled_slot (holeFree_mark.1 h).1
      exact ⟨_, rfl, .cons hequals (.cons (filled_names members) .nil)⟩
  | enum values =>
      have hvalues : Filled (.required .enumValueDefinitions)
          (ofOption (ofBracketed .enumValueDefinitions EnumValueDefinition.record) values) :=
        filled_body rfl rfl (fun _ => EnumValueDefinition.clear) h
      exact ⟨_, rfl, .cons hvalues .nil⟩
  | input fields =>
      have hfields : Filled (.required .inputFieldDefinitions)
          (ofOption (ofBracketed .inputFieldDefinitions InputValueDefinition.record) fields) :=
        filled_body rfl rfl (fun _ => InputValueDefinition.clear) h
      exact ⟨_, rfl, .cons hfields .nil⟩

theorem TypeDefinition.clear_formRecord {d : TypeDefinition} {name : Name}
    (hname : d.name = some name) (h : HoleFree d.body.pieces) :
    d.formRecord.Clear d.body.recordKind := by
  obtain ⟨parts, hparts, hrecords⟩ := TypeBody.filled h
  refine .of_isPlain (by cases d.body <;> rfl) ?_
  rw [hparts, hname]
  exact .cons (filled_description d.description)
    (.cons (.offset rfl) (.cons name.clear.required hrecords))

theorem TypeDefinition.clear {d : TypeDefinition} (h : HoleFree d.pieces) :
    d.record.Clear .typeDefinition := by
  rw [pieces, holeFree_append, holeFree_lexeme] at h
  cases hname : d.name with
  | none =>
      rw [hname] at h
      exact (not_holeFree_absent h.2).elim
  | some name =>
      rw [hname] at h
      have hform := clear_formRecord hname (holeFree_name.1 h.2)
      refine ⟨rfl, allSound_oneOf (.of_node ?_ ?_ nofun nofun ?_ nofun) hform.sound⟩
      · rw [formRecord]
        cases d.body <;> rfl
      · intro _
        rw [start?, typeStart?, form?_replicate hform.isA, formRecord]
        cases d.description <;> rfl
      · intro _
        rw [typeName?, form?_replicate hform.isA, formRecord, hname]
        rfl

theorem RootDefinition.clear (d : RootDefinition) : d.record.Clear .rootDefinition :=
  .of_isPlain rfl (.cons (.operationType d.operation) (.cons (.offset rfl) (.cons (.offset rfl)
    (.cons d.type.clear.required .nil))))

theorem SchemaDefinition.clear {d : SchemaDefinition} (h : HoleFree d.pieces) :
    d.record.Clear .schemaDefinition := by
  rw [pieces, holeFree_lexeme, holeFree_bracketed] at h
  exact .of_isPlain rfl (.cons (.offset rfl) (.cons (.offset rfl)
    (.cons (.list fun root _ => root.clear) (.cons (.offset h.2) .nil))))

/-! ## Documents -/

theorem clear_definition {form : RecordKind} {before after : Nat} {r : Record} (hr : r.Clear form)
    (hwhole : (oneOf .definition before r after).isWhole = true)
    (hstart : (if r.isA .typeDefinition then r.typeStart? else r.ownStart?).isSome = true) :
    (oneOf .definition before r after).Clear .definition := by
  refine ⟨rfl, allSound_oneOf (.of_node hwhole (fun _ => ?_) nofun nofun nofun nofun) hr.sound⟩
  rw [start?, form?_replicate hr.isA]
  exact hstart

theorem Definition.clear {d : Definition} (h : HoleFree d.pieces) :
    d.record.Clear .definition := by
  cases d with
  | operation o => exact clear_definition (Operation.clear h) rfl rfl
  | fragment f => exact clear_definition (Fragment.clear h) rfl rfl
  | type d =>
      have hd := TypeDefinition.clear h
      obtain ⟨forms, hforms⟩ := exists_of_isA hd.isA
      rw [record]
      rw [hforms] at hd ⊢
      exact clear_definition hd rfl (hd.self.start .typeDefinition rfl rfl)
  | schema d => exact clear_definition (SchemaDefinition.clear h) rfl rfl

theorem Document.clear {d : Document} (h : HoleFree d.pieces) : d.record.Clear .document := by
  have hdefinitions := holeFree_flatMap.1 h
  exact .of_isPlain rfl
    (.cons (.list fun definition hd => Definition.clear (hdefinitions definition hd)) .nil)

end SelectionCheck
