import SelectionCheck.Proofs.Document.WellFormed

/-!
# The strings of a document

The strings of a document are its descriptions and its string values, in the order in which they
are written. They do not depend on offsets, so documents of the same shape have the same strings;
this is so even for a query that one of them writes in shorthand and the other does not, since the
keyword is no string. The last word of a document is never a string.
-/

namespace SelectionCheck

/-! ## Values, types and directives -/

theorem strings_flatMap {α : Type} {pieces : α → List Piece} {erase : α → α}
    (h : ∀ a, Word.strings (words (pieces (erase a))) = Word.strings (words (pieces a)))
    (items : List α) :
    Word.strings (words ((items.map erase).flatMap pieces)) =
      Word.strings (words (items.flatMap pieces)) := by
  induction items with
  | nil => rfl
  | cons a items ih =>
      rw [List.map_cons, List.flatMap_cons, List.flatMap_cons, words_append, words_append,
        Word.strings_append, Word.strings_append, h, ih]

theorem strings_bracketed {α : Type} {opener closer : Token.Kind} {pieces : α → List Piece}
    {erase : α → α}
    (h : ∀ a, Word.strings (words (pieces (erase a))) = Word.strings (words (pieces a)))
    (b : Bracketed α) :
    Word.strings (words ((b.erase erase).pieces opener closer pieces)) =
      Word.strings (words (b.pieces opener closer pieces)) := by
  simp [Bracketed.pieces, Bracketed.erase, strings_flatMap h]

theorem strings_optional {α : Type} {pieces : α → List Piece} {erase : α → α}
    (h : ∀ a, Word.strings (words (pieces (erase a))) = Word.strings (words (pieces a)))
    (o : Option α) :
    Word.strings (words ((o.map erase).elim [] pieces)) =
      Word.strings (words (o.elim [] pieces)) := by
  cases o with
  | none => rfl
  | some a => exact h a

mutual

theorem Value.strings_erase : ∀ v : Value,
    Word.strings (words v.erase.pieces) = Word.strings (words v.pieces)
  | .null name => rfl
  | .scalar start kind raw => rfl
  | .var reference => rfl
  | .list ⟨opening, values, closing⟩ => by
      simp [Value.erase, Value.pieces, Value.listStrings_erase values]
  | .object ⟨opening, fields, closing⟩ => by
      simp [Value.erase, Value.pieces, Value.fieldStrings_erase fields]
  | .tooDeep => rfl
  | .missing => rfl

theorem Value.listStrings_erase : ∀ values : List Value,
    Word.strings (words (Value.listPieces (Value.eraseList values))) =
      Word.strings (words (Value.listPieces values))
  | [] => rfl
  | v :: values => by
      simp [Value.eraseList, Value.listPieces, Value.strings_erase v,
        Value.listStrings_erase values]

theorem Value.fieldStrings_erase : ∀ fields : List ObjectField,
    Word.strings (words (Value.fieldPieces (Value.eraseFields fields))) =
      Word.strings (words (Value.fieldPieces fields))
  | [] => rfl
  | ⟨name, colon, value⟩ :: fields => by
      simp [Value.eraseFields, Value.fieldPieces, Value.strings_erase value,
        Value.fieldStrings_erase fields]

end

theorem DefaultValue.strings_erase (d : DefaultValue) :
    Word.strings (words d.erase.pieces) = Word.strings (words d.pieces) := by
  simp [DefaultValue.erase, DefaultValue.pieces, Value.strings_erase]

theorem Argument.strings_erase (a : Argument) :
    Word.strings (words a.erase.pieces) = Word.strings (words a.pieces) := by
  simp [Argument.erase, Argument.pieces, Value.strings_erase]

theorem strings_arguments (o : Option (Bracketed Argument)) :
    Word.strings (words (argumentPieces (o.map (Bracketed.erase Argument.erase)))) =
      Word.strings (words (argumentPieces o)) :=
  strings_optional (strings_bracketed Argument.strings_erase) o

theorem Directive.strings_erase (d : Directive) :
    Word.strings (words d.erase.pieces) = Word.strings (words d.pieces) := by
  simp [Directive.erase, Directive.pieces, strings_arguments]

theorem TypeRef.strings_eq_nil (type : TypeRef) : Word.strings (words type.pieces) = [] := by
  have hbang : ∀ bang, Word.strings (words (bangPieces bang)) = [] := by
    intro bang
    cases bang <;> rfl
  induction type with
  | named name bang => simp [TypeRef.pieces, hbang]
  | list opening element closing bang ih => simp [TypeRef.pieces, hbang, ih]
  | missing => rfl

theorem TypeCondition.strings_erase (c : TypeCondition) :
    Word.strings (words c.erase.pieces) = Word.strings (words c.pieces) := rfl

theorem strings_alias (o : Option Name) :
    Word.strings (words (aliasPieces (o.map Name.erase))) =
      Word.strings (words (aliasPieces o)) := by
  cases o with
  | none => rfl
  | some n => rfl

/-! ## Operations and fragments -/

mutual

theorem Selection.strings_erase : ∀ s : Selection,
    Word.strings (words s.erase.pieces) = Word.strings (words s.pieces)
  | .field aliasName name arguments directives none => by
      simp [Selection.erase, Selection.pieces, strings_alias, strings_arguments,
        strings_flatMap Directive.strings_erase]
  | .field aliasName name arguments directives (some ⟨opening, selections, closing⟩) => by
      simp [Selection.erase, Selection.pieces, strings_alias, strings_arguments,
        strings_flatMap Directive.strings_erase, Selection.listStrings_erase selections]
  | .spread ellipsis name directives => by
      simp [Selection.erase, Selection.pieces, strings_flatMap Directive.strings_erase]
  | .inline ellipsis condition directives ⟨opening, selections, closing⟩ => by
      simp [-Option.elim_map, Selection.erase, Selection.pieces,
        strings_flatMap Directive.strings_erase, strings_optional TypeCondition.strings_erase,
        Selection.listStrings_erase selections]

theorem Selection.listStrings_erase : ∀ selections : List Selection,
    Word.strings (words (Selection.listPieces (Selection.eraseList selections))) =
      Word.strings (words (Selection.listPieces selections))
  | [] => rfl
  | s :: selections => by
      simp [Selection.eraseList, Selection.listPieces, Selection.strings_erase s,
        Selection.listStrings_erase selections]

end

theorem SelectionSet.strings_erase (set : SelectionSet) :
    Word.strings (words set.erase.pieces) = Word.strings (words set.pieces) :=
  strings_bracketed Selection.strings_erase set

theorem VariableDefinition.strings_erase (d : VariableDefinition) :
    Word.strings (words d.erase.pieces) = Word.strings (words d.pieces) := by
  simp [-Option.elim_map, VariableDefinition.erase, VariableDefinition.pieces,
    TypeRef.strings_eq_nil, strings_optional DefaultValue.strings_erase, Variable.erase,
    Variable.pieces]

/-- The strings of an operation, whether or not it is written in shorthand. -/
theorem Operation.strings_pieces (o : Operation) :
    Word.strings (words o.pieces) =
      Word.strings (words
        (o.parameters.elim [] (Bracketed.pieces .lparen .rparen VariableDefinition.pieces))) ++
      (Word.strings (words (o.directives.flatMap Directive.pieces)) ++
        Word.strings (words o.selections.pieces)) := by
  rw [Operation.pieces]
  split
  · next hshort =>
      simp only [Operation.isShorthand, Bool.and_eq_true, Option.isNone_iff_eq_none,
        List.isEmpty_iff] at hshort
      simp [hshort.1.2, hshort.2]
  · cases o.name with
    | none => simp
    | some n => simp

theorem Operation.strings_erase (o : Operation) :
    Word.strings (words o.erase.pieces) = Word.strings (words o.pieces) := by
  rw [Operation.strings_pieces, Operation.strings_pieces]
  simp [-Option.elim_map, Operation.erase,
    strings_optional (strings_bracketed VariableDefinition.strings_erase),
    strings_flatMap Directive.strings_erase, SelectionSet.strings_erase]

theorem Fragment.strings_erase (f : Fragment) :
    Word.strings (words f.erase.pieces) = Word.strings (words f.pieces) := by
  simp [Fragment.erase, Fragment.pieces, TypeCondition.strings_erase,
    strings_flatMap Directive.strings_erase, SelectionSet.strings_erase]

/-! ## Type definitions -/

theorem strings_description (o : Option Description) :
    Word.strings (words ((o.map Description.erase).toList.map Description.piece)) =
      Word.strings (words (o.toList.map Description.piece)) := by
  cases o with
  | none => rfl
  | some d => rfl

theorem InputValueDefinition.strings_erase (d : InputValueDefinition) :
    Word.strings (words d.erase.pieces) = Word.strings (words d.pieces) := by
  simp only [InputValueDefinition.erase, InputValueDefinition.pieces, words_append,
    Word.strings_append, strings_description, words_name, words_mark, Word.strings_cons,
    TypeRef.strings_eq_nil, strings_optional DefaultValue.strings_erase]
  rfl

theorem FieldDefinition.strings_erase (d : FieldDefinition) :
    Word.strings (words d.erase.pieces) = Word.strings (words d.pieces) := by
  simp only [FieldDefinition.erase, FieldDefinition.pieces, words_append, Word.strings_append,
    strings_description, words_name, words_mark, Word.strings_cons, TypeRef.strings_eq_nil,
    strings_optional (strings_bracketed InputValueDefinition.strings_erase),
    strings_flatMap Directive.strings_erase]
  rfl

theorem EnumValueDefinition.strings_erase (d : EnumValueDefinition) :
    Word.strings (words d.erase.pieces) = Word.strings (words d.pieces) := by
  simp only [EnumValueDefinition.erase, EnumValueDefinition.pieces, words_append,
    Word.strings_append, strings_description, words_name, Word.strings_cons,
    strings_flatMap Directive.strings_erase]
  rfl

theorem strings_names (kind : Token.Kind) (names : List Name) (hkind : kind ≠ .string) :
    Word.strings (words (separatedPieces kind names)) = [] := by
  induction names with
  | nil => rfl
  | cons n names ih =>
      cases names with
      | nil => rfl
      | cons m names => simpa [separatedPieces, hkind] using ih

theorem strings_body {α : Type} {pieces : α → List Piece} {erase : α → α}
    (h : ∀ a, Word.strings (words (pieces (erase a))) = Word.strings (words (pieces a)))
    (o : Option (Bracketed α)) :
    Word.strings (words (bodyPieces pieces (o.map (Bracketed.erase erase)))) =
      Word.strings (words (bodyPieces pieces o)) := by
  cases o with
  | none => rfl
  | some b => exact strings_bracketed h b

theorem strings_implements (interfaces : List Name) :
    Word.strings (words (implementsPieces interfaces)) = [] := by
  cases interfaces with
  | nil => rfl
  | cons n names =>
      simp [implementsPieces, namePieces, strings_names .ampersand _ (by decide)]

theorem TypeBody.strings_erase (body : TypeBody) :
    Word.strings (words body.erase.pieces) = Word.strings (words body.pieces) := by
  cases body with
  | scalar => rfl
  | object interfaces fields =>
      rw [TypeBody.erase, TypeBody.pieces, TypeBody.pieces, words_append, words_append,
        Word.strings_append, Word.strings_append, strings_implements, strings_implements,
        strings_body FieldDefinition.strings_erase]
  | interface fields => exact strings_body FieldDefinition.strings_erase fields
  | union equals members =>
      simp [TypeBody.erase, TypeBody.pieces, namePieces, strings_names .bar _ (by decide)]
  | enum values => exact strings_body EnumValueDefinition.strings_erase values
  | input fields => exact strings_body InputValueDefinition.strings_erase fields

theorem TypeBody.form_erase (body : TypeBody) : body.erase.form = body.form := by
  cases body <;> rfl

theorem TypeDefinition.strings_erase (d : TypeDefinition) :
    Word.strings (words d.erase.pieces) = Word.strings (words d.pieces) := by
  have hname : ∀ (o : Option Name) (ps : List Piece),
      Word.strings (words (o.elim .absent Name.piece :: ps)) = Word.strings (words ps) := by
    intro o ps
    cases o with
    | none => rfl
    | some n => rfl
  rw [TypeDefinition.pieces, TypeDefinition.pieces, TypeDefinition.erase, words_append,
    words_append, Word.strings_append, Word.strings_append, strings_description, words_lexeme,
    words_lexeme, Word.strings_cons, Word.strings_cons, hname, hname, TypeBody.strings_erase,
    TypeBody.form_erase]

theorem SchemaDefinition.strings_erase (d : SchemaDefinition) :
    Word.strings (words d.erase.pieces) = Word.strings (words d.pieces) := by
  have hroot : ∀ r : RootDefinition,
      Word.strings (words r.erase.pieces) = Word.strings (words r.pieces) := fun _ => rfl
  simp [SchemaDefinition.erase, SchemaDefinition.pieces, strings_bracketed hroot]

/-! ## Documents -/

theorem Definition.strings_erase (d : Definition) :
    Word.strings (words d.erase.pieces) = Word.strings (words d.pieces) := by
  cases d with
  | operation o => exact o.strings_erase
  | fragment f => exact f.strings_erase
  | type d => exact d.strings_erase
  | schema d => exact d.strings_erase

/-- Documents of the same shape have the same strings. -/
theorem Document.strings_erase (d : Document) :
    Word.strings d.erase.words = Word.strings d.words :=
  strings_flatMap Definition.strings_erase d.definitions

/-- Tokens that spell a sequence of pieces have the strings of these pieces. -/
theorem Spells.strings_eq {ps : List Piece} {ts : List Token} (h : Spells ps ts) :
    Word.strings (ts.map Token.word) = Word.strings (words ps) := by
  have hoptional : ∀ p : Piece, p.optional = true → p.kind ≠ .string := by
    rintro p hp hkind
    exact p.spelling_ne hp (by rw [hkind]; rfl)
  induction h with
  | nil => rfl
  | @take p t ps ts hdenotes _ ih =>
      rw [List.map_cons, Word.strings_cons, ih]
      cases hp : p.optional with
      | true =>
          have hkind : t.word.kind ≠ .string := by
            rw [Token.word, hdenotes.kind_eq]
            exact hoptional p hp
          rw [if_neg hkind]
          simp [words, hp]
      | false =>
          have hword : t.word = p.word := by
            rw [Token.word, Piece.word, hdenotes.kind_eq, hdenotes.text_eq]
          have hwords : words (p :: ps) = p.word :: words ps := by simp [words, hp]
          rw [hwords, Word.strings_cons, hword]
  | @skip p ps ts hp _ ih =>
      rw [ih]
      simp [words, hp]

/-! ## The last word -/

/-- The last word is there, and it is no string. -/
def EndsPlain (ws : List Word) : Prop :=
  ∃ init w, ws = init ++ [w] ∧ w.kind ≠ .string

theorem EndsPlain.append {ws : List Word} (h : EndsPlain ws) (vs : List Word) :
    EndsPlain (vs ++ ws) := by
  obtain ⟨init, w, rfl, hkind⟩ := h
  exact ⟨vs ++ init, w, by rw [List.append_assoc], hkind⟩

theorem EndsPlain.cons {ws : List Word} (h : EndsPlain ws) (w : Word) : EndsPlain (w :: ws) :=
  h.append [w]

theorem endsPlain_word (kind : Token.Kind) (h : kind ≠ .string) {text : Text} :
    EndsPlain [⟨kind, text⟩] :=
  ⟨[], ⟨kind, text⟩, rfl, h⟩

theorem endsPlain_bracketed {α : Type} {opener closer : Token.Kind} (hcloser : closer ≠ .string)
    (item : α → List Piece) (b : Bracketed α) :
    EndsPlain (words (b.pieces opener closer item)) := by
  rw [Bracketed.pieces, words_mark, words_append]
  exact ((endsPlain_word closer hcloser).append _).cons _

theorem endsPlain_separated (kind : Token.Kind) (names : List Name) :
    EndsPlain (words (separatedPieces kind names)) := by
  induction names with
  | nil => exact endsPlain_word .unknown (by decide)
  | cons n names ih =>
      cases names with
      | nil => exact endsPlain_word .name (by decide)
      | cons m names => exact (ih.cons _).cons _

theorem endsPlain_body {α : Type} (item : α → List Piece) (o : Option (Bracketed α)) :
    EndsPlain (words (bodyPieces item o)) := by
  cases o with
  | none => exact endsPlain_word .unknown (by decide)
  | some b => exact endsPlain_bracketed (by decide) item b

theorem TypeDefinition.endsPlain (d : TypeDefinition) : EndsPlain (words d.pieces) := by
  have hname : EndsPlain (words [d.name.elim .absent Name.piece]) := by
    cases d.name with
    | none => exact endsPlain_word .unknown (by decide)
    | some n => exact endsPlain_word .name (by decide)
  have hbody : EndsPlain (words (d.name.elim .absent Name.piece :: d.body.pieces)) := by
    rw [← List.singleton_append, words_append]
    cases d.body with
    | scalar => simpa [TypeBody.pieces] using hname
    | object interfaces fields =>
        rw [TypeBody.pieces, words_append]
        exact ((endsPlain_body _ fields).append _).append _
    | interface fields => exact (endsPlain_body _ fields).append _
    | union equals members => exact ((endsPlain_separated .bar members).cons _).append _
    | enum values => exact (endsPlain_body _ values).append _
    | input fields => exact (endsPlain_body _ fields).append _
  rw [TypeDefinition.pieces, words_append, words_lexeme]
  exact (hbody.cons _).append _

theorem Definition.endsPlain (d : Definition) : EndsPlain (words d.pieces) := by
  have hset : ∀ set : SelectionSet, EndsPlain (words set.pieces) :=
    fun set => endsPlain_bracketed (by decide) _ set
  cases d with
  | operation o =>
      rw [Definition.pieces, Operation.pieces]
      split
      · exact hset o.selections
      · simp only [words_lexeme, words_append]
        exact ((((hset o.selections).append _).append _).append _).cons _
  | fragment f =>
      simp only [Definition.pieces, Fragment.pieces, words_lexeme, words_name, words_append]
      exact ((((hset f.selections).append _).append _).cons _).cons _
  | type d => exact d.endsPlain
  | schema d => exact (endsPlain_bracketed (by decide) _ d.roots).cons _

/-- The last word of a document is no string. -/
theorem Document.getLast?_words (d : Document) : ∀ w ∈ d.words.getLast?, w.kind ≠ .string := by
  obtain ⟨definitions⟩ := d
  rw [Document.words, Document.pieces]
  rcases List.eq_nil_or_concat definitions with rfl | ⟨init, last, rfl⟩
  · nofun
  · rw [List.concat_eq_append, List.flatMap_append, words_append]
    obtain ⟨ws, w, hw, hkind⟩ := last.endsPlain
    rw [List.flatMap_singleton, hw, ← List.append_assoc, List.getLast?_concat]
    rintro v hv
    rwa [← Option.some.inj hv]

/-- Only pieces that may be left out are spelled by no token. -/
theorem Spells.words_eq_nil {ps : List Piece} (h : Spells ps []) : words ps = [] := by
  generalize hts : ([] : List Token) = ts at h
  induction h with
  | nil => rfl
  | take => cases hts
  | @skip p ps ts hp _ ih =>
      rw [← ih hts]
      simp [words, hp]

/-- The last token is no string if the last word is none: a piece that may be left out is no
string either. -/
theorem Spells.getLast?_kind {ps : List Piece} {ts : List Token} (h : Spells ps ts)
    (hlast : ∀ w ∈ (words ps).getLast?, w.kind ≠ .string) :
    ∀ t ∈ ts.getLast?, t.kind ≠ .string := by
  induction h with
  | nil => nofun
  | @take p t ps ts hdenotes hrest ih =>
      intro u hu
      cases hp : p.optional with
      | true =>
          have hwords : words (p :: ps) = words ps := by simp [words, hp]
          cases ts with
          | cons t' ts => exact ih (hwords ▸ hlast) u hu
          | nil =>
              have hu : t = u := Option.some.inj hu
              rw [← hu, hdenotes.kind_eq]
              intro hkind
              exact p.spelling_ne hp (by rw [hkind]; rfl)
      | false =>
          have hwords : words (p :: ps) = p.word :: words ps := by simp [words, hp]
          rw [hwords] at hlast
          cases ts with
          | cons t' ts =>
              refine ih (fun w hw => hlast w ?_) u hu
              obtain ⟨init, hinit⟩ := List.getLast?_eq_some_iff.1 hw
              exact List.getLast?_eq_some_iff.2 ⟨p.word :: init, by rw [hinit]; rfl⟩
          | nil =>
              rw [hrest.words_eq_nil] at hlast
              have hu : t = u := Option.some.inj hu
              rw [← hu, hdenotes.kind_eq]
              exact hlast p.word rfl
  | @skip p ps ts hp _ ih =>
      apply ih
      simpa [words, hp] using hlast

end SelectionCheck
