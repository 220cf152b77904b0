import SelectionCheck.Proofs.Document.Accepts.Executable
import SelectionCheck.Proofs.Document.Reads.TypeSystem

/-!
# Accepting type and schema definitions

The items of a type definition begin with a description or with a name, and none of them goes on
at a string or a name. The members of a union end with the definition, so what follows a definition
must not begin with a bar; the next definition does not.
-/

namespace SelectionCheck.Grammar

variable {c : Cursor} {rest : List Word}

theorem description_of_words {o : Option Description}
    (hwords : c.words = words (o.toList.map Description.piece) ++ rest)
    (hclear : Clear [.string] rest) :
    ∃ described c₁, description c = (described, c₁) ∧
      described.map Description.erase = o.map Description.erase ∧ c₁.words = rest := by
  cases o with
  | none =>
      refine ⟨none, c, description_iff.2 (.absent fun hkind => ?_), rfl, hwords⟩
      rw [kind?_eq_head?, show c.words = rest from hwords] at hkind
      obtain ⟨w, hw, hkind⟩ := Option.map_eq_some_iff.1 hkind
      exact hclear w hw (List.mem_singleton.2 hkind)
  | some d =>
      obtain ⟨t, ts, hahead, hkind, htext, hrest⟩ := Cursor.exists_of_words hwords
      refine ⟨_, _, description_iff.2 (.found hahead hkind), ?_, hrest⟩
      rw [Option.map_some, Option.map_some, Description.erase, Description.erase, htext]
      rfl

theorem slot_erase {slot : Slot} (h : slot.offset?.isSome = true) :
    slot.erase = .found 0 := by
  cases slot with
  | found => rfl
  | unread | missing => cases h

def itemHeads : List Token.Kind := [.string, .name]

theorem begins_described (o : Option Description) (n : Name) (ps : List Piece) :
    Begins itemHeads (words (o.toList.map Description.piece ++ n.piece :: ps)) := by
  cases o with
  | none => exact begins_word .name (by decide)
  | some d => exact begins_word .string (by decide)

/-! ## Fields and arguments -/

theorem inputValueDefinition_returns {level : Nat} {d : InputValueDefinition}
    (hd : d.isGrammatical = true) (hlevel : d.height ≤ level) :
    Returns (inputValueDefinition level) InputValueDefinition.pieces InputValueDefinition.erase
      [.bang, .equals] d := by
  intro c rest hwords hclear
  rw [InputValueDefinition.height] at hlevel
  obtain ⟨level, rfl⟩ : ∃ n, level = n + 1 := ⟨level - 1, by omega⟩
  rw [InputValueDefinition.isGrammatical, Bool.and_eq_true, Bool.and_eq_true] at hd
  obtain ⟨⟨hcolon, htype⟩, hdefault⟩ := hd
  have htypeLevel : d.type.height ≤ level := by omega
  rw [InputValueDefinition.pieces, words_append, words_name, words_mark, words_append,
    List.append_assoc, List.cons_append, List.cons_append, List.append_assoc] at hwords
  obtain ⟨described, c₀, hdescription, hdescribed, h₀⟩ :=
    description_of_words hwords (clear_word .name (by decide))
  obtain ⟨start, c₁, hname, h₁⟩ := name_of_words h₀
  obtain ⟨offset, c₂, hoffset, h₂⟩ := punctuator_of_words h₁
  have hafter : Clear [.bang] (words (d.defaultValue.elim [] DefaultValue.pieces) ++ rest) :=
    clear_optional .equals (by decide) (fun _ _ => begins_word .equals List.mem_cons_self)
      (hclear.mono (by decide))
  have ht := typeRef_accepts htype htypeLevel c₂ _ h₂ hafter
  rw [inputValueDefinition_iff.2 (.typed hdescription hname hoffset (.whole rfl ht.faults))]
  refine (defaultValue_accepts hdefault (by omega) _ rest ht.words
    (hclear.mono (by decide))).map ?_
  intro o ho
  obtain ⟨colon, hsome⟩ := Option.isSome_iff_exists.1 hcolon
  rw [Option.map_some, InputValueDefinition.erase, InputValueDefinition.erase, hdescribed,
    ht.value, ho, hsome]
  rfl

theorem argumentsDefinition_returns {level : Nat} {b : Bracketed InputValueDefinition}
    (hb : b.isFilled InputValueDefinition.isGrammatical = true)
    (hlevel : 1 + tallest InputValueDefinition.height b.items ≤ level) :
    Returns (argumentsDefinition level)
      (Bracketed.pieces .lparen .rparen InputValueDefinition.pieces)
      (Bracketed.erase InputValueDefinition.erase) [] b :=
  nonEmpty_returns hb hlevel inputValueDefinition_sound inputValueDefinition_returns
    (fun d => begins_described d.description d.name _) (by decide) (by decide)

theorem inputFieldsDefinition_returns {level : Nat} {b : Bracketed InputValueDefinition}
    (hb : b.isFilled InputValueDefinition.isGrammatical = true)
    (hlevel : 1 + tallest InputValueDefinition.height b.items ≤ level) :
    Returns (inputFieldsDefinition level)
      (Bracketed.pieces .lbrace .rbrace InputValueDefinition.pieces)
      (Bracketed.erase InputValueDefinition.erase) [] b :=
  nonEmpty_returns hb hlevel inputValueDefinition_sound inputValueDefinition_returns
    (fun d => begins_described d.description d.name _) (by decide) (by decide)

theorem fieldDefinitionRest_gives {level : Nat} {d : FieldDefinition}
    (hd : d.isGrammatical = true) (hlevel : d.height ≤ level + 1)
    (described : Option Description) (n : Name)
    (hwords : c.words =
      words (d.arguments.elim [] (Bracketed.pieces .lparen .rparen InputValueDefinition.pieces)) ++
        ⟨.colon, Token.Kind.colon.spelling⟩ :: (words d.type.pieces ++
          (words (d.directives.flatMap Directive.pieces) ++ rest)))
    (hclear : Clear [.bang, .atSign, .lparen] rest) :
    Gives (fieldDefinitionRest level described n c)
      (fun v => v.map FieldDefinition.erase = some { d.erase with
        description := described.map Description.erase, name := n.erase }) rest := by
  rw [FieldDefinition.isGrammatical, Bool.and_eq_true, Bool.and_eq_true, Bool.and_eq_true] at hd
  obtain ⟨⟨⟨harguments, hcolon⟩, htype⟩, hdirectives⟩ := hd
  rw [FieldDefinition.height] at hlevel
  have htypeLevel : d.type.height ≤ level := by omega
  have hdirectivesLevel : directivesHeight d.directives ≤ level := by omega
  have hsome : ∀ b ∈ d.arguments, Returns (argumentsDefinition level)
      (Bracketed.pieces .lparen .rparen InputValueDefinition.pieces)
      (Bracketed.erase InputValueDefinition.erase) [.lparen] b := by
    intro b hb
    rw [hb] at harguments hlevel
    exact (argumentsDefinition_returns harguments
      (by rw [Option.elim_some] at hlevel; omega)).weaken
  have ha := whenNext_accepts hsome (fun b _ => begins_bracketed .rparen _ b) List.mem_cons_self
    c _ hwords (clear_word .colon (by decide))
  obtain ⟨offset, c₁, hoffset, h₁⟩ := punctuator_of_words ha.words
  have ht := typeRef_accepts htype htypeLevel c₁ _ h₁
    (clear_flatMap .atSign (by decide) (fun d _ => begins_directive d) (hclear.mono (by decide)))
  have hds := directives_accepts hdirectives hdirectivesLevel _ _ ht.words
    (hclear.mono (by decide))
  have hahead : c.ahead ≠ [] := by
    intro hahead
    rw [Cursor.words, hahead] at hwords
    simp at hwords
  rw [fieldDefinitionRest_iff.2 (.whole hahead rfl hoffset rfl rfl)]
  refine ⟨?_, ?_, hds.words⟩
  · simp only [ha.faults, ht.faults, hds.faults, List.append_nil]
  · have hslot := slot_erase hcolon
    simp only [Option.map_some, FieldDefinition.erase, ha.value, ht.value, hds.value, hslot]
    rfl

theorem fieldDefinition_returns {level : Nat} {d : FieldDefinition}
    (hd : d.isGrammatical = true) (hlevel : d.height ≤ level) :
    Returns (fieldDefinition level) FieldDefinition.pieces FieldDefinition.erase
      [.bang, .atSign, .lparen] d := by
  intro c rest hwords hclear
  obtain ⟨level, rfl⟩ : ∃ n, level = n + 1 :=
    ⟨level - 1, by rw [FieldDefinition.height] at hlevel; omega⟩
  simp only [FieldDefinition.pieces, words_append, words_name, words_mark, List.append_assoc,
    List.cons_append] at hwords
  obtain ⟨described, c₀, hdescription, hdescribed, h₀⟩ :=
    description_of_words hwords (clear_word .name (by decide))
  obtain ⟨start, c₁, hname, h₁⟩ := name_of_words h₀
  rw [fieldDefinition_iff.2 (.whole hdescription hname)]
  refine (fieldDefinitionRest_gives hd hlevel _ _ h₁ hclear).imp ?_
  intro v hv
  rw [hv, hdescribed]
  rfl

theorem fieldsDefinition_returns {level : Nat} {b : Bracketed FieldDefinition}
    (hb : b.isFilled FieldDefinition.isGrammatical = true)
    (hlevel : 1 + tallest FieldDefinition.height b.items ≤ level) :
    Returns (fieldsDefinition level)
      (Bracketed.pieces .lbrace .rbrace FieldDefinition.pieces)
      (Bracketed.erase FieldDefinition.erase) [] b :=
  nonEmpty_returns hb hlevel fieldDefinition_sound fieldDefinition_returns
    (fun d => begins_described d.description d.name _) (by decide) (by decide)

/-! ## Enumerations -/

theorem enumValueDefinition_returns {level : Nat} {d : EnumValueDefinition}
    (hd : d.isGrammatical = true) (hlevel : d.height ≤ level) :
    Returns (enumValueDefinition level) EnumValueDefinition.pieces EnumValueDefinition.erase
      [.atSign, .lparen] d := by
  intro c rest hwords hclear
  rw [EnumValueDefinition.isGrammatical, Bool.and_eq_true, Bool.not_eq_true',
    isReservedSymbol] at hd
  simp only [EnumValueDefinition.pieces, words_append, words_name, List.append_assoc,
    List.cons_append] at hwords
  obtain ⟨described, c₀, hdescription, hdescribed, h₀⟩ :=
    description_of_words hwords (clear_word .name (by decide))
  obtain ⟨start, c₁, hname, h₁⟩ := name_of_words h₀
  have hds := directives_accepts hd.2 hlevel c₁ rest h₁ hclear
  have hreserved : reservedFaults ⟨d.value.value, start⟩ = [] := by
    rw [reservedFaults, hd.1]
    rfl
  rw [enumValueDefinition_iff.2 (.whole hdescription hname rfl)]
  refine ⟨?_, ?_, hds.words⟩
  · rw [hreserved, hds.faults]
    rfl
  · simp only [Option.map_some, EnumValueDefinition.erase, hdescribed, hds.value]
    rfl

theorem enumValuesDefinition_returns {level : Nat} {b : Bracketed EnumValueDefinition}
    (hb : b.isFilled EnumValueDefinition.isGrammatical = true)
    (hlevel : 1 + tallest EnumValueDefinition.height b.items ≤ level) :
    Returns (enumValuesDefinition level)
      (Bracketed.pieces .lbrace .rbrace EnumValueDefinition.pieces)
      (Bracketed.erase EnumValueDefinition.erase) [] b :=
  nonEmpty_returns hb hlevel enumValueDefinition_sound enumValueDefinition_returns
    (fun d => begins_described d.description d.value _) (by decide) (by decide)

/-! ## Lists of names -/

/-- Names with separators between them, up to a name without one behind it. -/
theorem namesFrom_gives {separator : Token.Kind} {n : Name} {names : List Name}
    {ahead : List Token} {behind : Nat} {before : List Name}
    (hwords : ahead.map Token.word = words (separatedPieces separator (n :: names)) ++ rest)
    (hclear : Clear [separator] rest) :
    Gives (namesFrom separator ahead behind before)
      (fun v => v.map Name.erase =
        before.reverse.map Name.erase ++ (n :: names).map Name.erase) rest := by
  induction names generalizing n ahead behind before with
  | nil =>
      obtain ⟨t, ts, rfl, hword, hrest⟩ := List.map_eq_cons_iff.1 hwords
      obtain ⟨hkind, htext⟩ : t.kind = .name ∧ t.text = n.value := Word.mk.inj hword
      cases ts with
      | nil =>
          rw [namesFrom, if_pos hkind]
          exact ⟨rfl, by simp [Name.erase, htext], hrest⟩
      | cons s ts =>
          have hs : s.kind ≠ separator := by
            intro hs
            exact hclear s.word (by rw [← show _ = rest from hrest]; rfl)
              (List.mem_singleton.2 hs)
          rw [namesFrom, if_pos hkind, if_neg hs]
          exact ⟨rfl, by simp [Name.erase, htext], hrest⟩
  | cons m names ih =>
      rw [separatedPieces, words_name, words_separator] at hwords
      obtain ⟨t, ts, rfl, hword, hrest⟩ := List.map_eq_cons_iff.1 hwords
      obtain ⟨s, us, rfl, hsword, hrest'⟩ := List.map_eq_cons_iff.1 hrest
      obtain ⟨hkind, htext⟩ : t.kind = .name ∧ t.text = n.value := Word.mk.inj hword
      have hs : s.kind = separator := congrArg Word.kind hsword
      rw [namesFrom, if_pos hkind, if_pos hs]
      refine (ih hrest').imp ?_
      intro v hv
      rw [hv]
      simp [Name.erase, htext]

/-- Names are written without a separator before the first. -/
theorem names_accepts {separator : Token.Kind} (hseparator : separator.spelling ≠ "") {n : Name}
    {ns : List Name} :
    Accepts (names separator) (words (namePieces separator hseparator (n :: ns))) [separator]
      fun v =>
      v.map Name.erase = (n :: ns).map Name.erase := by
  intro c rest hwords hclear
  rw [namePieces, words_leading] at hwords
  have hne : Token.Kind.name ∉ [separator] := by
    rw [List.mem_singleton]
    rintro rfl
    exact hseparator rfl
  have hname : Clear [separator] c.words := by
    rw [hwords]
    cases ns with
    | nil => exact clear_word .name hne
    | cons m ns => exact clear_word .name hne
  obtain ⟨fault, hfault⟩ := punctuator_of_clear hname List.mem_cons_self
  rw [names_iff.2 (.plain hfault)]
  exact namesFrom_gives hwords hclear

/-! ## Type definitions -/

/-- The items of a type definition between braces, which must be there. -/
theorem body_accepts {α : Type} {reader : Cursor → Reading (Option (Bracketed α))}
    {pieces : α → List Piece} {erase : α → α} {height : α → Nat} {isGrammatical : α → Bool}
    {level : Nat} {o : Option (Bracketed α)}
    (hreader : ∀ b : Bracketed α, b.isFilled isGrammatical = true →
      1 + tallest height b.items ≤ level →
      Returns reader (Bracketed.pieces .lbrace .rbrace pieces) (Bracketed.erase erase) [] b)
    (ho : o.any (Bracketed.isFilled isGrammatical) = true) (hlevel : bodyHeight height o ≤ level) :
    Accepts reader (words (bodyPieces pieces o)) [.bar] fun v =>
      v.map (Bracketed.erase erase) = o.map (Bracketed.erase erase) := by
  cases o with
  | none => cases ho
  | some b => exact (hreader b ho hlevel).weaken

theorem objectBody_accepts {level : Nat} {interfaces : List Name}
    {fields : Option (Bracketed FieldDefinition)}
    (hfields : fields.any (Bracketed.isFilled FieldDefinition.isGrammatical) = true)
    (hlevel : bodyHeight FieldDefinition.height fields ≤ level) :
    Accepts (objectBody level) (words (TypeBody.object interfaces fields).pieces) [.bar] fun v =>
      v.erase = (TypeBody.object interfaces fields).erase := by
  intro c rest hwords hclear
  have hbody := body_accepts (fun b hb hlevel => fieldsDefinition_returns hb hlevel) hfields hlevel
  have hbrace : Begins [.lbrace] (words (bodyPieces FieldDefinition.pieces fields)) := by
    cases fields with
    | none => cases hfields
    | some b => exact begins_bracketed .rbrace _ b
  rw [TypeBody.pieces, words_append, List.append_assoc] at hwords
  cases interfaces with
  | nil =>
      have hgives := (hbody c rest hwords hclear).map (f := TypeBody.object [])
        (Q := fun v => v.erase = (TypeBody.object [] fields).erase)
        fun o ho => by rw [TypeBody.erase, TypeBody.erase, ho]
      obtain ⟨w, ws, hw, hmem⟩ := hbrace.exists_cons
      rw [implementsPieces, words_nil, List.nil_append, hw] at hwords
      obtain ⟨t, ts, hahead, hkind, -, -⟩ := Cursor.exists_of_words hwords
      have hword : ∀ t ∈ c.ahead.head?, t.isWord "implements" = false := by
        rw [hahead]
        rintro _ ⟨⟩
        refine Bool.eq_false_iff.2 fun hword => ?_
        rw [(Token.isWord_iff.1 hword).1] at hkind
        exact absurd (hkind.trans (List.mem_singleton.1 hmem)) (by decide)
      rw [objectBody_iff.2 (.plain hword)]
      exact hgives
  | cons n ns =>
      rw [implementsPieces, words_keyword] at hwords
      obtain ⟨t, ts, hahead, hkind, htext, hrest⟩ := Cursor.exists_of_words hwords
      have hi := names_accepts (by decide) (c.past ts) _ hrest
        (hbrace.clear_append (by decide) rest)
      have hgives := (hbody _ rest hi.words hclear).map
        (f := TypeBody.object (names .ampersand (c.past ts)).value)
        (Q := fun v => v.erase = (TypeBody.object (n :: ns) fields).erase)
        fun o ho => by rw [TypeBody.erase, TypeBody.erase, ho, hi.value]
      have hword := Token.isWord_iff.2 ⟨hkind, htext⟩
      rw [objectBody_iff.2 (.whole hahead hword rfl hi.faults)]
      exact hgives

theorem unionBody_accepts {equals : Slot} {members : List Name}
    (hequals : equals.offset?.isSome = true) (hmembers : members ≠ []) :
    Accepts unionBody (words (TypeBody.union equals members).pieces) [.bar] fun v =>
      v.erase = (TypeBody.union equals members).erase := by
  intro c rest hwords hclear
  obtain ⟨n, ns, rfl⟩ := List.exists_cons_of_ne_nil hmembers
  rw [TypeBody.pieces, words_mark] at hwords
  obtain ⟨offset, c₁, hoffset, h₁⟩ := punctuator_of_words hwords
  rw [unionBody_iff.2 (.whole hoffset)]
  refine (names_accepts (by decide) c₁ rest h₁ hclear).map ?_
  intro names hnames
  rw [TypeBody.erase, TypeBody.erase, hnames, slot_erase hequals]
  rfl

theorem typeBody_accepts {level : Nat} {body : TypeBody} (hbody : body.isGrammatical = true)
    (hlevel : body.height ≤ level) :
    Accepts (typeBody level body.form) (words body.pieces) [.bar] fun v =>
      v.erase = body.erase := by
  intro c rest hwords hclear
  cases body with
  | scalar => exact ⟨rfl, rfl, hwords⟩
  | object interfaces fields => exact objectBody_accepts hbody hlevel c rest hwords hclear
  | interface fields =>
      refine (body_accepts (fun b hb hlevel => fieldsDefinition_returns hb hlevel) hbody hlevel
        c rest hwords hclear).map ?_
      intro o ho
      rw [TypeBody.erase, TypeBody.erase, ho]
  | union equals members =>
      rw [TypeBody.isGrammatical, Bool.and_eq_true, Bool.not_eq_true'] at hbody
      exact unionBody_accepts hbody.1 (by simpa using hbody.2) c rest hwords hclear
  | enum values =>
      refine (body_accepts (fun b hb hlevel => enumValuesDefinition_returns hb hlevel) hbody hlevel
        c rest hwords hclear).map ?_
      intro o ho
      rw [TypeBody.erase, TypeBody.erase, ho]
  | input fields =>
      refine (body_accepts (fun b hb hlevel => inputFieldsDefinition_returns hb hlevel) hbody hlevel
        c rest hwords hclear).map ?_
      intro o ho
      rw [TypeBody.erase, TypeBody.erase, ho]

theorem typeDefinition_accepts {level : Nat} {d : TypeDefinition} (hd : d.isGrammatical = true)
    (hlevel : d.body.height ≤ level) {described : Option Description}
    (hdescribed : described.map Description.erase = d.description.map Description.erase)
    (keyword : Nat) :
    Accepts (typeDefinition level d.body.form described keyword)
      (words (d.name.elim .absent Name.piece :: d.body.pieces)) [.bar] fun v =>
      v.erase = d.erase := by
  intro c rest hwords hclear
  rw [TypeDefinition.isGrammatical, Bool.and_eq_true] at hd
  obtain ⟨n, hn⟩ := Option.isSome_iff_exists.1 hd.1
  rw [hn, Option.elim_some, words_name] at hwords
  obtain ⟨start, c₁, hname, h₁⟩ := name_of_words hwords
  rw [typeDefinition_iff.2 (.whole hname)]
  refine ((typeBody_accepts hd.2 hlevel c₁ rest h₁ hclear).within _).map ?_
  intro body hbody
  rw [TypeDefinition.erase, TypeDefinition.erase, hdescribed, hbody, hn]
  rfl

/-! ## Schema definitions -/

theorem operationType?_of_keyword {t : Token} {type : OperationType} (hkind : t.kind = .name)
    (htext : t.text = type.keyword) : operationType? t = some type := by
  rw [operationType?, if_pos hkind, htext]
  cases type <;> decide

theorem rootDefinition_returns (d : RootDefinition) :
    Returns rootDefinition RootDefinition.pieces RootDefinition.erase [] d := by
  intro c rest hwords _
  rw [RootDefinition.pieces, words_lexeme, words_mark, words_name] at hwords
  obtain ⟨t, ts, hahead, hkind, htext, hrest⟩ := Cursor.exists_of_words hwords
  obtain ⟨offset, c₁, hoffset, h₁⟩ := punctuator_of_words hrest
  obtain ⟨start, c₂, hname, h₂⟩ := name_of_words h₁
  have htype := operationType?_of_keyword hkind htext
  rw [rootDefinition_iff.2 (.whole hahead htype hoffset hname)]
  exact ⟨rfl, rfl, h₂⟩

theorem schemaDefinition_accepts {d : SchemaDefinition} (hd : d.roots.closing.isSome = true)
    (keyword : Nat) :
    Accepts (schemaDefinition keyword)
      (words (d.roots.pieces .lbrace .rbrace RootDefinition.pieces)) [] fun v =>
      v.map SchemaDefinition.erase = some d.erase := by
  intro c rest hwords hclear
  rw [schemaDefinition]
  refine ((bracketed_returns rootDefinition_sound hd (fun r _ => rootDefinition_returns r)
    (fun r _ => begins_word .name (List.mem_singleton.2 rfl)) (by decide) (by decide)
    c rest hwords hclear).within _).map ?_
  intro o ho
  obtain ⟨roots, rfl, herase⟩ := Option.map_eq_some_iff.1 ho
  rw [Option.map_some, Option.map_some, SchemaDefinition.erase, SchemaDefinition.erase, herase]

end SelectionCheck.Grammar
