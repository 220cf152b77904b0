import SelectionCheck.Document.Parse
import SelectionCheck.Proofs.Document.Cases.Executable

/-!
# The cases of type definitions, schemas and whole definitions
-/

namespace SelectionCheck.Grammar

variable {c : Cursor}

/-! ## Fields and arguments -/

inductive DescriptionCases (c : Cursor) : Option Description × Cursor → Prop
  | absent (hkind : c.kind? ≠ some .string) : DescriptionCases c (none, c)
  | found {t rest} (hahead : c.ahead = t :: rest) (hkind : t.kind = .string) :
      DescriptionCases c (some ⟨t.start, t.text⟩, c.past rest)

theorem description_iff {r} : description c = r ↔ DescriptionCases c r := by
  obtain ⟨ahead, behind⟩ := c
  constructor
  · rintro rfl
    fun_cases description ⟨ahead, behind⟩ with
    | case1 hahead => cases hahead; exact .absent nofun
    | case2 t rest hahead hkind => exact .found hahead hkind
    | case3 t rest hahead hkind => cases hahead; exact .absent fun h => hkind (Option.some.inj h)
  · rintro (hkind | ⟨hahead, hkind⟩)
    · cases ahead with
      | nil => rfl
      | cons t rest => exact if_neg fun h => hkind (congrArg some h)
    · cases hahead
      exact if_pos hkind

inductive InputValueDefinitionCases (c : Cursor) :
    (level : Nat) → Reading (Option InputValueDefinition) → Prop
  | tooDeep : InputValueDefinitionCases c 0 (.refuse none .tooDeep c)
  | noName {level described fault c₁} (hdescription : description c = (described, c₁))
      (hname : name c₁ = .error fault) :
      InputValueDefinitionCases c (level + 1) (.refuse none fault c₁)
  | noColon {level described n fault c₁ c₂} (hdescription : description c = (described, c₁))
      (hname : name c₁ = .ok (n, c₂)) (hcolon : punctuator .colon c₂ = .error fault) :
      InputValueDefinitionCases c (level + 1)
        (.refuse (some ⟨described, n, none, .missing, none⟩) fault c₂)
  | typed {level described n colon c₁ c₂ c₃ r} (hdescription : description c = (described, c₁))
      (hname : name c₁ = .ok (n, c₂)) (hcolon : punctuator .colon c₂ = .ok (colon, c₃))
      (htype : DefaultedCases level c₃ (fun t d => ⟨described, n, some colon, t, d⟩) r) :
      InputValueDefinitionCases c (level + 1) r

theorem inputValueDefinition_iff {level r} :
    inputValueDefinition level c = r ↔ InputValueDefinitionCases c level r := by
  constructor
  · rintro rfl
    fun_cases inputValueDefinition level c with
    | case1 => exact .tooDeep
    | case2 c level described fault hname => exact .noName rfl hname
    | case3 c level described n c₁ hname fault hcolon => exact .noColon rfl hname hcolon
    | case4 c level described n c₁ hname colon c₂ hcolon t hfaults =>
        exact .typed rfl hname hcolon (.whole rfl hfaults)
    | case5 c level described n c₁ hname colon c₂ hcolon t hfaults =>
        exact .typed rfl hname hcolon (.badType rfl hfaults)
  · intro h
    cases h with
    | typed hdescription hname hcolon htype =>
        cases htype <;> simp only [inputValueDefinition, *]
    | _ => simp only [inputValueDefinition, *]

inductive FieldDefinitionRestCases (level : Nat) (described : Option Description) (n : Name)
    (c : Cursor) : Reading (Option FieldDefinition) → Prop
  | ended (hahead : c.ahead = []) :
      FieldDefinitionRestCases level described n c
        (.refuse (some ⟨described, n, none, .unread, .missing, []⟩)
          (.expected .argumentsOrColon c.ahead.head?) c)
  | noColon {a fault} (hahead : c.ahead ≠ [])
      (ha : whenNext .lparen (argumentsDefinition level) c = a)
      (hcolon : punctuator .colon a.next = .error fault) :
      FieldDefinitionRestCases level described n c
        ⟨some ⟨described, n, a.value, .missing, .missing, []⟩, a.faults ++ [fault], a.next⟩
  | whole {a t d colon c₁} (hahead : c.ahead ≠ [])
      (ha : whenNext .lparen (argumentsDefinition level) c = a)
      (hcolon : punctuator .colon a.next = .ok (colon, c₁)) (ht : typeRef level c₁ = t)
      (hd : directives true level t.next = d) :
      FieldDefinitionRestCases level described n c
        ⟨some ⟨described, n, a.value, .found colon, t.value, d.value⟩,
          a.faults ++ t.faults ++ d.faults, d.next⟩

theorem fieldDefinitionRest_iff {level described n r} :
    fieldDefinitionRest level described n c = r ↔
      FieldDefinitionRestCases level described n c r := by
  constructor
  · rintro rfl
    obtain ⟨_ | ⟨t, rest⟩, behind⟩ := c
    · exact .ended rfl
    · rw [fieldDefinitionRest]
      dsimp only
      split
      · next hcolon => exact .noColon nofun rfl hcolon
      · next hcolon => exact .whole nofun rfl hcolon rfl rfl
  · intro h
    cases h with
    | ended hahead => simp only [fieldDefinitionRest, hahead, List.head?_nil]
    | noColon hahead | whole hahead =>
        obtain ⟨t, rest, hcons⟩ := List.exists_cons_of_ne_nil hahead
        simp only [fieldDefinitionRest, *]

inductive FieldDefinitionCases (c : Cursor) :
    (level : Nat) → Reading (Option FieldDefinition) → Prop
  | tooDeep : FieldDefinitionCases c 0 (.refuse none .tooDeep c)
  | noName {level described fault c₁} (hdescription : description c = (described, c₁))
      (hname : name c₁ = .error fault) :
      FieldDefinitionCases c (level + 1) (.refuse none fault c₁)
  | whole {level described n c₁ c₂} (hdescription : description c = (described, c₁))
      (hname : name c₁ = .ok (n, c₂)) :
      FieldDefinitionCases c (level + 1) (fieldDefinitionRest level described n c₂)

theorem fieldDefinition_iff {level r} :
    fieldDefinition level c = r ↔ FieldDefinitionCases c level r := by
  constructor
  · rintro rfl
    fun_cases fieldDefinition level c with
    | case1 => exact .tooDeep
    | case2 c level described fault hname => exact .noName rfl hname
    | case3 c level described n c₁ hname => exact .whole rfl hname
  · intro h
    cases h <;> simp only [fieldDefinition, *]

inductive EnumValueDefinitionCases (level : Nat) (c : Cursor) :
    Reading (Option EnumValueDefinition) → Prop
  | noName {described fault c₁} (hdescription : description c = (described, c₁))
      (hname : name c₁ = .error fault) :
      EnumValueDefinitionCases level c (.refuse none fault c₁)
  | whole {described symbol d c₁ c₂} (hdescription : description c = (described, c₁))
      (hname : name c₁ = .ok (symbol, c₂)) (hd : directives true level c₂ = d) :
      EnumValueDefinitionCases level c
        ⟨some ⟨described, symbol, d.value⟩, reservedFaults symbol ++ d.faults, d.next⟩

theorem enumValueDefinition_iff {level r} :
    enumValueDefinition level c = r ↔ EnumValueDefinitionCases level c r := by
  constructor
  · rintro rfl
    fun_cases enumValueDefinition level c with
    | case1 described fault hname => exact .noName rfl hname
    | case2 described symbol c₁ hname d => exact .whole rfl hname rfl
  · intro h
    cases h <;> simp only [enumValueDefinition, *]

/-! ## Type definitions -/

inductive NamesCases (separator : Token.Kind) (c : Cursor) : Reading (List Name) → Prop
  | plain {fault} (hseparator : punctuator separator c = .error fault) :
      NamesCases separator c (namesFrom separator c.ahead c.behind [])
  | led {offset c₁} (hseparator : punctuator separator c = .ok (offset, c₁)) :
      NamesCases separator c (namesFrom separator c₁.ahead c₁.behind [])

theorem names_iff {separator r} : names separator c = r ↔ NamesCases separator c r := by
  constructor
  · rintro rfl
    fun_cases names separator c with
    | case1 fault hseparator => exact .plain hseparator
    | case2 offset c₁ hseparator => exact .led hseparator
  · intro h
    cases h <;> simp only [names, *]

inductive ObjectBodyCases (level : Nat) (c : Cursor) : Reading TypeBody → Prop
  | plain (hword : ∀ t ∈ c.ahead.head?, t.isWord "implements" = false) :
      ObjectBodyCases level c ((fieldsDefinition level c).map (.object []))
  | badNames {t rest i} (hahead : c.ahead = t :: rest) (hword : t.isWord "implements" = true)
      (hi : names .ampersand (c.past rest) = i) (hfaults : i.faults ≠ []) :
      ObjectBodyCases level c
        ⟨.object i.value none, withinAll (.rule .implements) i.faults, i.next⟩
  | whole {t rest i} (hahead : c.ahead = t :: rest) (hword : t.isWord "implements" = true)
      (hi : names .ampersand (c.past rest) = i) (hfaults : i.faults = []) :
      ObjectBodyCases level c ((fieldsDefinition level i.next).map (.object i.value))

theorem objectBody_iff {level r} : objectBody level c = r ↔ ObjectBodyCases level c r := by
  constructor
  · rintro rfl
    fun_cases objectBody level c with
    | case1 hahead => exact .plain (by simp [hahead])
    | case2 t rest hahead hword i hfaults => exact .whole hahead hword rfl hfaults
    | case3 t rest hahead hword i hfaults => exact .badNames hahead hword rfl hfaults
    | case4 t rest hahead hword => exact .plain (by simpa [hahead] using hword)
  · intro h
    cases h with
    | plain hword => cases hahead : c.ahead <;> simp_all [objectBody]
    | _ => simp [objectBody, *]

inductive UnionBodyCases (c : Cursor) : Reading TypeBody → Prop
  | noEquals {fault} (hequals : punctuator .equals c = .error fault) :
      UnionBodyCases c (.refuse (.union .missing []) fault c)
  | whole {equals c₁} (hequals : punctuator .equals c = .ok (equals, c₁)) :
      UnionBodyCases c ((names .bar c₁).map (.union (.found equals)))

theorem unionBody_iff {r} : unionBody c = r ↔ UnionBodyCases c r := by
  constructor
  · rintro rfl
    fun_cases unionBody c <;> constructor <;> assumption
  · intro h
    cases h <;> simp only [unionBody, *]

inductive TypeDefinitionCases (level : Nat) (form : TypeForm) (described : Option Description)
    (keyword : Nat) (c : Cursor) : Reading TypeDefinition → Prop
  | noName {fault} (hname : name c = .error fault) :
      TypeDefinitionCases level form described keyword c
        (.refuse ⟨described, keyword, none, form.unreadBody⟩ (fault.within (.rule form.rule)) c)
  | whole {n c₁} (hname : name c = .ok (n, c₁)) :
      TypeDefinitionCases level form described keyword c
        (((typeBody level form c₁).within (.named form.rule n.value)).map
          (⟨described, keyword, some n, ·⟩))

theorem typeDefinition_iff {level form described keyword r} :
    typeDefinition level form described keyword c = r ↔
      TypeDefinitionCases level form described keyword c r := by
  constructor
  · rintro rfl
    fun_cases typeDefinition level form described keyword c <;> constructor <;> assumption
  · intro h
    cases h <;> simp only [typeDefinition, *]

/-! ## Schema definitions -/

inductive RootDefinitionCases (c : Cursor) : Reading (Option RootDefinition) → Prop
  | noType (htype : ∀ t ∈ c.ahead.head?, operationType? t = none) :
      RootDefinitionCases c (.refuse none (.expected .operationType c.ahead.head?) c)
  | noColon {t rest type fault} (hahead : c.ahead = t :: rest)
      (htype : operationType? t = some type)
      (hcolon : punctuator .colon (c.past rest) = .error fault) :
      RootDefinitionCases c (.refuse none fault (c.past rest))
  | noName {t rest type colon fault c₁} (hahead : c.ahead = t :: rest)
      (htype : operationType? t = some type)
      (hcolon : punctuator .colon (c.past rest) = .ok (colon, c₁))
      (hname : name c₁ = .error fault) : RootDefinitionCases c (.refuse none fault c₁)
  | whole {t rest type colon n c₁ c₂} (hahead : c.ahead = t :: rest)
      (htype : operationType? t = some type)
      (hcolon : punctuator .colon (c.past rest) = .ok (colon, c₁)) (hname : name c₁ = .ok (n, c₂)) :
      RootDefinitionCases c ⟨some ⟨type, t.start, colon, n⟩, [], c₂⟩

theorem rootDefinition_iff {r} : rootDefinition c = r ↔ RootDefinitionCases c r := by
  constructor
  · rintro rfl
    obtain ⟨_ | ⟨t, rest⟩, behind⟩ := c
    · exact .noType nofun
    · rw [rootDefinition]
      dsimp only
      split
      · next htype => exact .noType (by simpa using htype)
      · next type htype =>
          split
          · next hcolon => exact .noColon rfl htype hcolon
          · next hcolon =>
              split
              · next hname => exact .noName rfl htype hcolon hname
              · next hname => exact .whole rfl htype hcolon hname
  · intro h
    cases h with
    | noType htype => cases hahead : c.ahead <;> simp_all [rootDefinition]
    | _ => simp only [rootDefinition, *]

/-! ## Definitions -/

inductive KeywordDefinitionCases (described : Option Description) (keyword : Token)
    (c behind : Cursor) : Reading (Option Definition) → Prop
  | noForm (hform : TypeForm.ofWord? keyword.text = none) :
      KeywordDefinitionCases described keyword c behind
        (.refuse none ((Fault.expected .keyword (some keyword)).within (.rule .definition)) c)
  | whole {form} (hform : TypeForm.ofWord? keyword.text = some form) :
      KeywordDefinitionCases described keyword c behind
        ((typeDefinition partLevel form described keyword.start behind).map fun d => some (.type d))

theorem keywordDefinition_iff {described keyword behind r} :
    keywordDefinition described keyword c behind = r ↔
      KeywordDefinitionCases described keyword c behind r := by
  constructor
  · rintro rfl
    fun_cases keywordDefinition described keyword c behind <;> constructor <;> assumption
  · intro h
    cases h <;> simp only [keywordDefinition, *]

inductive DescribedDefinitionCases (t : Token) (c : Cursor) :
    (rest : List Token) → Reading (Option Definition) → Prop
  | noKeyword {rest} (hkind : ∀ keyword ∈ rest.head?, keyword.kind ≠ .name) :
      DescribedDefinitionCases t c rest
        (.refuse none ((Fault.expected .keyword rest.head?).within (.rule .typeDefinition)) c)
  | keyword {keyword rest} (hkind : keyword.kind = .name) :
      DescribedDefinitionCases t c (keyword :: rest)
        (keywordDefinition (some ⟨t.start, t.text⟩) keyword c
          ((c.past (keyword :: rest)).past rest))

theorem describedDefinition_iff {t rest r} :
    describedDefinition t rest c = r ↔ DescribedDefinitionCases t c rest r := by
  constructor
  · rintro rfl
    cases rest with
    | nil => exact .noKeyword nofun
    | cons keyword rest =>
        rw [describedDefinition]
        split
        · next hkind => exact .keyword hkind
        · next hkind => exact .noKeyword (by simpa using hkind)
  · intro h
    cases h with
    | @noKeyword rest hkind => cases rest <;> simp_all [describedDefinition]
    | keyword hkind => simp only [describedDefinition, hkind, if_true]

inductive DefinitionCases (c : Cursor) : Reading (Option Definition) → Prop
  | ended (hahead : c.ahead = []) : DefinitionCases c ⟨none, [], c⟩
  | operation {t rest type} (hahead : c.ahead = t :: rest) (htype : operationType? t = some type) :
      DefinitionCases c ((operation partLevel t.start type (c.past rest)).map (·.map .operation))
  | shorthand {t rest} (hahead : c.ahead = t :: rest) (hkind : t.kind = .lbrace) :
      DefinitionCases c ((shorthandQuery partLevel t.start c).map (·.map .operation))
  | fragment {t rest} (hahead : c.ahead = t :: rest) (hword : t.isWord "fragment" = true) :
      DefinitionCases c ((fragmentDefinition partLevel t.start (c.past rest)).map (·.map .fragment))
  | schema {t rest} (hahead : c.ahead = t :: rest) (hword : t.isWord "schema" = true) :
      DefinitionCases c ((schemaDefinition t.start (c.past rest)).map (·.map .schema))
  | keyword {t rest} (hahead : c.ahead = t :: rest) (hkind : t.kind = .name)
      (htype : operationType? t = none) (hfragment : t.isWord "fragment" = false)
      (hschema : t.isWord "schema" = false) :
      DefinitionCases c (keywordDefinition none t c (c.past rest))
  | described {t rest} (hahead : c.ahead = t :: rest) (hkind : t.kind = .string) :
      DefinitionCases c (describedDefinition t rest c)
  | refused {t rest} (hahead : c.ahead = t :: rest) (hname : t.kind ≠ .name)
      (hlbrace : t.kind ≠ .lbrace) (hstring : t.kind ≠ .string) :
      DefinitionCases c
        (.refuse none
          ((Fault.expected .stringOrKeyword c.ahead.head?).within (.rule .typeDefinition)) c)

theorem operationType?_of_ne_name {t : Token} (h : t.kind ≠ .name) : operationType? t = none :=
  if_neg h

/-- A word that begins a definition of another form is no type of operation. -/
theorem operationType?_of_isWord {t : Token} {word : Text} (h : t.isWord word = true)
    (hword : OperationType.ofWord? word = none) : operationType? t = none := by
  rw [operationType?, (Token.isWord_iff.1 h).2, hword, ite_self]

theorem isWord_fragment_of_schema {t : Token} (h : t.isWord "schema" = true) :
    t.isWord "fragment" = false := by
  rw [Token.isWord, (Token.isWord_iff.1 h).1, (Token.isWord_iff.1 h).2]
  decide

theorem definition_iff {r} : definition c = r ↔ DefinitionCases c r := by
  constructor
  · rintro rfl
    fun_cases definition c with
    | case1 hahead => exact .ended hahead
    | case2 t rest hahead type htype => exact .operation hahead htype
    | case3 t rest hahead htype hkind => exact .shorthand hahead hkind
    | case4 t rest hahead htype hlbrace hword => exact .fragment hahead hword
    | case5 t rest hahead htype hlbrace hfragment hword => exact .schema hahead hword
    | case6 t rest hahead htype hlbrace hfragment hschema hkind =>
        exact .keyword hahead hkind htype (by simpa using hfragment) (by simpa using hschema)
    | case7 t rest hahead htype hlbrace hfragment hschema hname hkind =>
        exact .described hahead hkind
    | case8 t rest hahead htype hlbrace hfragment hschema hname hstring =>
        have hrefused := DefinitionCases.refused hahead hname hlbrace hstring
        rw [hahead] at hrefused
        exact hrefused
  · intro h
    cases h with
    | ended hahead => simp only [definition, hahead]
    | operation hahead htype => simp only [definition, hahead, htype]
    | shorthand hahead hkind =>
        have htype := operationType?_of_ne_name (by rw [hkind]; decide)
        simp [definition, hahead, htype, hkind]
    | fragment hahead hword =>
        have htype := operationType?_of_isWord hword (by decide)
        simp [definition, hahead, htype, hword, (Token.isWord_iff.1 hword).1]
    | schema hahead hword =>
        have htype := operationType?_of_isWord hword (by decide)
        have hfragment := isWord_fragment_of_schema hword
        simp [definition, hahead, htype, hword, (Token.isWord_iff.1 hword).1, hfragment]
    | keyword hahead hkind htype hfragment hschema =>
        simp [definition, hahead, htype, hfragment, hschema, hkind]
    | described hahead hkind =>
        have htype := operationType?_of_ne_name (by rw [hkind]; decide)
        simp [definition, hahead, htype, Token.isWord, hkind]
    | refused hahead hname hlbrace hstring =>
        simp [definition, hahead, operationType?_of_ne_name hname, Token.isWord, hname, hlbrace,
          hstring]

end SelectionCheck.Grammar
