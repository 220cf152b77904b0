import SelectionCheck.Proofs.Document.Cases.TypeSystem
import SelectionCheck.Proofs.Document.Equivariant.Executable

/-!
# Type definitions and whole documents hand offsets on

The readers of type and schema definitions do not nest, so their lemmas follow the rules one by
one. Documents come last: the definitions of a list of tokens, and the lexical errors that keep a
document from being read at all.
-/

namespace SelectionCheck

open Placed (relocate)

variable (f : Nat → Nat)

namespace Grammar

theorem description_equivariant : Equivariant description := by
  intro f c
  generalize hr : description c = r
  cases description_iff.1 hr with
  | absent hkind => exact description_iff.2 (.absent (Cursor.kind?_relocate f c ▸ hkind))
  | found hahead hkind =>
      exact description_iff.2 (.found (Cursor.ahead_relocate_of_cons f hahead) hkind)

/-! ## Fields and arguments -/

theorem inputValueDefinition_equivariant (level : Nat) :
    Equivariant (inputValueDefinition level) := by
  intro f c
  generalize hr : inputValueDefinition level c = r
  cases inputValueDefinition_iff.1 hr with
  | tooDeep => rfl
  | noName hdescription hname =>
      exact inputValueDefinition_iff.2
        (.noName (description_equivariant.eq f hdescription) (name_relocate f hname))
  | noColon hdescription hname hcolon =>
      exact inputValueDefinition_iff.2 (.noColon (description_equivariant.eq f hdescription)
        (name_relocate f hname) (punctuator_relocate f hcolon))
  | typed hdescription hname hcolon htype =>
      exact inputValueDefinition_iff.2 (.typed (description_equivariant.eq f hdescription)
        (name_relocate f hname) (punctuator_relocate f hcolon)
        (htype.relocate_eq f fun _ _ => rfl))

theorem argumentsDefinition_equivariant (level : Nat) : Equivariant (argumentsDefinition level) :=
  nonEmpty_equivariant _ _ _ _ inputValueDefinition_equivariant level

theorem inputFieldsDefinition_equivariant (level : Nat) :
    Equivariant (inputFieldsDefinition level) :=
  nonEmpty_equivariant _ _ _ _ inputValueDefinition_equivariant level

theorem fieldDefinitionRest_relocate (level : Nat) (described : Option Description) (name : Name)
    (c : Cursor) :
    fieldDefinitionRest level (relocate f described) (relocate f name) (relocate f c) =
      relocate f (fieldDefinitionRest level described name c) := by
  have harguments := whenNext_equivariant .lparen (argumentsDefinition_equivariant level)
  generalize hr : fieldDefinitionRest level described name c = r
  cases fieldDefinitionRest_iff.1 hr with
  | ended hahead =>
      rw [fieldDefinitionRest_iff.2 (.ended (List.map_eq_nil_iff.2 hahead)), Cursor.head?_relocate]
      rfl
  | noColon hahead ha hcolon =>
      rw [fieldDefinitionRest_iff.2 (.noColon (mt List.map_eq_nil_iff.1 hahead)
        (harguments.eq f ha) (punctuator_relocate f hcolon))]
      simp
  | whole hahead ha hcolon ht hd =>
      rw [fieldDefinitionRest_iff.2 (.whole (mt List.map_eq_nil_iff.1 hahead)
        (harguments.eq f ha) (punctuator_relocate f hcolon) ((typeRef_equivariant level).eq f ht)
        ((directives_equivariant true level).eq f hd))]
      simp

theorem fieldDefinition_equivariant (level : Nat) : Equivariant (fieldDefinition level) := by
  intro f c
  generalize hr : fieldDefinition level c = r
  cases fieldDefinition_iff.1 hr with
  | tooDeep => rfl
  | noName hdescription hname =>
      exact fieldDefinition_iff.2
        (.noName (description_equivariant.eq f hdescription) (name_relocate f hname))
  | whole hdescription hname =>
      rw [fieldDefinition_iff.2
        (.whole (description_equivariant.eq f hdescription) (name_relocate f hname))]
      exact fieldDefinitionRest_relocate f _ _ _ _

theorem fieldsDefinition_equivariant (level : Nat) : Equivariant (fieldsDefinition level) :=
  nonEmpty_equivariant _ _ _ _ fieldDefinition_equivariant level

/-! ## Enumerations -/

theorem reservedFaults_equivariant : Equivariant reservedFaults := by
  intro f symbol
  simp only [reservedFaults, Name.value_relocate]
  split <;> rfl

theorem enumValueDefinition_equivariant (level : Nat) :
    Equivariant (enumValueDefinition level) := by
  intro f c
  generalize hr : enumValueDefinition level c = r
  cases enumValueDefinition_iff.1 hr with
  | noName hdescription hname =>
      exact enumValueDefinition_iff.2
        (.noName (description_equivariant.eq f hdescription) (name_relocate f hname))
  | whole hdescription hname hd =>
      rw [enumValueDefinition_iff.2 (.whole (description_equivariant.eq f hdescription)
        (name_relocate f hname) ((directives_equivariant true level).eq f hd)),
        reservedFaults_equivariant]
      simp

theorem enumValuesDefinition_equivariant (level : Nat) : Equivariant (enumValuesDefinition level) :=
  nonEmpty_equivariant _ _ _ _ enumValueDefinition_equivariant level

/-! ## Lists of names -/

theorem namesFrom_relocate (separator : Token.Kind) (ahead : List Token) (behind : Nat)
    (before : List Name) :
    namesFrom separator (relocate f ahead) behind (relocate f before) =
      relocate f (namesFrom separator ahead behind before) := by
  fun_induction namesFrom separator ahead behind before with
  | case1 behind before => simp [namesFrom]
  | case2 t behind before ht => simp [namesFrom, ht]
  | case3 t behind before ht s rest hs ih =>
      simp [namesFrom, ht, hs, ← ih]
  | case4 t behind before ht s rest hs => simp [namesFrom, ht, hs]
  | case5 t rest behind before ht => cases rest <;> simp [namesFrom, ht]

theorem names_equivariant (separator : Token.Kind) : Equivariant (names separator) := by
  intro f c
  generalize hr : names separator c = r
  cases names_iff.1 hr with
  | plain hseparator =>
      rw [names_iff.2 (.plain (punctuator_relocate f hseparator))]
      exact namesFrom_relocate f separator c.ahead c.behind []
  | @led offset c₁ hseparator =>
      rw [names_iff.2 (.led (punctuator_relocate f hseparator))]
      exact namesFrom_relocate f separator c₁.ahead c₁.behind []

/-! ## Type definitions -/

theorem objectBody_equivariant (level : Nat) : Equivariant (objectBody level) := by
  intro f c
  have hfields : ∀ (interfaces : List Name) (c : Cursor),
      (fieldsDefinition level (relocate f c)).map (TypeBody.object (relocate f interfaces)) =
        relocate f ((fieldsDefinition level c).map (TypeBody.object interfaces)) :=
    fun _ c => Reading.map_relocate f (fieldsDefinition_equivariant level f c) fun _ => rfl
  generalize hr : objectBody level c = r
  cases objectBody_iff.1 hr with
  | plain hword =>
      rw [objectBody_iff.2 (.plain (Cursor.forall_head?_relocate f (fun _ ht => ht) hword))]
      exact hfields [] c
  | badNames hahead hword hi hne =>
      rw [objectBody_iff.2 (.badNames (Cursor.ahead_relocate_of_cons f hahead) hword
        ((names_equivariant .ampersand).eq f hi) (mt List.map_eq_nil_iff.1 hne))]
      simp
  | whole hahead hword hi hnil =>
      rw [objectBody_iff.2 (.whole (Cursor.ahead_relocate_of_cons f hahead) hword
        ((names_equivariant .ampersand).eq f hi) (List.map_eq_nil_iff.2 hnil))]
      exact hfields _ _

theorem unionBody_equivariant : Equivariant unionBody := by
  intro f c
  generalize hr : unionBody c = r
  cases unionBody_iff.1 hr with
  | noEquals hequals => exact unionBody_iff.2 (.noEquals (punctuator_relocate f hequals))
  | whole hequals =>
      rw [unionBody_iff.2 (.whole (punctuator_relocate f hequals))]
      exact Reading.map_relocate f (names_equivariant .bar f _) fun _ => rfl

theorem typeBody_equivariant (level : Nat) (form : TypeForm) :
    Equivariant (typeBody level form) := by
  cases form with
  | scalar => exact fun _ _ => rfl
  | object => exact objectBody_equivariant level
  | interface => exact (fieldsDefinition_equivariant level).map fun _ _ => rfl
  | union => exact unionBody_equivariant
  | enum => exact (enumValuesDefinition_equivariant level).map fun _ _ => rfl
  | input => exact (inputFieldsDefinition_equivariant level).map fun _ _ => rfl

theorem typeDefinition_relocate (level : Nat) (form : TypeForm) (described : Option Description)
    (keyword : Nat) (c : Cursor) :
    typeDefinition level form (relocate f described) (f keyword) (relocate f c) =
      relocate f (typeDefinition level form described keyword c) := by
  generalize hr : typeDefinition level form described keyword c = r
  cases typeDefinition_iff.1 hr with
  | noName hname =>
      rw [typeDefinition_iff.2 (.noName (name_relocate f hname))]
      cases form <;> rfl
  | @whole n c₁ hname =>
      have hbody := (typeBody_equivariant level form).within (.named form.rule n.value) f c₁
      rw [typeDefinition_iff.2 (.whole (name_relocate f hname))]
      exact Reading.map_relocate f hbody fun _ => rfl

/-! ## Schema definitions -/

theorem operationType?_relocate (t : Token) : operationType? (relocate f t) = operationType? t := by
  rw [operationType?, Token.kind_relocate, Token.text_relocate, operationType?]

theorem rootDefinition_equivariant : Equivariant rootDefinition := by
  intro f c
  generalize hr : rootDefinition c = r
  cases rootDefinition_iff.1 hr with
  | noType htype =>
      have htype' := Cursor.forall_head?_relocate f
        (fun t ht => (operationType?_relocate f t).trans ht) htype
      rw [rootDefinition_iff.2 (.noType htype'), Cursor.head?_relocate]
      rfl
  | noColon hahead htype hcolon =>
      exact rootDefinition_iff.2 (.noColon (Cursor.ahead_relocate_of_cons f hahead)
        ((operationType?_relocate f _).trans htype) (punctuator_relocate f hcolon))
  | noName hahead htype hcolon hname =>
      exact rootDefinition_iff.2 (.noName (Cursor.ahead_relocate_of_cons f hahead)
        ((operationType?_relocate f _).trans htype) (punctuator_relocate f hcolon)
        (name_relocate f hname))
  | whole hahead htype hcolon hname =>
      exact rootDefinition_iff.2 (.whole (Cursor.ahead_relocate_of_cons f hahead)
        ((operationType?_relocate f _).trans htype) (punctuator_relocate f hcolon)
        (name_relocate f hname))

theorem schemaDefinition_relocate (keyword : Nat) (c : Cursor) :
    schemaDefinition (f keyword) (relocate f c) = relocate f (schemaDefinition keyword c) := by
  have hroots := (bracketed_equivariant .lbrace .rbrace .rootDefinition
    rootDefinition_equivariant).within (.rule .schemaDefinition) f c
  refine Reading.map_relocate f hroots fun roots => ?_
  cases roots <;> rfl

/-! ## Documents -/

theorem keywordDefinition_relocate (described : Option Description) (keyword : Token)
    (c behind : Cursor) :
    keywordDefinition (relocate f described) (relocate f keyword) (relocate f c)
        (relocate f behind) =
      relocate f (keywordDefinition described keyword c behind) := by
  generalize hr : keywordDefinition described keyword c behind = r
  cases keywordDefinition_iff.1 hr with
  | noForm hform => exact keywordDefinition_iff.2 (.noForm hform)
  | @whole form hform =>
      have htype := typeDefinition_relocate f partLevel form described keyword.start behind
      exact Eq.trans (keywordDefinition_iff.2 (.whole hform))
        (Reading.map_relocate f htype fun _ => rfl)

theorem describedDefinition_relocate (t : Token) (rest : List Token) (c : Cursor) :
    describedDefinition (relocate f t) (relocate f rest) (relocate f c) =
      relocate f (describedDefinition t rest c) := by
  generalize hr : describedDefinition t rest c = r
  cases describedDefinition_iff.1 hr with
  | noKeyword hkind =>
      have hkind' := Cursor.forall_head?_relocate (c := ⟨rest, 0⟩) f (fun _ ht => ht) hkind
      refine Eq.trans (describedDefinition_iff.2 (.noKeyword hkind')) ?_
      rw [← relocate_head?]
      rfl
  | @keyword keyword rest hkind =>
      rw [relocate_cons]
      exact Eq.trans (describedDefinition_iff.2 (.keyword hkind))
        (keywordDefinition_relocate f (some ⟨t.start, t.text⟩) keyword c
          ((c.past (keyword :: rest)).past rest))

theorem map_some_relocate {α : Type} [Placed α] {g : α → Definition} (h : Equivariant g)
    (r : Reading (Option α)) :
    (relocate f r).map (·.map g) = relocate f (r.map (·.map g)) := by
  refine Reading.map_relocate f rfl fun o => ?_
  cases o with
  | none => rfl
  | some a => exact congrArg some (h f a)

theorem definition_equivariant : Equivariant definition := by
  intro f c
  generalize hr : definition c = r
  cases definition_iff.1 hr with
  | ended hahead => exact definition_iff.2 (.ended (List.map_eq_nil_iff.2 hahead))
  | operation hahead htype =>
      rw [definition_iff.2 (.operation (Cursor.ahead_relocate_of_cons f hahead)
        ((operationType?_relocate f _).trans htype)), ← Cursor.relocate_past,
        Token.start_relocate, operation_relocate]
      exact map_some_relocate f (fun _ _ => rfl) _
  | shorthand hahead hkind =>
      rw [definition_iff.2 (.shorthand (Cursor.ahead_relocate_of_cons f hahead) hkind),
        Token.start_relocate, shorthandQuery_relocate]
      exact map_some_relocate f (fun _ _ => rfl) _
  | fragment hahead hword =>
      rw [definition_iff.2 (.fragment (Cursor.ahead_relocate_of_cons f hahead) hword),
        ← Cursor.relocate_past, Token.start_relocate, fragmentDefinition_relocate]
      exact map_some_relocate f (fun _ _ => rfl) _
  | schema hahead hword =>
      rw [definition_iff.2 (.schema (Cursor.ahead_relocate_of_cons f hahead) hword),
        ← Cursor.relocate_past, Token.start_relocate, schemaDefinition_relocate]
      exact map_some_relocate f (fun _ _ => rfl) _
  | @keyword t rest hahead hkind htype hfragment hschema =>
      rw [definition_iff.2 (.keyword (Cursor.ahead_relocate_of_cons f hahead) hkind
        ((operationType?_relocate f t).trans htype) hfragment hschema)]
      exact keywordDefinition_relocate f none t c (c.past rest)
  | @described t rest hahead hkind =>
      rw [definition_iff.2 (.described (Cursor.ahead_relocate_of_cons f hahead) hkind)]
      exact describedDefinition_relocate f t rest c
  | refused hahead hname hlbrace hstring =>
      rw [definition_iff.2
        (.refused (Cursor.ahead_relocate_of_cons f hahead) hname hlbrace hstring),
        Cursor.head?_relocate]
      rfl

theorem definitionsFrom_relocate (steps : List Token) (c : Cursor) (before : List Definition)
    (faults : List Fault) :
    definitionsFrom (relocate f steps) (relocate f c) (relocate f before) (relocate f faults) =
      relocate f (definitionsFrom steps c before faults) := by
  induction steps generalizing c before faults with
  | nil => simp [definitionsFrom]
  | cons step steps ih =>
      rw [relocate_cons, definitionsFrom, definition_equivariant, definitionsFrom]
      obtain ⟨d, more, next⟩ := definition c
      cases d with
      | none => simp
      | some d => simp [← ih]

theorem definitions_equivariant : Equivariant definitions :=
  fun f tokens => definitionsFrom_relocate f tokens (.ofTokens tokens) [] []

end Grammar

instance : Placed SourceError :=
  ⟨fun f => fun
    | .tooLarge => .tooLarge
    | .symbol token => .symbol (relocate f token)
    -- the offset of a fault in a string counts from its token
    | .string token offset fault => .string (relocate f token) offset fault
    | .grammar fault => .grammar (relocate f fault)⟩

instance : Placed Parsed := ⟨fun f p => ⟨relocate f p.document, relocate f p.errors⟩⟩

theorem Token.errors_equivariant : Equivariant Token.errors := by
  intro f t
  rw [Token.errors, Token.kind_relocate, Token.text_relocate, Token.errors]
  cases t.kind with
  | string =>
      change _ = List.map (relocate f) (List.map _ _)
      rw [List.map_map]
      rfl
  | _ => rfl

def Parsed.ofTokens (tokens : List Token) : Parsed :=
  match tokens.flatMap Token.errors with
  | [] => ⟨some ⟨(Grammar.definitions tokens).1⟩, (Grammar.definitions tokens).2.map .grammar⟩
  | errors => ⟨none, errors⟩

theorem parse_eq_ofTokens {source : Text} (h : source.length ≤ sizeLimit) :
    parse source = Parsed.ofTokens (lex source) :=
  if_neg (Nat.not_lt.2 h)

/-- A document of other offsets is read to the same tree with the other offsets. -/
theorem Parsed.ofTokens_equivariant : Equivariant Parsed.ofTokens := by
  intro f tokens
  rw [ofTokens, relocate_flatMap f fun t _ => Token.errors_equivariant f t,
    Grammar.definitions_equivariant, ofTokens]
  cases tokens.flatMap Token.errors with
  | nil =>
      have hgrammar : Equivariant SourceError.grammar := fun _ _ => rfl
      exact congrArg (Parsed.mk _) (hgrammar.map_list f (Grammar.definitions tokens).2)
  | cons e errors => rfl

end SelectionCheck
