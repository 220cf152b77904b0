import SelectionCheck.Proofs.Document.Cases.TypeSystem
import SelectionCheck.Proofs.Document.Reads.Executable

/-!
# What the readers of type and schema definitions take

A type definition is read behind its keyword, so the statements about bodies begin there. A list of
names may have a separator in front, which the tree does not keep: it is the only token that a
reading without faults takes and does not record.
-/

namespace SelectionCheck.Grammar

variable {c c' : Cursor}

theorem reads_of_description {described : Option Description}
    (h : description c = (described, c')) :
    Reads (described.toList.map Description.piece) c c' := by
  cases description_iff.1 h with
  | absent => exact Reads.refl c
  | @found t rest hahead hkind =>
      have htakes : Takes [.lexeme t.kind t.text t.start] c (c.past rest) := .lexeme hahead rfl
      rw [hkind] at htakes
      exact htakes.1

/-! ## Fields and arguments -/

theorem inputValueDefinition_sound (level : Nat) :
    Sound (inputValueDefinition level) InputValueDefinition.pieces := by
  intro c hfaults
  generalize hr : inputValueDefinition level c = r at hfaults ⊢
  cases inputValueDefinition_iff.1 hr with
  | typed hdescription hname hcolon htype =>
      obtain ⟨t, d, -, -, hvalue, hreads⟩ := htype.reads hfaults
      exact ⟨_, hvalue, (reads_of_description hdescription).trans_takes
        ((takes_of_name hname).trans ((takes_of_mark hcolon).trans hreads).1)⟩
  | _ => cases hfaults

theorem argumentsDefinition_sound (level : Nat) :
    Sound (argumentsDefinition level)
      (Bracketed.pieces .lparen .rparen InputValueDefinition.pieces) :=
  nonEmpty_sound inputValueDefinition_sound (by decide) (by decide) level

theorem inputFieldsDefinition_sound (level : Nat) :
    Sound (inputFieldsDefinition level)
      (Bracketed.pieces .lbrace .rbrace InputValueDefinition.pieces) :=
  nonEmpty_sound inputValueDefinition_sound (by decide) (by decide) level

theorem fieldDefinitionRest_reads {level : Nat} {described : Option Description} {n : Name}
    (hfaults : (fieldDefinitionRest level described n c).faults = []) :
    ∃ d : FieldDefinition, (fieldDefinitionRest level described n c).value = some d ∧
      d.description = described ∧ d.name = n ∧
      Reads (d.arguments.elim [] (Bracketed.pieces .lparen .rparen InputValueDefinition.pieces) ++
        .mark .colon d.colon.offset? ::
          (d.type.pieces ++ d.directives.flatMap Directive.pieces)) c
        (fieldDefinitionRest level described n c).next := by
  generalize hr : fieldDefinitionRest level described n c = r at hfaults ⊢
  cases fieldDefinitionRest_iff.1 hr with
  | ended => cases hfaults
  | noColon => simp at hfaults
  | @whole a t d colon c₁ _ ha hcolon ht hd =>
      subst ha ht hd
      simp only [List.append_eq_nil_iff] at hfaults
      obtain ⟨⟨harguments, htype⟩, hdirectives⟩ := hfaults
      refine ⟨_, rfl, rfl, rfl, ?_⟩
      exact ((argumentsDefinition_sound level).whenNext .lparen harguments).trans
        ((takes_of_mark hcolon).trans
          ((typeRef_faithful level c₁ htype).1.trans (directives_reads hdirectives))).1

theorem fieldDefinition_sound (level : Nat) :
    Sound (fieldDefinition level) FieldDefinition.pieces := by
  intro c hfaults
  generalize hr : fieldDefinition level c = r at hfaults ⊢
  cases fieldDefinition_iff.1 hr with
  | whole hdescription hname =>
      obtain ⟨d, hvalue, hdescribed, hn, hreads⟩ := fieldDefinitionRest_reads hfaults
      refine ⟨d, hvalue, ?_⟩
      rw [FieldDefinition.pieces, hdescribed, hn]
      exact (reads_of_description hdescription).trans_takes ((takes_of_name hname).trans hreads)
  | _ => cases hfaults

theorem fieldsDefinition_sound (level : Nat) :
    Sound (fieldsDefinition level) (Bracketed.pieces .lbrace .rbrace FieldDefinition.pieces) :=
  nonEmpty_sound fieldDefinition_sound (by decide) (by decide) level

/-! ## Enumerations -/

theorem enumValueDefinition_sound (level : Nat) :
    Sound (enumValueDefinition level) EnumValueDefinition.pieces := by
  intro c hfaults
  generalize hr : enumValueDefinition level c = r at hfaults ⊢
  cases enumValueDefinition_iff.1 hr with
  | noName => cases hfaults
  | whole hdescription hname hd =>
      subst hd
      have hdirectives := directives_reads (List.append_eq_nil_iff.1 hfaults).2
      exact ⟨_, rfl, (reads_of_description hdescription).trans_takes
        ((takes_of_name hname).trans hdirectives)⟩

theorem enumValuesDefinition_sound (level : Nat) :
    Sound (enumValuesDefinition level)
      (Bracketed.pieces .lbrace .rbrace EnumValueDefinition.pieces) :=
  nonEmpty_sound enumValueDefinition_sound (by decide) (by decide) level

/-! ## Lists of names -/

theorem separatedPieces_cons (kind : Token.Kind) (n : Name) {names : List Name}
    (h : names ≠ []) :
    separatedPieces kind (n :: names) =
      n.piece :: .separator kind :: separatedPieces kind names := by
  match names with
  | [] => exact absurd rfl h
  | m :: names => rfl

/-- Names up to the first one without a separator behind it. -/
theorem namesFrom_reads {separator : Token.Kind} (hseparator : separator.spelling ≠ "")
    {ahead : List Token} {behind : Nat} {names : List Name}
    (hfaults : (namesFrom separator ahead behind names).faults = []) :
    ∃ more, more ≠ [] ∧
      (namesFrom separator ahead behind names).value = names.reverse ++ more ∧
      Reads (separatedPieces separator more) ⟨ahead, behind⟩
        (namesFrom separator ahead behind names).next := by
  fun_induction namesFrom separator ahead behind names with
  | case1 => cases hfaults
  | case2 t behind names hkind =>
      refine ⟨[⟨t.text, t.start⟩], by simp, by simp, ?_⟩
      rw [separatedPieces, Name.piece, ← hkind]
      exact (Takes.lexeme (c := ⟨[t], behind⟩) rfl rfl).1
  | case3 t behind names hkind s rest hs ih =>
      obtain ⟨more, hmore, hvalue, hreads⟩ := ih hfaults
      refine ⟨⟨t.text, t.start⟩ :: more, by simp, by rw [hvalue]; simp, ?_⟩
      rw [separatedPieces_cons separator _ hmore]
      have hname := takes_of_name (name_of_kind (c := ⟨t :: s :: rest, behind⟩) rfl hkind)
      have hsep : Takes [.separator separator] ⟨s :: rest, behind + 1⟩ ⟨rest, behind + 2⟩ :=
        takes_of_punctuator (punctuator_of_kind rfl hs) rfl rfl trivial hseparator
      exact (hname.trans (hsep.trans hreads).1).1
  | case4 t behind names hkind s rest hs =>
      refine ⟨[⟨t.text, t.start⟩], by simp, by simp, ?_⟩
      exact (takes_of_name (name_of_kind (c := ⟨t :: s :: rest, behind⟩) rfl hkind)).1
  | case5 => cases hfaults

theorem names_reads {separator : Token.Kind} (hseparator : separator.spelling ≠ "")
    (hfaults : (names separator c).faults = []) :
    (names separator c).value ≠ [] ∧
      Reads (namePieces separator hseparator (names separator c).value) c
        (names separator c).next := by
  generalize hr : names separator c = r at hfaults ⊢
  cases names_iff.1 hr with
  | plain =>
      obtain ⟨more, hmore, hvalue, taken, hahead, hbehind, hspells⟩ :=
        namesFrom_reads hseparator hfaults
      rw [hvalue]
      exact ⟨hmore, taken, hahead, hbehind, fun hlexed => .skip rfl (hspells hlexed)⟩
  | @led offset c₁ hpunctuator =>
      obtain ⟨more, hmore, hvalue, hreads⟩ := namesFrom_reads hseparator hfaults
      rw [hvalue]
      have hleading : Takes [.leading separator hseparator] c c₁ :=
        takes_of_punctuator hpunctuator rfl rfl trivial hseparator
      exact ⟨hmore, (hleading.trans hreads).1⟩

/-! ## Type definitions -/

theorem Sound.reads_body {α : Type} {reader : Cursor → Reading (Option (Bracketed α))}
    {pieces : α → List Piece} (h : Sound reader (Bracketed.pieces .lbrace .rbrace pieces))
    (hfaults : (reader c).faults = []) :
    Reads (bodyPieces pieces (reader c).value) c (reader c).next := by
  obtain ⟨b, hvalue, htakes⟩ := h c hfaults
  rw [hvalue]
  exact htakes.1

theorem objectBody_reads {level : Nat} (hfaults : (objectBody level c).faults = []) :
    Reads (objectBody level c).value.pieces c (objectBody level c).next ∧
      (objectBody level c).value.form = .object := by
  generalize hr : objectBody level c = r at hfaults ⊢
  cases objectBody_iff.1 hr with
  | plain => exact ⟨(fieldsDefinition_sound level).reads_body hfaults, rfl⟩
  | badNames _ _ _ hne => exact absurd (withinAll_eq_nil.1 hfaults) hne
  | @whole t rest i hahead hword hi hnil =>
      subst hi
      obtain ⟨hne, hnames⟩ := names_reads (by decide) hnil
      have hfields := (fieldsDefinition_sound level).reads_body hfaults
      have hkeyword : Takes [.keyword "implements"] c (c.past rest) :=
        Takes.one hahead fun _ => ⟨(Token.isWord_iff.1 hword).1, (Token.isWord_iff.1 hword).2,
          trivial⟩
      refine ⟨?_, rfl⟩
      obtain ⟨n, more, heq⟩ := List.exists_cons_of_ne_nil hne
      simp only [Reading.value_map, TypeBody.pieces, heq, implementsPieces]
      rw [heq] at hnames
      exact ((hkeyword.trans hnames).trans hfields).1

theorem unionBody_reads (hfaults : (unionBody c).faults = []) :
    Reads (unionBody c).value.pieces c (unionBody c).next ∧
      (unionBody c).value.form = .union := by
  generalize hr : unionBody c = r at hfaults ⊢
  cases unionBody_iff.1 hr with
  | noEquals => cases hfaults
  | whole hequals =>
      have hnames := (names_reads (by decide) hfaults).2
      exact ⟨((takes_of_mark hequals).trans hnames).1, rfl⟩

theorem typeBody_reads {level : Nat} {form : TypeForm}
    (hfaults : (typeBody level form c).faults = []) :
    Reads (typeBody level form c).value.pieces c (typeBody level form c).next ∧
      (typeBody level form c).value.form = form := by
  cases form with
  | scalar => exact ⟨Reads.refl c, rfl⟩
  | object => exact objectBody_reads hfaults
  | interface => exact ⟨(fieldsDefinition_sound level).reads_body hfaults, rfl⟩
  | union => exact unionBody_reads hfaults
  | enum => exact ⟨(enumValuesDefinition_sound level).reads_body hfaults, rfl⟩
  | input => exact ⟨(inputFieldsDefinition_sound level).reads_body hfaults, rfl⟩

theorem typeDefinition_reads {level : Nat} {form : TypeForm} {described : Option Description}
    {keyword : Nat}
    (hfaults : (typeDefinition level form described keyword c).faults = []) :
    ∃ n body, (typeDefinition level form described keyword c).value =
        ⟨described, keyword, some n, body⟩ ∧ body.form = form ∧
      Reads (n.piece :: body.pieces) c (typeDefinition level form described keyword c).next := by
  generalize hr : typeDefinition level form described keyword c = r at hfaults ⊢
  cases typeDefinition_iff.1 hr with
  | noName => cases hfaults
  | whole hname =>
      obtain ⟨hreads, hform⟩ := typeBody_reads ((Reading.faults_within _ _).1 hfaults)
      exact ⟨_, _, rfl, hform, ((takes_of_name hname).trans hreads).1⟩

/-! ## Schema definitions -/

theorem keyword_of_operationType? {t : Token} {type : OperationType}
    (h : operationType? t = some type) : t.isWord type.keyword = true := by
  rw [operationType?] at h
  split at h
  · next hkind =>
      rw [OperationType.ofWord?] at h
      have htext := List.find?_some h
      exact Token.isWord_iff.2 ⟨hkind, (of_decide_eq_true htext).symm⟩
  · cases h

theorem rootDefinition_sound : Sound rootDefinition RootDefinition.pieces := by
  intro c hfaults
  generalize hr : rootDefinition c = r at hfaults ⊢
  cases rootDefinition_iff.1 hr with
  | whole hahead htype hcolon hname =>
      exact ⟨_, rfl, (Takes.word hahead (keyword_of_operationType? htype)).trans
        ((takes_of_mark hcolon).trans (takes_of_name hname).1).1⟩
  | _ => cases hfaults

theorem schemaDefinition_reads {keyword : Nat}
    (hfaults : (schemaDefinition keyword c).faults = []) :
    ∃ roots : Bracketed RootDefinition,
      (schemaDefinition keyword c).value = some ⟨keyword, roots⟩ ∧
      Reads (roots.pieces .lbrace .rbrace RootDefinition.pieces) c
        (schemaDefinition keyword c).next := by
  rw [schemaDefinition] at hfaults ⊢
  obtain ⟨roots, hvalue, htakes⟩ :=
    bracketed_sound rootDefinition_sound (by decide) (by decide) c
      ((Reading.faults_within _ _).1 hfaults)
  refine ⟨roots, ?_, htakes.1⟩
  rw [Reading.value_map, Reading.value_within, hvalue]
  rfl

end SelectionCheck.Grammar
