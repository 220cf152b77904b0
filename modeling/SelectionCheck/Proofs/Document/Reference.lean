import SelectionCheck.Proofs.Document.Accepts.Operand
import SelectionCheck.Proofs.Document.Consumed
import SelectionCheck.Proofs.Schema.WellFormed

/-!
# Type references written and read again

A type reference is written as its tokens one after the other, without anything between them. The
only tokens of it that could run together are names, and a name in it is followed by a bang, a
closing bracket or nothing. So the text splits into the tokens of the reference again, and reading
these at a level that sufficed before gives the reference up to offsets.
-/

namespace SelectionCheck

variable {rest : Text}

/-! ## The text of a type reference -/

namespace TypeRef

variable {r : TypeRef}

/-- The bang of a non-null type. -/
theorem lexFrom_bangMark (bang : Option Nat) (offset : Nat) (rest : Text) :
    (Token.lexFrom 0 offset (bangMark bang ++ rest) []).map Token.word =
      words (bangPieces bang) ++
        (Token.lexFrom 0 (offset + (bangMark bang).length) rest []).map Token.word := by
  cases bang with
  | none => rfl
  | some position =>
      have hhead : Token.Lexeme.ofHead 0x21 rest = .token .bang (0 + 1) := rfl
      exact congrArg (List.map Token.word) (Token.lexFrom_of_token hhead offset)

/-- A reference whose innermost name is a name splits into its own tokens, in front of anything
that does not continue a name. -/
theorem lexFrom_render (hr : r.isGrammatical = true) (hname : ∀ n ∈ r.base?, Token.IsName n)
    (hrest : ∀ b ∈ rest.head?, Token.isNameByte b = false) (offset : Nat) :
    (Token.lexFrom 0 offset (r.render ++ rest) []).map Token.word =
      words r.pieces ++ (Token.lexFrom 0 (offset + r.render.length) rest []).map Token.word := by
  induction r generalizing rest offset with
  | named name bang =>
      have hbang : ∀ b ∈ (bangMark bang ++ rest).head?, Token.isNameByte b = false := by
        cases bang with
        | none => exact hrest
        | some position => exact fun b hb => Option.some.inj hb ▸ rfl
      rw [render, List.append_assoc, Token.lexFrom_name (hname name.value rfl) hbang, List.map_cons,
        lexFrom_bangMark, List.length_append, ← Nat.add_assoc]
      rfl
  | list opening element closing bang ih =>
      obtain ⟨helement, -⟩ := Bool.and_eq_true_iff.1 hr
      have hopen : Token.Lexeme.ofHead 0x5B (element.render ++ 0x5D :: (bangMark bang ++ rest)) =
          .token .lbracket (0 + 1) := rfl
      have hclose : Token.Lexeme.ofHead 0x5D (bangMark bang ++ rest) =
          .token .rbracket (0 + 1) := rfl
      have htext : (TypeRef.list opening element closing bang).render ++ rest =
          0x5B :: (element.render ++ 0x5D :: (bangMark bang ++ rest)) := by
        simp [render, show ("[" : Text) = [0x5B] from rfl, show ("]" : Text) = [0x5D] from rfl]
      have hlength : (TypeRef.list opening element closing bang).render.length =
          1 + element.render.length + 1 + (bangMark bang).length := by
        simp [render, show ("[" : Text) = [0x5B] from rfl, show ("]" : Text) = [0x5D] from rfl]
        omega
      have hbracket : ∀ b ∈ ((0x5D : UInt8) :: (bangMark bang ++ rest)).head?,
          Token.isNameByte b = false := fun b hb => Option.some.inj hb ▸ rfl
      have hin := ih helement hname hbracket (offset + 1)
      rw [Token.lexFrom_of_token hclose] at hin
      rw [htext, Token.lexFrom_of_token hopen, List.map_cons, hlength]
      simp only [Nat.zero_add, List.drop_succ_cons, List.drop_zero] at hin ⊢
      rw [hin, List.map_cons, lexFrom_bangMark]
      simp only [pieces, words_mark, words_append, List.cons_append, List.append_assoc,
        Nat.add_assoc]
      rfl
  | missing => cases hr

/-- The tokens of a reference, one after the other, are the reference as it is written. -/
theorem flatMap_text_words (hr : r.isGrammatical = true) :
    (words r.pieces).flatMap Word.text = r.render := by
  have hbang (bang : Option Nat) : (words (bangPieces bang)).flatMap Word.text = bangMark bang := by
    cases bang <;> rfl
  induction r with
  | named name bang => rw [pieces, words_name, List.flatMap_cons, hbang, render]
  | list opening element closing bang ih =>
      obtain ⟨helement, -⟩ := Bool.and_eq_true_iff.1 hr
      simp only [pieces, words_mark, words_append, List.flatMap_cons, List.flatMap_append, hbang,
        ih helement, render, List.append_assoc]
      rfl
  | missing => cases hr

theorem optional_eq_false (r : TypeRef) : ∀ p ∈ r.pieces, p.optional = false := by
  have hbang (bang : Option Nat) : ∀ p ∈ bangPieces bang, p.optional = false := by
    cases bang <;> simp [bangPieces, Piece.mark]
  induction r with
  | named name bang => exact List.forall_mem_cons.2 ⟨rfl, hbang bang⟩
  | list opening element closing bang ih =>
      refine List.forall_mem_cons.2 ⟨rfl, List.forall_mem_append.2 ⟨ih, ?_⟩⟩
      exact List.forall_mem_cons.2 ⟨rfl, hbang bang⟩
  | missing => exact List.forall_mem_singleton.2 rfl

/-- A reference without holes has one name in it. -/
theorem exists_base (hr : r.isGrammatical = true) :
    ∃ n : Name, r.base? = some n.value ∧ n.piece ∈ r.pieces := by
  induction r with
  | named name bang => exact ⟨name, rfl, List.mem_cons_self⟩
  | list opening element closing bang ih =>
      obtain ⟨n, hbase, hmem⟩ := ih (Bool.and_eq_true_iff.1 hr).1
      exact ⟨n, hbase, List.mem_cons_of_mem _ (List.mem_append_left _ hmem)⟩
  | missing => cases hr

end TypeRef

theorem Spells.map_word {ps : List Piece} {ts : List Token} (h : Spells ps ts)
    (hps : ∀ p ∈ ps, p.optional = false) : ts.map Token.word = words ps := by
  induction h with
  | nil => rfl
  | @take p t ps ts hdenotes _ ih =>
      obtain ⟨hp, hps⟩ := List.forall_mem_cons.1 hps
      have hword : t.word = p.word := by rw [Token.word, hdenotes.kind_eq, hdenotes.text_eq]; rfl
      rw [List.map_cons, ih hps, hword, words, words, List.filter_cons, hp]
      rfl
  | skip hoptional _ _ =>
      rw [(List.forall_mem_cons.1 hps).1] at hoptional
      cases hoptional

namespace Grammar

variable {ts : List Token} {c : Cursor} {level : Nat} {r : TypeRef}

/-- A reference read without faults has all its parts, and no more of them inside each other than
the level allows. -/
theorem isGrammatical_typeRef (level : Nat) (c : Cursor) (hfaults : (typeRef level c).faults = []) :
    (typeRef level c).value.isGrammatical = true ∧ (typeRef level c).value.height ≤ level := by
  generalize hr : typeRef level c = r at hfaults ⊢
  induction typeRef_iff.1 hr with
  | ended | tooDeep | noType => cases hfaults
  | @named level => exact ⟨rfl, Nat.succ_le_succ (Nat.zero_le level)⟩
  | list _ _ helement ih =>
      obtain ⟨hnil, closing, mark, hvalue, -⟩ := listTypeRest_reads hfaults
      obtain ⟨hgrammatical, hheight⟩ := ih (typeRef_iff.2 helement) hnil
      rw [hvalue, TypeRef.isGrammatical, hgrammatical, TypeRef.height]
      exact ⟨rfl, by omega⟩

/-- A reference that is written splits into its own tokens, and these are read as the reference
again, to their end. -/
theorem typeRef_reread (hr : r.isGrammatical = true) (hlevel : r.height ≤ level)
    (hname : ∀ n ∈ r.base?, Token.IsName n) :
    ∃ r', Consumes (typeRef level) [] (lex r.render) [] r' ∧ r'.erase = r.erase := by
  have hwords : (Cursor.ofTokens (lex r.render)).words = words r.pieces ++ [] := by
    have hend : ∀ b ∈ ([] : Text).head?, Token.isNameByte b = false := by simp
    have hlex := TypeRef.lexFrom_render hr hname hend 0
    rwa [List.append_nil] at hlex
  have hgives := typeRef_accepts hr hlevel _ [] hwords (by simp [Clear])
  have hlength := (typeRef_faithful level _ hgives.faults).1.length_add_behind
  have hahead : (typeRef level (.ofTokens (lex r.render))).next.ahead = [] :=
    List.map_eq_nil_iff.1 hgives.words
  have hbehind : (typeRef level (.ofTokens (lex r.render))).next.behind =
      (lex r.render).length := by
    rw [hahead, List.length_nil, Nat.zero_add] at hlength
    exact hlength
  refine ⟨_, ?_, hgives.value⟩
  have hnext : (typeRef level (.ofTokens (lex r.render))).next = ⟨[], (lex r.render).length⟩ := by
    rw [← hahead, ← hbehind]
  rw [Consumes, List.append_nil, List.length_nil, Nat.zero_add, ← hnext]
  exact Reading.eq_of_faults hgives.faults rfl

end Grammar

/-! ## The type references of a document -/

def TypeRef.nested : TypeRef → List TypeRef
  | .list opening element closing bang => .list opening element closing bang :: element.nested
  | .named name bang => [.named name bang]
  | .missing => [.missing]

open Grammar (optionalParts itemParts)

def FieldDefinition.types (d : FieldDefinition) : List TypeRef :=
  optionalParts (itemParts fun a => [a.type]) d.arguments ++ [d.type]

def TypeBody.types : TypeBody → List TypeRef
  | .object _ fields | .interface fields => optionalParts (itemParts FieldDefinition.types) fields
  | .input fields => optionalParts (itemParts fun d => [d.type]) fields
  | .scalar | .union _ _ | .enum _ => []

def Definition.types : Definition → List TypeRef
  | .operation o => optionalParts (itemParts fun v => [v.type]) o.parameters
  | .type d => d.body.types
  | .fragment _ | .schema _ => []

/-- All type references of a document, with those inside others. -/
def Document.typeRefs (d : Document) : List TypeRef :=
  (d.definitions.flatMap Definition.types).flatMap TypeRef.nested

namespace Grammar

variable {ts : List Token} {c : Cursor} {level : Nat}

def TypeGiven (ts : List Token) (r : TypeRef) : Prop :=
  ∃ level, GivenIn ts (typeRef level) r

theorem TypeGiven.element {opening : Nat} {element : TypeRef} {closing bang : Option Nat}
    (h : TypeGiven ts (.list opening element closing bang)) : TypeGiven ts element := by
  obtain ⟨level, c, c', hc, hread⟩ := h
  generalize hr : typeRef level c = r at hread
  cases typeRef_iff.1 hr with
  | ended | tooDeep | noType | named => cases hread
  | @list level t rest element _ hahead _ helement =>
      obtain ⟨hnil, _, _, hvalue, -⟩ := listTypeRest_reads (congrArg Reading.faults hread)
      cases hvalue.symm.trans (congrArg Reading.value hread)
      rw [← typeRef_iff.2 helement] at hnil
      exact ⟨level, .intro (hc.past hahead).on hnil (by rw [typeRef_iff.2 helement])⟩

theorem TypeGiven.nested {r : TypeRef} (h : TypeGiven ts r) : ∀ e ∈ r.nested, TypeGiven ts e := by
  induction r with
  | named name bang => exact List.forall_mem_singleton.2 h
  | list opening element closing bang ih => exact List.forall_mem_cons.2 ⟨h, ih h.element⟩
  | missing => exact List.forall_mem_singleton.2 h

theorem inputValueDefinition_finds (level : Nat) :
    Finds ts (optionalParts fun d => [d.type]) (TypeGiven ts) (inputValueDefinition level) := by
  intro c hc hfaults
  generalize hr : inputValueDefinition level c = r at hfaults ⊢
  cases inputValueDefinition_iff.1 hr with
  | @typed level _ _ _ _ _ _ _ hdescription hname hcolon htype =>
      have hc₁ := ((hc.of_reads (reads_of_description hdescription)).of_reads
        (takes_of_name hname).1).of_reads (takes_of_mark hcolon).1
      obtain ⟨t, d, hnil, ht, hvalue, -⟩ := htype.reads hfaults
      rw [hvalue]
      exact List.forall_mem_singleton.2 ⟨level, .intro hc₁ hnil ht⟩
  | _ => cases hfaults

theorem argumentsDefinition_finds (level : Nat) :
    Finds ts (optionalParts (itemParts fun d => [d.type])) (TypeGiven ts)
      (argumentsDefinition level) :=
  .nonEmpty inputValueDefinition_finds inputValueDefinition_sound _ _ _ _ level

theorem inputFieldsDefinition_finds (level : Nat) :
    Finds ts (optionalParts (itemParts fun d => [d.type])) (TypeGiven ts)
      (inputFieldsDefinition level) :=
  .nonEmpty inputValueDefinition_finds inputValueDefinition_sound _ _ _ _ level

theorem fieldDefinitionRest_finds {described : Option Description} {n : Name} :
    Finds ts (optionalParts FieldDefinition.types) (TypeGiven ts)
      (fieldDefinitionRest level described n) := by
  intro c hc hfaults
  generalize hr : fieldDefinitionRest level described n c = r at hfaults ⊢
  cases fieldDefinitionRest_iff.1 hr with
  | ended => cases hfaults
  | noColon => simp at hfaults
  | whole _ ha hcolon ht hd =>
      subst ha ht hd
      simp only [List.append_eq_nil_iff] at hfaults
      obtain ⟨⟨harguments, htype⟩, -⟩ := hfaults
      have hc₁ := (hc.of_reads ((argumentsDefinition_sound level).whenNext .lparen
        harguments)).of_reads (takes_of_mark hcolon).1
      refine List.forall_mem_append.2 ⟨?_, List.forall_mem_singleton.2 ?_⟩
      · exact (argumentsDefinition_finds level).whenNext .lparen c hc harguments
      · exact ⟨level, .intro hc₁ htype rfl⟩

theorem fieldDefinition_finds (level : Nat) :
    Finds ts (optionalParts FieldDefinition.types) (TypeGiven ts) (fieldDefinition level) := by
  intro c hc hfaults
  generalize hr : fieldDefinition level c = r at hfaults ⊢
  cases fieldDefinition_iff.1 hr with
  | whole hdescription hname =>
      have hc₁ := (hc.of_reads (reads_of_description hdescription)).of_reads
        (takes_of_name hname).1
      exact fieldDefinitionRest_finds _ hc₁ hfaults
  | _ => cases hfaults

theorem fieldsDefinition_finds (level : Nat) :
    Finds ts (optionalParts (itemParts FieldDefinition.types)) (TypeGiven ts)
      (fieldsDefinition level) :=
  .nonEmpty fieldDefinition_finds fieldDefinition_sound _ _ _ _ level

theorem objectBody_finds : Finds ts TypeBody.types (TypeGiven ts) (objectBody level) := by
  intro c hc hfaults
  generalize hr : objectBody level c = r at hfaults ⊢
  cases objectBody_iff.1 hr with
  | plain => exact fieldsDefinition_finds level c hc hfaults
  | badNames _ _ _ hne => exact absurd (withinAll_eq_nil.1 hfaults) hne
  | whole hahead _ hi hnil =>
      subst hi
      have hbehind := (hc.past hahead).on.of_reads (names_reads (by decide) hnil).2
      exact fieldsDefinition_finds level _ hbehind hfaults

theorem unionBody_types (c : Cursor) : (unionBody c).value.types = [] := by
  generalize hr : unionBody c = r
  cases unionBody_iff.1 hr <;> rfl

theorem typeBody_finds (form : TypeForm) :
    Finds ts TypeBody.types (TypeGiven ts) (typeBody level form) := by
  intro c hc hfaults
  cases form with
  | object => exact objectBody_finds c hc hfaults
  | interface => exact fieldsDefinition_finds level c hc hfaults
  | input => exact inputFieldsDefinition_finds level c hc hfaults
  | scalar | enum => exact List.forall_mem_nil _
  | union =>
      rw [typeBody, unionBody_types]
      exact List.forall_mem_nil _

theorem typeDefinition_finds {form : TypeForm} {described : Option Description} {keyword : Nat} :
    Finds ts (fun d => (Definition.type d).types) (TypeGiven ts)
      (typeDefinition level form described keyword) := by
  intro c hc hfaults
  generalize hr : typeDefinition level form described keyword c = r at hfaults ⊢
  cases typeDefinition_iff.1 hr with
  | noName => cases hfaults
  | whole hname =>
      exact typeBody_finds form _ (hc.of_reads (takes_of_name hname).1)
        ((Reading.faults_within _ _).1 hfaults)

theorem variableDefinition_finds (level : Nat) :
    Finds ts (optionalParts fun v => [v.type]) (TypeGiven ts) (variableDefinition level) := by
  intro c hc hfaults
  generalize hr : variableDefinition level c = r at hfaults ⊢
  cases variableDefinition_iff.1 hr with
  | @typed level _ _ _ _ _ hvariable hcolon htype =>
      have hc₁ := (hc.of_reads (takes_of_variableRef hvariable).1).of_reads
        (takes_of_mark hcolon).1
      obtain ⟨t, d, hnil, ht, hvalue, -⟩ := htype.reads hfaults
      rw [hvalue]
      exact List.forall_mem_singleton.2 ⟨level, .intro hc₁ hnil ht⟩
  | _ => cases hfaults

theorem variableDefinitions_finds (level : Nat) :
    Finds ts (optionalParts (itemParts fun v => [v.type])) (TypeGiven ts)
      (variableDefinitions level) :=
  .nonEmpty variableDefinition_finds variableDefinition_sound _ _ _ _ level

theorem operationRest_finds_types {start : Nat} {type : OperationType} {name : Option Name} :
    Finds ts (optionalParts fun o => (Definition.operation o).types) (TypeGiven ts)
      (operationRest level start type name) := by
  intro c hc hfaults r hr
  rw [operationRest] at hfaults hr
  simp only [withinAll_eq_nil, List.append_eq_nil_iff] at hfaults
  obtain ⟨_, hvalue, hr⟩ := mem_optionalParts.1 hr
  obtain ⟨set, -, rfl⟩ := Option.map_eq_some_iff.1 hvalue
  exact (variableDefinitions_finds level).whenNext .lparen c hc hfaults.1.1 r hr

theorem definition_finds_types :
    Finds ts (optionalParts Definition.types) (TypeGiven ts) definition := by
  refine definition_finds (fun _ _ _ => operationRest_finds_types) (fun start c _ _ r hr => ?_)
    (fun keyword c _ _ r hr => ?_) (fun _ _ _ => typeDefinition_finds) fun _ => rfl
  · obtain ⟨_, hvalue, hr⟩ := mem_optionalParts.1 hr
    obtain ⟨set, -, rfl⟩ := Option.map_eq_some_iff.1 hvalue
    cases hr
  · obtain ⟨_, -, hr⟩ := mem_optionalParts.1 hr
    cases hr

end Grammar

/-- Every type reference of a document without errors was read from tokens of its source. -/
theorem typeGiven_of_parse {source : Text} {d : Document} {r : TypeRef}
    (h : parse source = ⟨some d, []⟩) (hr : r ∈ d.typeRefs) :
    Grammar.TypeGiven (lex source) r := by
  obtain ⟨whole, hwhole, hr⟩ := List.mem_flatMap.1 hr
  exact (finds_of_parse h Grammar.definition_finds_types whole hwhole).nested r hr

/-- A reference that stands in the source over the tokens `taken`, which are its text. At any level
at which it can be read there, its text is read again, to the end, as the same reference up to
offsets. -/
structure TypeRef.StandsIn (r : TypeRef) (source : Text) (before taken after : List Token) :
    Prop where
  tokens : lex source = before ++ taken ++ after
  text : taken.flatMap Token.text = r.render
  read : ∃ level, Grammar.Consumes (Grammar.typeRef level) before taken after r
  reread : ∀ level, Grammar.Consumes (Grammar.typeRef level) before taken after r →
    ∃ r', Grammar.Consumes (Grammar.typeRef level) [] (lex r.render) [] r' ∧ r'.erase = r.erase

/-- A reference read from the tokens of a source has a name, and stands in the source. -/
theorem standsIn_of_typeGiven {source : Text} {r : TypeRef}
    (h : Grammar.TypeGiven (lex source) r) :
    ∃ name before taken after, r.base? = some name ∧ r.StandsIn source before taken after := by
  obtain ⟨level, c, c', hc, hread⟩ := h
  have htakes := Grammar.typeRef_faithful level c (by rw [hread])
  have hr := (Grammar.isGrammatical_typeRef level c (by rw [hread])).1
  rw [hread] at htakes hr
  obtain ⟨before, taken, hcut, hc_eq, hc'_eq, hspells⟩ := hc.exists_cut htakes.1 (lexed_lex source)
  obtain ⟨n, hbase, hpiece⟩ := TypeRef.exists_base hr
  have hname : Token.IsName n.value := by
    obtain ⟨t, ht, hdenotes⟩ := hspells.exists_denotes hpiece rfl
    have hmem : t ∈ lex source := by
      rw [hcut]
      exact List.mem_append_left _ (List.mem_append_right before ht)
    have htext : t.text = n.value := hdenotes.text_eq
    rw [← htext]
    exact Token.isName_of_mem_lex hmem hdenotes.kind_eq
  refine ⟨n.value, before, taken, c'.ahead, hbase, hcut, ?_, ⟨level, ?_⟩, fun level hlevel => ?_⟩
  · rw [← TypeRef.flatMap_text_words hr, ← hspells.map_word r.optional_eq_false, List.flatMap_map]
    rfl
  · rw [Grammar.Consumes, ← hc_eq, ← hc'_eq]
    exact hread
  · have hheight := (Grammar.isGrammatical_typeRef level _ (congrArg Reading.faults hlevel)).2
    rw [show (Grammar.typeRef level _).value = r from congrArg Reading.value hlevel] at hheight
    refine Grammar.typeRef_reread hr hheight fun m hm => ?_
    cases hbase.symm.trans hm
    exact hname

end SelectionCheck
