import SelectionCheck.Proofs.Document.Faults.TypeSystem
import SelectionCheck.Proofs.Document.Leaves.Executable
import SelectionCheck.Proofs.Token.Lexer

/-!
# Where the leaves of type definitions and documents stand

The main statement is about every document that was read, with or without errors: its names,
scalars and descriptions in pre-order are read from tokens of the source whose offsets increase
from each to the next, so recovery neither makes up text nor repeats or reorders it.
-/

namespace SelectionCheck

open Record

variable {ts : List Token} {first second third fourth fifth last : Nat}

/-! ## The nodes -/

theorem InputValueDefinition.placed {d : InputValueDefinition}
    (hdescription : (ofOption Description.record d.description).Placed ts first second)
    (hname : d.name.record.Placed ts second third) (htype : d.type.record.Placed ts third fourth)
    (hdefault : (ofOption DefaultValue.record d.defaultValue).Placed ts fourth last) :
    d.record.Placed ts first last :=
  placed_node rfl rfl (.cons hdescription (.cons hname (.skip rfl (.cons htype
    (.cons hdefault (.nil (Nat.le_refl _)))))))

/-- The record of a punctuator has no nodes. -/
theorem nodes_ofSlot (slot : Slot) : (ofSlot slot).nodes = [] := by
  cases slot <;> rfl

theorem FieldDefinition.placed {d : FieldDefinition}
    (hdescription : (ofOption Description.record d.description).Placed ts first second)
    (hname : d.name.record.Placed ts second third)
    (harguments : (ofOption (ofBracketed .argumentDefinitions InputValueDefinition.record)
      d.arguments).Placed ts third fourth)
    (htype : d.type.record.Placed ts fourth fifth)
    (hdirectives : (directivesRecord d.directives).Placed ts fifth last) :
    d.record.Placed ts first last :=
  placed_node rfl rfl (.cons hdescription (.cons hname (.cons harguments
    (.skip (nodes_ofSlot d.colon) (.cons htype (.cons hdirectives (.nil (Nat.le_refl _))))))))

theorem EnumValueDefinition.placed {d : EnumValueDefinition}
    (hdescription : (ofOption Description.record d.description).Placed ts first second)
    (hvalue : d.value.record.Placed ts second third)
    (hdirectives : (directivesRecord d.directives).Placed ts third last) :
    d.record.Placed ts first last :=
  placed_node rfl rfl
    (.cons hdescription (.cons hvalue (.cons hdirectives (.nil (Nat.le_refl _)))))

/-- The parts that all forms of a type definition begin with, and those that its body gives. -/
theorem TypeDefinition.placed {d : TypeDefinition}
    (hdescription : (ofOption Description.record d.description).Placed ts first second)
    (hname : (ofOption Name.record d.name).Placed ts second third)
    (hbody : AllPlaced ts third last d.body.records) : d.record.Placed ts first last := by
  have hleaf : d.body.recordKind.isLeaf = false := by cases d.body <;> rfl
  have hcloser : d.body.recordKind.closer? = none := by cases d.body <;> rfl
  exact placed_oneOf rfl rfl (placed_node hleaf hcloser
    (.cons hdescription (.skip rfl (.cons hname hbody))))

namespace Grammar

variable {c c' : Cursor}

/-! ## Fields and arguments -/

theorem placed_of_description {described : Option Description} (hc : c.On ts)
    (h : description c = (described, c')) :
    (ofOption Description.record described).Placed ts c.behind c'.behind := by
  cases description_iff.1 h with
  | absent => exact placed_nothing (Nat.le_refl _)
  | found hahead hkind =>
      have hget := hc.getElem?
      rw [hahead, List.head?_cons] at hget
      exact Description.placed hget hkind rfl (Nat.le_refl _) (Nat.lt_succ_self _)

theorem inputValueDefinition_places (level : Nat) :
    Places (ofOption InputValueDefinition.record) (inputValueDefinition level) := by
  intro ts c hc
  generalize hr : inputValueDefinition level c = r
  cases inputValueDefinition_iff.1 hr with
  | tooDeep => exact placed_nothing (Nat.le_refl _)
  | noName hdescription => exact placed_nothing (reaches_of_description hc hdescription).le
  | noColon hdescription hname =>
      obtain ⟨-, hplaced⟩ := name_placed (reaches_of_description hc hdescription).on hname
      exact InputValueDefinition.placed (placed_of_description hc hdescription) hplaced
        (TypeRef.placed_missing (Nat.le_refl _)) (placed_nothing (Nat.le_refl _))
  | typed hdescription hname hcolon htype =>
      obtain ⟨hreaches, hplaced⟩ := name_placed (reaches_of_description hc hdescription).on hname
      obtain ⟨hreaches', -⟩ := reaches_of_punctuator hreaches.on hcolon
      obtain ⟨t, d, middle, hvalue, ht, hd⟩ := htype.placed hreaches'.on
      rw [hvalue]
      exact InputValueDefinition.placed (placed_of_description hc hdescription) hplaced
        (ht.mono hreaches'.le (Nat.le_refl _)) hd

theorem argumentsDefinition_places (level : Nat) :
    Places (ofOption (ofBracketed .argumentDefinitions InputValueDefinition.record))
      (argumentsDefinition level) :=
  nonEmpty_places inputValueDefinition_orderly inputValueDefinition_places _ _ _ rfl level

theorem inputFieldsDefinition_places (level : Nat) :
    Places (ofOption (ofBracketed .inputFieldDefinitions InputValueDefinition.record))
      (inputFieldsDefinition level) :=
  nonEmpty_places inputValueDefinition_orderly inputValueDefinition_places _ _ _ rfl level

theorem fieldDefinitionRest_placed (level : Nat) {described : Option Description} {n : Name}
    (hc : c.On ts)
    (hdescription : (ofOption Description.record described).Placed ts first second)
    (hname : n.record.Placed ts second c.behind) :
    (ofOption FieldDefinition.record (fieldDefinitionRest level described n c).value).Placed ts
      first (fieldDefinitionRest level described n c).next.behind := by
  have harguments := whenNext_orderly (argumentsDefinition_orderly level) .lparen hc
  have harguments' := whenNext_places (argumentsDefinition_places level) .lparen hc
  generalize hr : fieldDefinitionRest level described n c = r
  cases fieldDefinitionRest_iff.1 hr with
  | ended =>
      exact FieldDefinition.placed hdescription hname (placed_nothing (Nat.le_refl _))
        (TypeRef.placed_missing (Nat.le_refl _)) (placed_list (.nil (Nat.le_refl _)))
  | noColon _ ha =>
      subst ha
      exact FieldDefinition.placed hdescription hname harguments'
        (TypeRef.placed_missing (Nat.le_refl _)) (placed_list (.nil (Nat.le_refl _)))
  | whole _ ha hcolon ht hd =>
      subst ha ht hd
      obtain ⟨hreaches, -⟩ := reaches_of_punctuator harguments.on hcolon
      have htype := typeRef_orderly level hreaches.on
      exact FieldDefinition.placed hdescription hname harguments'
        ((typeRef_places level hreaches.on).mono hreaches.le (Nat.le_refl _))
        (directives_places true level htype.on)

theorem fieldDefinition_places (level : Nat) :
    Places (ofOption FieldDefinition.record) (fieldDefinition level) := by
  intro ts c hc
  generalize hr : fieldDefinition level c = r
  cases fieldDefinition_iff.1 hr with
  | tooDeep => exact placed_nothing (Nat.le_refl _)
  | noName hdescription => exact placed_nothing (reaches_of_description hc hdescription).le
  | whole hdescription hname =>
      obtain ⟨hreaches, hplaced⟩ := name_placed (reaches_of_description hc hdescription).on hname
      exact fieldDefinitionRest_placed _ hreaches.on (placed_of_description hc hdescription) hplaced

theorem fieldsDefinition_places (level : Nat) :
    Places (ofOption (ofBracketed .fieldDefinitions FieldDefinition.record))
      (fieldsDefinition level) :=
  nonEmpty_places fieldDefinition_orderly fieldDefinition_places _ _ _ rfl level

theorem enumValueDefinition_places (level : Nat) :
    Places (ofOption EnumValueDefinition.record) (enumValueDefinition level) := by
  intro ts c hc
  generalize hr : enumValueDefinition level c = r
  cases enumValueDefinition_iff.1 hr with
  | noName hdescription => exact placed_nothing (reaches_of_description hc hdescription).le
  | whole hdescription hname hd =>
      subst hd
      obtain ⟨hreaches, hplaced⟩ := name_placed (reaches_of_description hc hdescription).on hname
      exact EnumValueDefinition.placed (placed_of_description hc hdescription) hplaced
        (directives_places true level hreaches.on)

theorem enumValuesDefinition_places (level : Nat) :
    Places (ofOption (ofBracketed .enumValueDefinitions EnumValueDefinition.record))
      (enumValuesDefinition level) :=
  nonEmpty_places enumValueDefinition_orderly enumValueDefinition_places _ _ _ rfl level

/-! ## Type and schema definitions -/

theorem namesFrom_placed (separator : Token.Kind) (ahead : List Token) (behind : Nat)
    (read : List Name) (hc : (⟨ahead, behind⟩ : Cursor).On ts)
    (h : AllPlaced ts first behind (read.reverse.map Name.record)) :
    AllPlaced ts first (namesFrom separator ahead behind read).next.behind
      ((namesFrom separator ahead behind read).value.map Name.record) := by
  -- The name at the cursor stands behind those that were read before it.
  have hmore : ∀ {t : Token} {rest : List Token} {behind : Nat} {read : List Name},
      (⟨t :: rest, behind⟩ : Cursor).On ts → t.kind = .name →
      AllPlaced ts first behind (read.reverse.map Name.record) →
      AllPlaced ts first (behind + 1)
        ((⟨t.text, t.start⟩ :: read : List Name).reverse.map Name.record) := by
    intro t rest behind read hc hkind h
    rw [List.reverse_cons, List.map_append]
    exact h.append (.cons (placed_of_isName hc rfl hkind) (.nil (Nat.le_refl _)))
  fun_induction namesFrom separator ahead behind read with
  | case1 behind read => exact h
  | case2 t behind read hkind => exact hmore hc hkind h
  | case3 t behind read hkind s rest hseparator ih =>
      exact ih hc.past_past.on ((hmore hc hkind h).mono_last (Nat.le_succ _))
  | case4 t behind read hkind s rest hseparator => exact hmore hc hkind h
  | case5 t rest behind read hkind => exact h

theorem names_placed (separator : Token.Kind) (hc : c.On ts) :
    AllPlaced ts c.behind (names separator c).next.behind
      ((names separator c).value.map Name.record) := by
  generalize hr : names separator c = r
  cases names_iff.1 hr with
  | plain => exact namesFrom_placed separator c.ahead c.behind [] hc (.nil (Nat.le_refl _))
  | led hseparator =>
      obtain ⟨hreaches, -⟩ := reaches_of_punctuator hc hseparator
      exact namesFrom_placed separator _ _ [] hreaches.on (.nil hreaches.le)

theorem objectBody_placed (level : Nat) (hc : c.On ts) :
    AllPlaced ts c.behind (objectBody level c).next.behind (objectBody level c).value.records := by
  -- The fields behind the interfaces that were read.
  have hfields : ∀ {c' : Cursor} {interfaces : List Name}, c'.On ts →
      AllPlaced ts c.behind c'.behind (interfaces.map Name.record) →
      AllPlaced ts c.behind (fieldsDefinition level c').next.behind
        (TypeBody.object interfaces (fieldsDefinition level c').value).records := by
    intro c' interfaces hc' h
    exact .cons (placed_list h)
      (.cons (fieldsDefinition_places level hc') (.nil (Nat.le_refl _)))
  -- The interfaces, behind the keyword.
  have hread : ∀ {t rest}, c.ahead = t :: rest →
      AllPlaced ts c.behind (names .ampersand (c.past rest)).next.behind
        ((names .ampersand (c.past rest)).value.map Name.record) := by
    intro t rest hahead
    have hpast := hc.past hahead
    have hbefore : AllPlaced ts c.behind (c.past rest).behind [] := .nil hpast.le
    exact hbefore.append (names_placed .ampersand hpast.on)
  generalize hr : objectBody level c = r
  cases objectBody_iff.1 hr with
  | plain => exact hfields hc (.nil (Nat.le_refl _))
  | badNames hahead _ hi =>
      subst hi
      exact .cons (placed_list (hread hahead)) (.skip rfl (.nil (Nat.le_refl _)))
  | whole hahead _ hi =>
      subst hi
      exact hfields (names_orderly .ampersand (hc.past hahead).on).on (hread hahead)

theorem unionBody_placed (hc : c.On ts) :
    AllPlaced ts c.behind (unionBody c).next.behind (unionBody c).value.records := by
  generalize hr : unionBody c = r
  cases unionBody_iff.1 hr with
  | noEquals => exact .skip rfl (.skip rfl (.nil (Nat.le_refl _)))
  | whole hequals =>
      obtain ⟨hreaches, -⟩ := reaches_of_punctuator hc hequals
      have hnames := placed_list (names_placed .bar hreaches.on)
      exact .skip rfl (.cons (hnames.mono hreaches.le (Nat.le_refl _)) (.nil (Nat.le_refl _)))

theorem typeBody_placed (level : Nat) (form : TypeForm) (hc : c.On ts) :
    AllPlaced ts c.behind (typeBody level form c).next.behind
      (typeBody level form c).value.records := by
  cases form with
  | scalar => exact .nil (Nat.le_refl _)
  | object => exact objectBody_placed level hc
  | interface => exact .cons (fieldsDefinition_places level hc) (.nil (Nat.le_refl _))
  | union => exact unionBody_placed hc
  | enum => exact .cons (enumValuesDefinition_places level hc) (.nil (Nat.le_refl _))
  | input => exact .cons (inputFieldsDefinition_places level hc) (.nil (Nat.le_refl _))

/-- A definition of which nothing behind the keyword could be read has no leaves there. -/
theorem unreadBody_placed (form : TypeForm) (place : Nat) :
    AllPlaced ts place place form.unreadBody.records := by
  cases form with
  | scalar => exact .nil (Nat.le_refl _)
  | object => exact .skip rfl (.skip rfl (.nil (Nat.le_refl _)))
  | interface => exact .skip rfl (.nil (Nat.le_refl _))
  | union => exact .skip rfl (.skip rfl (.nil (Nat.le_refl _)))
  | enum => exact .skip rfl (.nil (Nat.le_refl _))
  | input => exact .skip rfl (.nil (Nat.le_refl _))

theorem typeDefinition_placed (level : Nat) (form : TypeForm) {described : Option Description}
    (keyword : Nat) (hc : c.On ts)
    (hdescription : (ofOption Description.record described).Placed ts first c.behind) :
    (typeDefinition level form described keyword c).value.record.Placed ts first
      (typeDefinition level form described keyword c).next.behind := by
  generalize hr : typeDefinition level form described keyword c = r
  cases typeDefinition_iff.1 hr with
  | noName =>
      exact TypeDefinition.placed hdescription (placed_nothing (Nat.le_refl _))
        (unreadBody_placed form _)
  | whole hname =>
      obtain ⟨hreaches, hplaced⟩ := name_placed hc hname
      exact TypeDefinition.placed hdescription hplaced (typeBody_placed level form hreaches.on)

theorem rootDefinition_places : Places (ofOption RootDefinition.record) rootDefinition := by
  intro ts c hc
  generalize hr : rootDefinition c = r
  cases rootDefinition_iff.1 hr with
  | noType => exact placed_nothing (Nat.le_refl _)
  | noColon hahead => exact placed_nothing (hc.past hahead).le
  | noName hahead _ hcolon =>
      have hpast := hc.past hahead
      exact placed_nothing (hpast.trans (reaches_of_punctuator hpast.on hcolon).1).le
  | whole hahead _ hcolon hname =>
      have hpast := hc.past hahead
      have hreaches := hpast.trans (reaches_of_punctuator hpast.on hcolon).1
      obtain ⟨-, hplaced⟩ := name_placed hreaches.on hname
      exact placed_node rfl rfl (.skip rfl (.skip rfl (.skip rfl
        (.cons (hplaced.mono hreaches.le (Nat.le_refl _)) (.nil (Nat.le_refl _))))))

theorem schemaDefinition_places (keyword : Nat) :
    Places (ofOption SchemaDefinition.record) (schemaDefinition keyword) := by
  intro ts c hc
  have hroots := bracketed_placed rootDefinition_orderly rootDefinition_places .lbrace .rbrace
    .rootDefinition hc
  have hle := (schemaDefinition_orderly keyword hc).reaches.le
  rw [schemaDefinition, Reading.map, Reading.within]
  cases hvalue : (bracketed .lbrace .rbrace .rootDefinition rootDefinition c).value with
  | none => exact placed_nothing hle
  | some roots =>
      have hread := hroots roots hvalue
      exact placed_closed rfl hread.closed rfl (.skip rfl (.skip rfl
        (.cons (placed_list hread.items) (.skip rfl (.nil (Nat.le_refl _))))))

/-! ## Documents -/

theorem keywordDefinition_placed {described : Option Description} (keyword : Token)
    (hc' : c'.On ts)
    (hdescription : (ofOption Description.record described).Placed ts c.behind c'.behind) :
    (ofOption Definition.record (keywordDefinition described keyword c c').value).Placed ts
      c.behind (keywordDefinition described keyword c c').next.behind := by
  generalize hr : keywordDefinition described keyword c c' = r
  cases keywordDefinition_iff.1 hr with
  | noForm => exact placed_nothing (Nat.le_refl _)
  | whole => exact placed_oneOf rfl rfl (typeDefinition_placed _ _ _ hc' hdescription)

theorem describedDefinition_placed {t : Token} {rest : List Token} (hc : c.On ts)
    (hahead : c.ahead = t :: rest) (hkind : t.kind = .string) :
    (ofOption Definition.record (describedDefinition t rest c).value).Placed ts c.behind
      (describedDefinition t rest c).next.behind := by
  have hpast := hc.past hahead
  have hget := hc.getElem?
  rw [hahead, List.head?_cons] at hget
  generalize hr : describedDefinition t rest c = r
  cases describedDefinition_iff.1 hr with
  | noKeyword => exact placed_nothing (Nat.le_refl _)
  | @keyword keyword rest _ =>
      have hpast' : (c.past (keyword :: rest)).Reaches ts ((c.past (keyword :: rest)).past rest) :=
        hpast.on.past rfl
      exact keywordDefinition_placed keyword hpast'.on
        (Description.placed hget hkind rfl (Nat.le_refl _) (Nat.lt_of_lt_of_le
          (Nat.lt_succ_self _) hpast'.le))

theorem definition_places : Places (ofOption Definition.record) definition := by
  -- A definition of one of the four forms.
  have hform : ∀ {β : Type} {record : β → Record} {form : β → Definition} {o : Option β}
      {ts : List Token} {first last : Nat},
      (∀ b, (record b).Placed ts first last → (form b).record.Placed ts first last) →
      (ofOption record o).Placed ts first last →
      (ofOption Definition.record (o.map form)).Placed ts first last := by
    intro β record form o ts first last h hplaced
    cases o with
    | none => exact hplaced
    | some b => exact h b hplaced
  intro ts c hc
  generalize hr : definition c = r
  cases definition_iff.1 hr with
  | ended | refused => exact placed_nothing (Nat.le_refl _)
  | operation hahead =>
      have hpast := hc.past hahead
      exact hform (fun _ => placed_oneOf rfl rfl)
        ((operation_places _ _ _ hpast.on).mono hpast.le (Nat.le_refl _))
  | shorthand => exact hform (fun _ => placed_oneOf rfl rfl) (shorthandQuery_places _ _ hc)
  | fragment hahead =>
      have hpast := hc.past hahead
      exact hform (fun _ => placed_oneOf rfl rfl)
        ((fragmentDefinition_places _ _ hpast.on).mono hpast.le (Nat.le_refl _))
  | schema hahead =>
      have hpast := hc.past hahead
      exact hform (fun _ => placed_oneOf rfl rfl)
        ((schemaDefinition_places _ hpast.on).mono hpast.le (Nat.le_refl _))
  | @keyword t rest hahead =>
      have hpast := hc.past hahead
      exact keywordDefinition_placed t hpast.on (placed_nothing hpast.le)
  | described hahead hkind => exact describedDefinition_placed hc hahead hkind

theorem definitionsFrom_placed (steps : List Token) (definitions : List Definition)
    (faults : List Fault) (hc : c.On ts)
    (h : AllPlaced ts 0 c.behind (definitions.reverse.map Definition.record)) :
    AllPlaced ts 0 ts.length
      ((definitionsFrom steps c definitions faults).1.map Definition.record) := by
  induction steps generalizing c definitions faults with
  | nil => exact h.mono_last hc.behind
  | cons step steps ih =>
      have hread := definition_places hc
      rw [definitionsFrom]
      split
      · exact h.mono_last hc.behind
      · next d hvalue =>
          have horderly := (definition_concludes hc).orderly
            (by rw [hvalue]; exact Option.some_ne_none d)
          rw [hvalue] at hread
          refine ih _ _ horderly.on ?_
          rw [List.reverse_cons, List.map_append]
          exact h.append (.cons hread (.nil (Nat.le_refl _)))

end Grammar

/-- Leaves that are read one after the other have increasing offsets, as their tokens have. -/
theorem LeavesBetween.pairwise_start {leaves : List Leaf} (hts : Lexed ts)
    (h : LeavesBetween ts first last leaves) :
    leaves.Pairwise fun leaf leaf' => leaf.start < leaf'.start := by
  induction h with
  | nil _ => exact .nil
  | @cons first place last leaf leaves hle hat h ih =>
      refine .cons (fun leaf' hleaf' => ?_) ih
      obtain ⟨t, hget, hread⟩ := hat
      obtain ⟨place', hlt, t', hget', hread'⟩ := h.exists_readFrom leaf' hleaf'
      obtain ⟨hplace, rfl⟩ := List.getElem?_eq_some_iff.1 hget
      obtain ⟨hplace', rfl⟩ := List.getElem?_eq_some_iff.1 hget'
      rw [hread.text_start.2, hread'.text_start.2]
      exact List.pairwise_iff_getElem.1 hts.increasing _ _ hplace hplace' hlt

theorem placed_of_parse {source : Text} {d : Document} (h : (parse source).document = some d) :
    d.record.Placed (lex source) 0 (lex source).length := by
  rw [parse] at h
  split at h
  · cases h
  · dsimp only at h
    split at h
    · cases h
      have hdefinitions := Grammar.definitionsFrom_placed (lex source) [] []
        (Cursor.on_ofTokens (lex source)) (.nil (Nat.le_refl _))
      exact placed_node rfl rfl (.cons (placed_list hdefinitions) (.nil (Nat.le_refl _)))
    · cases h

/-- In every document that was read, with or without errors, the names, scalars and descriptions in
pre-order have increasing offsets and each has the text and the offset of a token that is read as
such, and every closing bracket that was found is a token of its kind. -/
theorem leaves_of_parse {source : Text} {d : Document} (h : (parse source).document = some d) :
    (d.record.nodes.filterMap Record.leaf?).Pairwise
      (fun leaf leaf' => leaf.start < leaf'.start) ∧
    (∀ leaf ∈ d.record.nodes.filterMap Record.leaf?, ∃ t ∈ lex source,
      leaf.text = t.text ∧ leaf.start = t.start ∧ leaf.ReadFrom t) ∧
    ∀ kind parts, Record.node kind parts ∈ d.record.nodes →
      (kind.isLeaf = true → (Record.node kind parts).leaf?.isSome = true) ∧
      ∀ closer ∈ kind.closer?, ∃ closing, parts.getLast? = some (.offset closing) ∧
        ∀ offset ∈ closing, ∃ t ∈ lex source, t.kind = closer ∧ t.start = offset := by
  obtain ⟨hleaves, hmarked⟩ := placed_of_parse h
  refine ⟨hleaves.pairwise_start (lexed_lex source), fun leaf hleaf => ?_,
    fun kind parts hmem => hmarked _ hmem⟩
  obtain ⟨place, -, t, hget, hread⟩ := hleaves.exists_readFrom leaf hleaf
  exact ⟨t, List.mem_of_getElem? hget, hread.text_start.1, hread.text_start.2, hread⟩

/-- Arguments and fields without types, a field and an argument that are given up, and a selection
set that is not closed. -/
def recoveredSource : Text :=
  "\"d\" type T \x7b f(a I, \"e\" b: S = 1): I g \x7d
\x7b h: ...on T \x7b j(k: null, l, m: \"s\") \x7d n: @ o"

def leafStarts (d : Document) : List Nat :=
  (d.record.nodes.filterMap Record.leaf?).map Leaf.start

theorem leaves_recoveredSource : (parse recoveredSource).errors.length = 7 ∧
    ∃ d, (parse recoveredSource).document = some d ∧
    leafStarts d = [0, 9, 13, 15, 17, 20, 24, 27, 31, 35, 37, 52, 56, 58, 61, 70, 73] ∧
    (d.record.nodes.filterMap Record.leaf?).Pairwise
      (fun leaf leaf' => leaf.start < leaf'.start) ∧
    (∀ leaf ∈ d.record.nodes.filterMap Record.leaf?, ∃ t ∈ lex recoveredSource,
      leaf.text = t.text ∧ leaf.start = t.start ∧ leaf.ReadFrom t) ∧
    ∀ kind parts, Record.node kind parts ∈ d.record.nodes →
      (kind.isLeaf = true → (Record.node kind parts).leaf?.isSome = true) ∧
      ∀ closer ∈ kind.closer?, ∃ closing, parts.getLast? = some (.offset closing) ∧
        ∀ offset ∈ closing, ∃ t ∈ lex recoveredSource, t.kind = closer ∧ t.start = offset := by
  have hstarts : (parse recoveredSource).document.map leafStarts =
      some [0, 9, 13, 15, 17, 20, 24, 27, 31, 35, 37, 52, 56, 58, 61, 70, 73] := by
    rw [recoveredSource, Text.ofString_ofList]
    decide +kernel
  obtain ⟨d, hd, hleaves⟩ := Option.map_eq_some_iff.1 hstarts
  have herrors : (parse recoveredSource).errors.length = 7 := by
    rw [recoveredSource, Text.ofString_ofList]
    decide +kernel
  exact ⟨herrors, d, hd, hleaves, leaves_of_parse hd⟩

end SelectionCheck
