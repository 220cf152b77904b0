import SelectionCheck.Proofs.Document.Cases.TypeSystem
import SelectionCheck.Proofs.Document.Faults.Executable

/-!
# Where faults in type definitions and documents are met

The last lemma puts the readers together: the faults of a document are met in the order of its
tokens.
-/

namespace SelectionCheck.Grammar

variable {ts : List Token} {c c' : Cursor} {fault : Fault}

theorem reaches_of_description {described : Option Description} (hc : c.On ts)
    (h : description c = (described, c')) : c.Reaches ts c' := by
  cases description_iff.1 h with
  | absent => exact hc.refl
  | found hahead => exact hc.past hahead

/-! ## Fields and arguments -/

theorem inputValueDefinition_orderly (level : Nat) : Orderly (inputValueDefinition level) := by
  intro ts c hc
  generalize hr : inputValueDefinition level c = r
  cases inputValueDefinition_iff.1 hr with
  | tooDeep => exact tooDeep_orderly _ hc
  | noName hdescription hname =>
      have hdescribed := reaches_of_description hc hdescription
      exact .of_refuse hdescribed (at_of_name hdescribed.on hname)
  | noColon hdescription hname hcolon =>
      have hdescribed := reaches_of_description hc hdescription
      have hreaches := hdescribed.trans (reaches_of_name hdescribed.on hname).1
      exact .of_refuse hreaches (at_of_punctuator hreaches.on hcolon)
  | typed hdescription hname hcolon htype =>
      have hdescribed := reaches_of_description hc hdescription
      have hreaches := hdescribed.trans (reaches_of_name hdescribed.on hname).1
      have hcolon := hreaches.trans (reaches_of_punctuator hreaches.on hcolon).1
      exact (htype.orderly hcolon.on).after hcolon

theorem argumentsDefinition_orderly (level : Nat) : Orderly (argumentsDefinition level) :=
  nonEmpty_orderly inputValueDefinition_orderly _ _ _ _ level

theorem inputFieldsDefinition_orderly (level : Nat) : Orderly (inputFieldsDefinition level) :=
  nonEmpty_orderly inputValueDefinition_orderly _ _ _ _ level

theorem fieldDefinitionRest_orderly (level : Nat) (described : Option Description) (n : Name) :
    Orderly (fieldDefinitionRest level described n) := by
  intro ts c hc
  have harguments := whenNext_orderly (argumentsDefinition_orderly level) .lparen hc
  generalize hr : fieldDefinitionRest level described n c = r
  cases fieldDefinitionRest_iff.1 hr with
  | ended => exact .of_refuse hc.refl (Fault.at_expected hc .argumentsOrColon)
  | noColon _ ha hcolon =>
      subst ha
      have hat := at_of_punctuator harguments.on hcolon
      exact ⟨harguments.on, harguments.faults.append (.one (Nat.le_refl _) (Nat.le_refl _) hat)⟩
  | whole _ ha hcolon ht hd =>
      subst ha ht hd
      obtain ⟨hreaches, -⟩ := reaches_of_punctuator harguments.on hcolon
      have htype := (typeRef_orderly level hreaches.on).after hreaches
      have hdirectives := directives_orderly true level htype.on
      exact ⟨hdirectives.on, (harguments.faults.append htype.faults).append hdirectives.faults⟩

theorem fieldDefinition_orderly (level : Nat) : Orderly (fieldDefinition level) := by
  intro ts c hc
  generalize hr : fieldDefinition level c = r
  cases fieldDefinition_iff.1 hr with
  | tooDeep => exact tooDeep_orderly _ hc
  | noName hdescription hname =>
      have hdescribed := reaches_of_description hc hdescription
      exact .of_refuse hdescribed (at_of_name hdescribed.on hname)
  | whole hdescription hname =>
      have hdescribed := reaches_of_description hc hdescription
      have hreaches := hdescribed.trans (reaches_of_name hdescribed.on hname).1
      exact (fieldDefinitionRest_orderly _ _ _ hreaches.on).after hreaches

theorem fieldsDefinition_orderly (level : Nat) : Orderly (fieldsDefinition level) :=
  nonEmpty_orderly fieldDefinition_orderly _ _ _ _ level

/-! ## Enumerations -/

theorem enumValueDefinition_orderly (level : Nat) : Orderly (enumValueDefinition level) := by
  intro ts c hc
  generalize hr : enumValueDefinition level c = r
  cases enumValueDefinition_iff.1 hr with
  | noName hdescription hname =>
      have hdescribed := reaches_of_description hc hdescription
      exact .of_refuse hdescribed (at_of_name hdescribed.on hname)
  | @whole described symbol d c₁ c₂ hdescription hname hd =>
      subst hd
      have hdescribed := reaches_of_description hc hdescription
      obtain ⟨hreaches, hsymbol⟩ := reaches_of_name hdescribed.on hname
      have hdirectives := directives_orderly true level hreaches.on
      have hreserved : FaultsBetween ts c.behind c₂.behind (reservedFaults symbol) := by
        have hat : (Cause.reservedEnumValue symbol).At ts c₁.behind := hsymbol
        rw [reservedFaults]
        split
        · exact .one hdescribed.le hreaches.le (Fault.at_bare hat)
        · exact .nil (hdescribed.trans hreaches).le
      exact ⟨hdirectives.on, hreserved.append hdirectives.faults⟩

theorem enumValuesDefinition_orderly (level : Nat) : Orderly (enumValuesDefinition level) :=
  nonEmpty_orderly enumValueDefinition_orderly _ _ _ _ level

/-! ## Lists of names -/

theorem namesFrom_orderly (separator : Token.Kind) (ahead : List Token) (behind : Nat)
    (read : List Name) (hc : (⟨ahead, behind⟩ : Cursor).On ts) :
    (namesFrom separator ahead behind read).Orderly ts ⟨ahead, behind⟩ := by
  fun_induction namesFrom separator ahead behind read with
  | case1 behind read => exact .of_refuse hc.refl (Fault.at_expected hc .name)
  | case2 t behind read hkind => exact .of_reaches (hc.past rfl)
  | case3 t behind read hkind s rest hseparator ih => exact (ih hc.past_past.on).after hc.past_past
  | case4 t behind read hkind s rest hseparator => exact .of_reaches (hc.past rfl)
  | case5 t rest behind read hkind => exact .of_refuse hc.refl (Fault.at_expected hc .name)

theorem names_orderly (separator : Token.Kind) : Orderly (names separator) := by
  intro ts c hc
  generalize hr : names separator c = r
  cases names_iff.1 hr with
  | plain => exact namesFrom_orderly separator c.ahead c.behind [] hc
  | led hseparator =>
      obtain ⟨hreaches, -⟩ := reaches_of_punctuator hc hseparator
      exact (namesFrom_orderly separator _ _ [] hreaches.on).after hreaches

/-! ## Type and schema definitions -/

theorem objectBody_orderly (level : Nat) : Orderly (objectBody level) := by
  intro ts c hc
  generalize hr : objectBody level c = r
  cases objectBody_iff.1 hr with
  | plain => exact (fieldsDefinition_orderly level hc).map _
  | badNames hahead _ hi =>
      subst hi
      have hpast := hc.past hahead
      have hnames := (names_orderly .ampersand hpast.on).after hpast
      exact ⟨hnames.on, hnames.faults.withinAll (Context.from_rule ts .implements)⟩
  | whole hahead _ hi =>
      subst hi
      have hpast := hc.past hahead
      have hnames := (names_orderly .ampersand hpast.on).after hpast
      exact ((fieldsDefinition_orderly level hnames.on).after hnames.reaches).map _

theorem unionBody_orderly : Orderly unionBody := by
  intro ts c hc
  generalize hr : unionBody c = r
  cases unionBody_iff.1 hr with
  | noEquals hequals => exact .of_refuse hc.refl (at_of_punctuator hc hequals)
  | whole hequals =>
      obtain ⟨hreaches, -⟩ := reaches_of_punctuator hc hequals
      exact ((names_orderly .bar hreaches.on).after hreaches).map _

theorem typeBody_orderly (level : Nat) (form : TypeForm) : Orderly (typeBody level form) := by
  intro ts c hc
  cases form with
  | scalar => exact .of_reaches hc.refl
  | object => exact objectBody_orderly level hc
  | interface => exact (fieldsDefinition_orderly level hc).map _
  | union => exact unionBody_orderly hc
  | enum => exact (enumValuesDefinition_orderly level hc).map _
  | input => exact (inputFieldsDefinition_orderly level hc).map _

theorem typeDefinition_orderly (level : Nat) (form : TypeForm) (described : Option Description)
    (keyword : Nat) : Orderly (typeDefinition level form described keyword) := by
  intro ts c hc
  generalize hr : typeDefinition level form described keyword c = r
  cases typeDefinition_iff.1 hr with
  | noName hname =>
      exact .of_refuse hc.refl ((at_of_name hc hname).within (Context.from_rule ts form.rule))
  | whole hname =>
      obtain ⟨hreaches, hn⟩ := reaches_of_name hc hname
      exact (((typeBody_orderly level form hreaches.on).within
        (Context.from_named form.rule hn)).after hreaches).map _

theorem rootDefinition_orderly : Orderly rootDefinition := by
  intro ts c hc
  generalize hr : rootDefinition c = r
  cases rootDefinition_iff.1 hr with
  | noType => exact .of_refuse hc.refl (Fault.at_expected hc .operationType)
  | noColon hahead _ hcolon =>
      have hpast := hc.past hahead
      exact .of_refuse hpast (at_of_punctuator hpast.on hcolon)
  | noName hahead _ hcolon hname =>
      have hpast := hc.past hahead
      have hreaches := hpast.trans (reaches_of_punctuator hpast.on hcolon).1
      exact .of_refuse hreaches (at_of_name hreaches.on hname)
  | whole hahead _ hcolon hname =>
      have hpast := hc.past hahead
      have hreaches := hpast.trans (reaches_of_punctuator hpast.on hcolon).1
      exact .of_reaches (hreaches.trans (reaches_of_name hreaches.on hname).1)

theorem schemaDefinition_orderly (keyword : Nat) : Orderly (schemaDefinition keyword) :=
  fun ts _ hc => ((bracketed_orderly rootDefinition_orderly .lbrace .rbrace .rootDefinition
    hc).within (Context.from_rule ts .schemaDefinition)).map _

/-! ## Documents -/

/-- What a definition that was read, or refused, says about its faults. A refusal behind a
description is about the token after it, which the cursor has not reached. -/
structure Concludes (ts : List Token) (c : Cursor) (r : Reading (Option Definition)) : Prop where
  faults : FaultsBetween ts c.behind ts.length r.faults
  orderly : r.value ≠ none → r.Orderly ts c

theorem Concludes.of_orderly {r : Reading (Option Definition)} (h : r.Orderly ts c) :
    Concludes ts c r :=
  ⟨h.faults.mono (Nat.le_refl _) h.on.behind, fun _ => h⟩

theorem Concludes.of_refuse (hreaches : c.Reaches ts c') (hat : fault.At ts c'.behind) :
    Concludes ts c (.refuse none fault c) :=
  ⟨.one hreaches.le hreaches.on.behind hat, fun h => absurd rfl h⟩

theorem keywordDefinition_concludes (described : Option Description) {keyword : Token}
    {rest : List Token} (hreaches : c.Reaches ts c') (hahead : c'.ahead = keyword :: rest) :
    Concludes ts c (keywordDefinition described keyword c (c'.past rest)) := by
  generalize hr : keywordDefinition described keyword c (c'.past rest) = r
  cases keywordDefinition_iff.1 hr with
  | noForm =>
      have hat := (Fault.at_expected hreaches.on .keyword).within (Context.from_rule ts .definition)
      rw [hahead] at hat
      exact .of_refuse hreaches hat
  | @whole form =>
      have hpast := hreaches.trans (hreaches.on.past hahead)
      have hbody := typeDefinition_orderly partLevel form described keyword.start hpast.on
      exact .of_orderly ((hbody.after hpast).map _)

theorem describedDefinition_concludes {t : Token} {rest : List Token} (hc : c.On ts)
    (hahead : c.ahead = t :: rest) : Concludes ts c (describedDefinition t rest c) := by
  have hpast := hc.past hahead
  generalize hr : describedDefinition t rest c = r
  cases describedDefinition_iff.1 hr with
  | noKeyword =>
      exact .of_refuse hpast
        ((Fault.at_expected hpast.on .keyword).within (Context.from_rule ts .typeDefinition))
  | keyword => exact keywordDefinition_concludes _ hpast rfl

theorem definition_concludes (hc : c.On ts) : Concludes ts c (definition c) := by
  generalize hr : definition c = r
  cases definition_iff.1 hr with
  | ended => exact .of_orderly (.of_reaches hc.refl)
  | operation hahead =>
      have hpast := hc.past hahead
      exact .of_orderly (((operation_orderly _ _ _ hpast.on).after hpast).map _)
  | shorthand => exact .of_orderly ((shorthandQuery_orderly _ _ hc).map _)
  | fragment hahead =>
      have hpast := hc.past hahead
      exact .of_orderly (((fragmentDefinition_orderly _ _ hpast.on).after hpast).map _)
  | schema hahead =>
      have hpast := hc.past hahead
      exact .of_orderly (((schemaDefinition_orderly _ hpast.on).after hpast).map _)
  | keyword hahead => exact keywordDefinition_concludes none hc.refl hahead
  | described hahead => exact describedDefinition_concludes hc hahead
  | refused =>
      exact .of_refuse hc.refl
        ((Fault.at_expected hc .stringOrKeyword).within (Context.from_rule ts .typeDefinition))

theorem definitionsFrom_orderly (steps : List Token) (definitions : List Definition)
    (faults : List Fault) (hc : c.On ts) (hfaults : FaultsBetween ts 0 c.behind faults.reverse) :
    FaultsBetween ts 0 ts.length (definitionsFrom steps c definitions faults).2 := by
  induction steps generalizing c definitions faults with
  | nil => exact hfaults.mono (Nat.le_refl _) hc.behind
  | cons step steps ih =>
      have hdefinition := definition_concludes hc
      rw [definitionsFrom]
      split
      · rw [List.reverse_append, List.reverse_reverse]
        exact hfaults.append hdefinition.faults
      · next d hvalue =>
          have horderly := hdefinition.orderly (by rw [hvalue]; exact Option.some_ne_none d)
          refine ih _ _ horderly.on ?_
          rw [List.reverse_append, List.reverse_reverse]
          exact hfaults.append horderly.faults

/-- The faults of a document are met in the order of its tokens. -/
theorem definitions_orderly (ts : List Token) :
    FaultsBetween ts 0 ts.length (definitions ts).2 :=
  definitionsFrom_orderly ts [] [] (Cursor.on_ofTokens ts) (.nil (Nat.le_refl _))

end SelectionCheck.Grammar
