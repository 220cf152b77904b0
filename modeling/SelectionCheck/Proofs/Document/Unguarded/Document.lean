import SelectionCheck.Document.Record
import SelectionCheck.Proofs.Document.Unguarded.Executable
import SelectionCheck.Proofs.Document.Unguarded.TypeSystem

/-!
# Definitions read without looking

A definition is a record here, since it need not take a form. Whatever the rule for a type gave, a
definition is made of it, so a rule that gave up before the keyword would leave a definition
without a form, and no token would be taken for it. The main statements are that every definition
takes a token, that the definitions are those of `Grammar.definitions`, and that a document is read
from every text.
-/

namespace SelectionCheck

/-! ## Progress of definitions -/

namespace Reading

variable {α : Type} {c c' : Cursor}

/-- The reading gives nothing, or leaves fewer tokens ahead than there were. -/
def Shortens (r : Reading (Option α)) (c : Cursor) : Prop :=
  ∀ a ∈ r.value, r.next.ahead.length < c.ahead.length

theorem Shortens.of_none {faults : List Fault} :
    (⟨none, faults, c'⟩ : Reading (Option α)).Shortens c :=
  fun a ha => absurd ha (Option.not_mem_none a)

end Reading

namespace Grammar

variable {α : Type} {c c' : Cursor} {t : Token} {rest : List Token}

/-- A reader that starts with fewer tokens ahead does not get back to those that were taken. -/
theorem Orderly.length_lt {reader : Cursor → Reading α} (h : Orderly reader)
    (hlt : c'.ahead.length < c.ahead.length) :
    (reader c').next.ahead.length < c.ahead.length :=
  Nat.lt_of_le_of_lt (h.length_add_behind c').1.length_le hlt

theorem length_past_lt (hahead : c.ahead = t :: rest) :
    (c.past rest).ahead.length < c.ahead.length := by
  rw [hahead]
  exact Nat.lt_succ_self _

theorem items_orderly {item : Cursor → Reading (Option α)} (hitem : Orderly item)
    (closer : Token.Kind) (rule : Rule) :
    Orderly fun c => itemsFrom closer rule item c.ahead 1 c [] [] := by
  intro ts c hc
  obtain ⟨place, hends⟩ := itemsFrom_ends hitem closer rule c.ahead 1 [] [] hc
    (.nil (Nat.le_refl _))
  exact ⟨hends.on, hends.faults.mono (Nat.le_refl _) hends.le⟩

theorem length_shorthandQuery_lt (level start : Nat) (hahead : c.ahead = t :: rest)
    (hkind : t.kind = .lbrace) :
    (shorthandQuery (level + 1) start c).next.ahead.length < c.ahead.length := by
  have hitems := items_orderly (selectionsOrderly level).selection .rbrace .selection
  rw [shorthandQuery, selectionSet,
    bracketed_iff.2 (.opened (punctuator_iff.2 (.found hahead hkind)))]
  exact hitems.length_lt (length_past_lt hahead)

theorem keywordDefinition_shortens (described : Option Description) (keyword : Token)
    (hlt : c'.ahead.length < c.ahead.length) :
    (keywordDefinition described keyword c c').Shortens c := by
  generalize hr : keywordDefinition described keyword c c' = r
  cases keywordDefinition_iff.1 hr with
  | noForm => exact .of_none
  | @whole form =>
      exact fun _ _ =>
        (typeDefinition_orderly partLevel form described keyword.start).length_lt hlt

theorem describedDefinition_shortens (hahead : c.ahead = t :: rest) :
    (describedDefinition t rest c).Shortens c := by
  have hlt := length_past_lt hahead
  generalize hr : describedDefinition t rest c = r
  cases describedDefinition_iff.1 hr with
  | noKeyword => exact .of_none
  | keyword => exact keywordDefinition_shortens _ _ (Nat.lt_trans (Nat.lt_succ_self _) hlt)

/-- A definition that was read took a token. -/
theorem definition_shortens (c : Cursor) : (definition c).Shortens c := by
  generalize hr : definition c = r
  cases definition_iff.1 hr with
  | ended | refused => exact .of_none
  | operation hahead =>
      exact fun _ _ => (operation_orderly _ _ _).length_lt (length_past_lt hahead)
  | @shorthand t _ hahead hkind =>
      exact fun _ _ => length_shorthandQuery_lt _ t.start hahead hkind
  | fragment hahead =>
      exact fun _ _ => (fragmentDefinition_orderly _ _).length_lt (length_past_lt hahead)
  | @schema t _ hahead =>
      exact fun _ _ => (schemaDefinition_orderly t.start).length_lt (length_past_lt hahead)
  | @keyword t _ hahead => exact keywordDefinition_shortens none t (length_past_lt hahead)
  | described hahead => exact describedDefinition_shortens hahead

end Grammar

/-! ## Definitions -/

namespace Unguarded

open Grammar (TypeForm)
open Record (oneOf ofOption)

noncomputable section

/-- The record of a definition made of what the rule for a type gave. -/
def typeRecord (form : TypeForm) (d : Option TypeDefinition) : Record :=
  let before := form.unreadBody.formsBefore
  oneOf .definition 2
    (oneOf .typeDefinition before (ofOption TypeDefinition.formRecord d) (5 - before)) 1

def keywordDefinition (level : Nat) (keyword : Token) (c : Cursor) :
    Option (Reading (Option Record)) :=
  match TypeForm.ofWord? keyword.text with
  | none =>
    return .refuse none ((Fault.expected .keyword (some keyword)).within (.rule .definition)) c
  | some form => return (← typeDefinition form level c).map fun d => some (typeRecord form d)

def describedDefinition (level : Nat) (c : Cursor) : Option (Reading (Option Record)) := do
  if c.ahead.length = 1 then
    return .refuse none ((Fault.expected .keyword none).within (.rule .typeDefinition)) c
  else
    let keyword ← c.second?
    if keyword.kind = .name then keywordDefinition level keyword c
    else
      return .refuse none
        ((Fault.expected .keyword (some keyword)).within (.rule .typeDefinition)) c

def definition (level : Nat) (c : Cursor) : Option (Reading (Option Record)) :=
  c.peek (return ⟨none, [], c⟩) fun t =>
    match level with
    | 0 => return .refuse none .tooDeep c
    | level + 1 =>
      if (Grammar.operationType? t).isSome || t.kind = .lbrace then
        return (← operation level c).map (·.map fun o => (Definition.operation o).record)
      else if t.isWord "fragment" then
        return (← fragmentDefinition level c).map (·.map fun f => (Definition.fragment f).record)
      else if t.isWord "schema" then
        return (← schemaDefinition level c).map (·.map fun d => (Definition.schema d).record)
      else if t.kind = .name then keywordDefinition level t c
      else if t.kind = .string then describedDefinition level c
      else
        return .refuse none
          ((Fault.expected .stringOrKeyword (some t)).within (.rule .typeDefinition)) c

/-- A type definition takes the form that its keyword names. -/
theorem formsBefore_typeBody (level : Nat) (form : TypeForm) (c : Cursor) :
    (Grammar.typeBody level form c).value.formsBefore = form.unreadBody.formsBefore := by
  cases form with
  | object =>
      rw [Grammar.typeBody]
      generalize hr : Grammar.objectBody level c = r
      cases Grammar.objectBody_iff.1 hr <;> rfl
  | union =>
      rw [Grammar.typeBody]
      generalize hr : Grammar.unionBody c = r
      cases Grammar.unionBody_iff.1 hr <;> rfl
  | _ => rfl

theorem typeRecord_typeDefinition (level : Nat) (form : TypeForm)
    (described : Option Description) (keyword : Nat) (c : Cursor) :
    typeRecord form (some (Grammar.typeDefinition level form described keyword c).value) =
      (Definition.type (Grammar.typeDefinition level form described keyword c).value).record := by
  have hforms : (Grammar.typeDefinition level form described keyword c).value.body.formsBefore =
      form.unreadBody.formsBefore := by
    generalize hr : Grammar.typeDefinition level form described keyword c = r
    cases Grammar.typeDefinition_iff.1 hr with
    | noName => rfl
    | whole => exact formsBefore_typeBody level form _
  rw [typeRecord, Definition.record, TypeDefinition.record, hforms]
  rfl

/-- The keyword that tells the form of a type definition is the one that its rule looks for. -/
theorem isWord_of_ofWord? {t : Token} {form : TypeForm} (ht : t.kind = .name)
    (h : TypeForm.ofWord? t.text = some form) : t.isWord form.keyword = true := by
  have hword := List.find?_some h
  simp only [decide_eq_true_eq] at hword
  simp [Token.isWord, ht, hword]

theorem keywordDefinition_eq {c : Cursor} {described : Option Description} {t : Token}
    {rest : List Token} {behind : Nat} (ht : t.kind = .name)
    (hdescribed : Grammar.description c = (described, ⟨t :: rest, behind⟩)) :
    keywordDefinition (Grammar.partLevel + 1) t c =
      pure ((Grammar.keywordDefinition described t c ⟨rest, behind + 1⟩).map
        (·.map Definition.record)) := by
  generalize hr : Grammar.keywordDefinition described t c ⟨rest, behind + 1⟩ = r
  rw [keywordDefinition]
  cases Grammar.keywordDefinition_iff.1 hr with
  | noForm hform =>
      rw [hform]
      rfl
  | whole hform =>
      simp only [hform, typeDefinition_eq hdescribed (isWord_of_ofWord? ht hform), pure_bind,
        Reading.map, typeRecord_typeDefinition, Option.map_some]

theorem describedDefinition_eq {t : Token} {rest : List Token} {behind : Nat}
    (ht : t.kind = .string) :
    describedDefinition (Grammar.partLevel + 1) ⟨t :: rest, behind⟩ =
      pure ((Grammar.describedDefinition t rest ⟨t :: rest, behind⟩).map
        (·.map Definition.record)) := by
  generalize hr : Grammar.describedDefinition t rest ⟨t :: rest, behind⟩ = r
  cases Grammar.describedDefinition_iff.1 hr with
  | noKeyword hkind =>
      cases rest with
      | nil => rfl
      | cons keyword rest =>
          rw [describedDefinition, if_neg (by simp), second?_cons, pure_bind,
            if_neg (hkind keyword rfl)]
          rfl
  | keyword hkind =>
      rw [describedDefinition, if_neg (by simp), second?_cons, pure_bind, if_pos hkind]
      exact keywordDefinition_eq hkind (Grammar.description_iff.2 (.found rfl ht))

/-- A definition is read wherever there is a token, and takes a form. -/
theorem definition_eq (c : Cursor) :
    definition nestingLimit c = pure ((Grammar.definition c).map (·.map Definition.record)) := by
  have hlevel : nestingLimit = Grammar.partLevel + 1 + 1 := rfl
  generalize hr : Grammar.definition c = r
  rw [definition.eq_def, hlevel]
  obtain ⟨ahead, behind⟩ := c
  cases Grammar.definition_iff.1 hr with
  | ended hahead =>
      cases hahead
      rfl
  | operation hahead htype =>
      cases hahead
      simp only [peek_cons, htype, Option.isSome_some, Bool.true_or, if_true,
        operation_eq_of_operationType? htype, pure_bind, Reading.map, Option.map_map]
      rfl
  | shorthand hahead hkind =>
      cases hahead
      simp only [peek_cons, hkind, decide_true, Bool.or_true, if_true, operation_eq_of_lbrace hkind,
        pure_bind, Reading.map, Option.map_map]
      rfl
  | fragment hahead hword =>
      cases hahead
      have htype := Grammar.operationType?_of_isWord hword (by decide)
      simp [peek_cons, htype, (Token.isWord_iff.1 hword).1, hword, fragmentDefinition_eq hword,
        Reading.map, Function.comp_def, Cursor.past]
  | schema hahead hword =>
      cases hahead
      have htype := Grammar.operationType?_of_isWord hword (by decide)
      have hfragment := Grammar.isWord_fragment_of_schema hword
      simp [peek_cons, htype, (Token.isWord_iff.1 hword).1, hfragment, hword, schemaDefinition_eq,
        Reading.map, Function.comp_def, Cursor.past]
  | @keyword t rest hahead hkind htype hfragment hschema =>
      cases hahead
      have hdescribed : Grammar.description ⟨t :: rest, behind⟩ = (none, ⟨t :: rest, behind⟩) :=
        Grammar.description_iff.2 (.absent (by simp [Cursor.kind?, hkind]))
      simp only [peek_cons, htype, hkind, hfragment, hschema]
      exact keywordDefinition_eq hkind hdescribed
  | described hahead hkind =>
      cases hahead
      have htype := Grammar.operationType?_of_ne_name (by rw [hkind]; decide)
      simp only [peek_cons, htype, Token.isWord, hkind]
      exact describedDefinition_eq hkind
  | refused hahead hname hlbrace hstring =>
      cases hahead
      simp [peek_cons, Grammar.operationType?_of_ne_name hname, Token.isWord, hname, hlbrace,
        hstring, Reading.map, Reading.refuse]

-- One level further in, the rule for a type gives up before the keyword. The definition that is
-- made of it has no form and took no token, so reading on would not end.
example : definition 1 ⟨[⟨.name, "type", 0⟩], 0⟩ =
    some ⟨some (typeRecord .object none), [.tooDeep], ⟨[⟨.name, "type", 0⟩], 0⟩⟩ := rfl

/-! ## Documents -/

def definitionsFrom (c : Cursor) (definitions : List Record) (faults : List Fault) :
    Option (List Record × List Fault) :=
  loop (c, definitions, faults) fun (c, definitions, faults) => do
    if c.isAtEnd then return .inl (definitions.reverse, faults.reverse)
    else
      let r ← definition nestingLimit c
      let faults := r.faults.reverse ++ faults
      match r.value with
      | none => return .inl (definitions.reverse, faults.reverse)
      | some d => return .inr (r.next, d :: definitions, faults)

def definitions (tokens : List Token) : Option (List Record × List Fault) :=
  definitionsFrom (.ofTokens tokens) [] []

def parse (source : Text) : Option (Option Record × List SourceError) := do
  if source.length > sizeLimit then return (none, [.tooLarge])
  else
    let tokens := lex source
    match tokens.flatMap Token.errors with
    | [] =>
      let read ← definitions tokens
      return (some (.node .document [.list read.1]), read.2.map .grammar)
    | errors => return (none, errors)

/-- The definitions that come next. The number of steps is enough, since every definition takes a
token. -/
theorem definitionsFrom_eq {steps : List Token} {c : Cursor}
    (hsteps : c.ahead.length ≤ steps.length) (read : List Definition) (faults : List Fault) :
    definitionsFrom c (read.map Definition.record) faults =
      pure ((Grammar.definitionsFrom steps c read faults).1.map Definition.record,
        (Grammar.definitionsFrom steps c read faults).2) := by
  induction steps generalizing c read faults with
  | nil =>
      obtain ⟨_ | ⟨t, rest⟩, behind⟩ := c
      · exact loop_of_ends (by simp [Cursor.isAtEnd, Grammar.definitionsFrom])
      · cases hsteps
  | cons step steps ih =>
      rw [Grammar.definitionsFrom]
      obtain ⟨_ | ⟨t, rest⟩, behind⟩ := c
      · exact loop_of_ends (by simp [Cursor.isAtEnd, Grammar.definition])
      · cases hvalue : (Grammar.definition ⟨t :: rest, behind⟩).value with
        | none =>
            exact loop_of_ends (by simp [Cursor.isAtEnd, definition_eq, Reading.map, hvalue])
        | some d =>
            have hlt := Grammar.definition_shortens _ d hvalue
            simp only [List.length_cons] at hsteps hlt
            refine (loop_of_goesOn ?_).trans (ih (by omega) (d :: read) _)
            simp [Cursor.isAtEnd, definition_eq, Reading.map, hvalue]

theorem definitions_eq (tokens : List Token) :
    definitions tokens =
      pure ((Grammar.definitions tokens).1.map Definition.record, (Grammar.definitions tokens).2) :=
  definitionsFrom_eq (Nat.le_refl _) [] []

/-- A document is read from every text, and its record is that of the document that is there. -/
theorem parse_eq (source : Text) :
    parse source =
      pure ((SelectionCheck.parse source).document.map Document.record,
        (SelectionCheck.parse source).errors) := by
  rw [parse, SelectionCheck.parse]
  split
  · rfl
  · dsimp only
    cases (lex source).flatMap Token.errors with
    | nil =>
        rw [definitions_eq]
        rfl
    | cons e errors => rfl

end

end Unguarded

end SelectionCheck
