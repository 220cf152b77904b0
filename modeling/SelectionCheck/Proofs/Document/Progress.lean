import SelectionCheck.Proofs.Document.Closing
import SelectionCheck.Proofs.Document.Forms
import SelectionCheck.Proofs.Document.Unguarded.Document

/-!
# Progress of the parser

Reading a document comes to an end because no rule gets back to tokens that were taken, because a
round of a list that takes no token is the last, and because a definition that is read takes a
token. The main statement puts this together for rules that neither look ahead more than they must
nor count their steps: they read every list of tokens, whatever faults it has, to an end, never ask
for a token where there is none, and make no definition that takes no form.
-/

namespace SelectionCheck

namespace Unguarded

open Grammar

variable {α β : Type}

/-! ## Rules -/

def ofExcept {ε : Type} (refused : ε → Fault × Cursor) : Except ε (α × Cursor) → Reading (Option α)
  | .error e => .refuse none (refused e).1 (refused e).2
  | .ok (a, c) => ⟨some a, [], c⟩

def ofPair (read : Option α × Cursor) : Reading (Option α) := ⟨read.1, [], read.2⟩

/-- The rules of the language. A rule that is made of another one, as a field is of a selection
set, is applied to it. -/
inductive IsRule : {α : Type} → (Cursor → Option (Reading α)) → Prop
  | name : IsRule fun c => return ofExcept (·, c) (← name c)
  | punctuator kind : IsRule fun c => return ofExcept (·, c) (← punctuator kind c)
  | skipTo pending : IsRule fun c => return ofPair (← skipTo pending c)
  | variableRef : IsRule fun c => return ofExcept id (← variableRef c)
  | value constant level : IsRule (value constant level)
  | listValue constant level : IsRule (listValue constant level)
  | objectValue constant level : IsRule (objectValue constant level)
  | objectField constant level : IsRule (objectField (value constant level))
  | defaultValue level : IsRule (defaultValue level)
  | argument constant level : IsRule (argument constant level)
  | arguments constant level : IsRule (arguments constant level)
  | directives constant level : IsRule (directives constant level)
  | bang : IsRule fun c => return ofPair (← bang c)
  | typeRef level : IsRule (typeRef level)
  | typeCondition level : IsRule fun c => return ofExcept id (← typeCondition level c)
  | fragmentSpread level : IsRule (fragmentSpread level)
  | inlineFragment level : IsRule (inlineFragment level)
  | fragment level : IsRule (fragment (fragmentSpread level) (inlineFragment level))
  | field level : IsRule (field level (selectionSet level))
  | selection level : IsRule (selection level)
  | selectionSet level : IsRule (selectionSet level)
  | variableDefinition level : IsRule (variableDefinition level)
  | variableDefinitions level : IsRule (variableDefinitions level)
  | operation level : IsRule (operation level)
  | fragmentDefinition level : IsRule (fragmentDefinition level)
  | description : IsRule fun c => return ofPair (← description c)
  | inputValueDefinition level : IsRule (inputValueDefinition level)
  | argumentsDefinition level : IsRule (argumentsDefinition level)
  | inputFieldsDefinition level : IsRule (inputFieldsDefinition level)
  | fieldDefinition level : IsRule (fieldDefinition level)
  | fieldsDefinition level : IsRule (fieldsDefinition level)
  | enumValueDefinition level : IsRule (enumValueDefinition level)
  | enumValuesDefinition level : IsRule (enumValuesDefinition level)
  | names separator : IsRule (names separator)
  | implements : IsRule implements
  | typeDefinition form level : IsRule (typeDefinition form level)
  | rootDefinition : IsRule rootDefinition
  | schemaDefinition level : IsRule (schemaDefinition level)
  | definition level : IsRule (definition level)

/-- There is a reading, and what it leaves ahead ends what was ahead of the cursor. -/
def Advances (c : Cursor) (read : Option (Reading α)) : Prop :=
  ∃ r ∈ read, r.next.ahead <:+ c.ahead

/-- The rule advances wherever there is a token. Where there is none it may ask for one, if it
relies on its callers. -/
def Steady (rule : Cursor → Option (Reading α)) : Prop :=
  ∀ c, Advances c (rule c) ∨ c.ahead = [] ∧ rule c = none

section

variable {rule : Cursor → Option (Reading α)} {reader : Cursor → Reading α} {c : Cursor}
  {t : Token} {rest : List Token} {behind : Nat}

theorem Advances.upTo {value : α} {faults : List Fault} {c' : Cursor}
    (hsuffix : c'.ahead <:+ c.ahead) : Advances c (some ⟨value, faults, c'⟩) :=
  ⟨_, rfl, hsuffix⟩

theorem Advances.still {value : α} {faults : List Fault} :
    Advances c (some ⟨value, faults, c⟩) :=
  .upTo (List.suffix_refl _)

theorem Advances.map {read : Option (Reading α)} (h : Advances c read) (f : α → β) :
    Advances c (do return (← read).map f) := by
  obtain ⟨r, rfl, hsuffix⟩ := h
  exact .upTo hsuffix

theorem Advances.of_orderly (h : Orderly reader) : Advances c (some (reader c)) :=
  .upTo (h.length_add_behind c).1

theorem Advances.of_past (h : Orderly reader) :
    Advances ⟨t :: rest, behind⟩ (some (reader ⟨rest, behind + 1⟩)) :=
  .upTo ((h.length_add_behind ⟨rest, behind + 1⟩).1.trans (List.suffix_cons t rest))

theorem Steady.of_orderly (h : Orderly reader) (heq : ∀ c, rule c = pure (reader c)) :
    Steady rule := by
  intro c
  rw [heq]
  exact .inl (.of_orderly h)

theorem Steady.of_read {γ : Type} {read : Cursor → Option γ} {model : Cursor → γ}
    {toReading : Cursor → γ → Reading α} (heq : ∀ c, read c = pure (model c))
    (h : ∀ {ts : List Token} {c : Cursor}, c.On ts → c.Reaches ts (toReading c (model c)).next) :
    Steady fun c => return toReading c (← read c) := by
  intro c
  obtain ⟨ts, hc⟩ := c.exists_on
  simp only [heq, pure_bind]
  exact .inl (.upTo ((h hc).isSuffix hc))

theorem Steady.of_cases
    (hnil : ∀ behind, Advances ⟨[], behind⟩ (rule ⟨[], behind⟩) ∨ rule ⟨[], behind⟩ = none)
    (hcons : ∀ t rest behind, Advances ⟨t :: rest, behind⟩ (rule ⟨t :: rest, behind⟩)) :
    Steady rule := by
  rintro ⟨_ | ⟨t, rest⟩, behind⟩
  · exact (hnil behind).imp_right fun h => ⟨rfl, h⟩
  · exact .inl (hcons t rest behind)

theorem Steady.advances (h : Steady rule) (t : Token) (rest : List Token) (behind : Nat) :
    Advances ⟨t :: rest, behind⟩ (rule ⟨t :: rest, behind⟩) :=
  (h _).resolve_right fun hend => List.cons_ne_nil t rest hend.1

end

theorem reaches_ofExcept {ε : Type} {refused : ε → Fault × Cursor} {read : Except ε (α × Cursor)}
    {ts : List Token} {c : Cursor} (herror : ∀ {e}, read = .error e → c.Reaches ts (refused e).2)
    (hok : ∀ {a c'}, read = .ok (a, c') → c.Reaches ts c') :
    c.Reaches ts (ofExcept refused read).next := by
  cases read with
  | error e => exact herror rfl
  | ok read => exact hok rfl

/-! ## Fragments and operations -/

theorem steady_led {wanted : Wanted} {rule : Rule} {leads : Token → Bool}
    {next : Option (Token → Cursor → Option (Reading (Option α)))}
    (h : ∀ {t rest behind}, leads t = true →
      Advances ⟨t :: rest, behind⟩ (led wanted rule leads next ⟨t :: rest, behind⟩)) :
    Steady (led wanted rule leads next) := by
  refine .of_cases (fun behind => .inl .still) fun t rest behind => ?_
  by_cases ht : leads t = true
  · exact h ht
  · cases next with
    | none => exact .still
    | some next =>
        simp only [led, peek_cons, ht, Bool.false_eq_true, if_false]
        exact .still

theorem steady_fragmentSpread (level : Nat) : Steady (fragmentSpread level) := by
  have hled {t : Token} {rest : List Token} {behind : Nat}
      (ht : decide (t.kind = .ellipsis) = true) :
      Advances ⟨t :: rest, behind⟩ (fragmentSpread level ⟨t :: rest, behind⟩) := by
    obtain ⟨ts, hc⟩ := Cursor.exists_on ⟨t :: rest, behind⟩
    rw [fragmentSpread_eq level (of_decide_eq_true ht)]
    exact .upTo ((fragmentSpread_orderly level t hc rfl).reaches.isSuffix hc)
  cases level <;> rw [fragmentSpread] at hled ⊢ <;> exact steady_led hled

theorem steady_inlineFragment (level : Nat) : Steady (inlineFragment level) := by
  have hled {t : Token} {rest : List Token} {behind : Nat}
      (ht : decide (t.kind = .ellipsis) = true) :
      Advances ⟨t :: rest, behind⟩ (inlineFragment level ⟨t :: rest, behind⟩) := by
    cases rest with
    | nil =>
        cases level <;> rw [inlineFragment]
        · exact .still
        · rw [led_eq ht]
          exact .upTo List.nil_suffix
    | cons next rest =>
        obtain ⟨ts, hc⟩ := Cursor.exists_on ⟨t :: next :: rest, behind⟩
        rw [(selectionsSame level).inline t next rest behind (of_decide_eq_true ht)]
        exact .upTo (((selectionsOrderly level).inline t hc rfl).reaches.isSuffix hc)
  cases level <;> rw [inlineFragment] at hled ⊢ <;> exact steady_led hled

theorem steady_fragment (level : Nat) :
    Steady (fragment (fragmentSpread level) (inlineFragment level)) := by
  refine .of_cases (fun behind => .inr rfl) fun t rest behind => ?_
  cases rest with
  | nil => exact .upTo List.nil_suffix
  | cons next rest =>
      have hspread := (steady_fragmentSpread level).advances t (next :: rest) behind
      have hinline := (steady_inlineFragment level).advances t (next :: rest) behind
      rw [fragment, if_neg (by simp), second?_cons, pure_bind]
      split
      · split
        · exact hinline
        · exact hspread
      · split
        · exact hinline
        · exact .upTo (List.suffix_cons t _)

theorem steady_operation (level : Nat) : Steady (operation level) := by
  cases level with
  | zero => exact fun c => .inl .still
  | succ level =>
      refine .of_cases (fun behind => .inr rfl) fun t rest behind => ?_
      cases htype : operationType? t with
      | some type =>
          rw [operation_eq_of_operationType? htype]
          exact .of_past (operation_orderly level t.start type)
      | none =>
          by_cases ht : t.kind = .lbrace
          · rw [operation_eq_of_lbrace ht]
            exact .of_orderly (shorthandQuery_orderly level t.start)
          · simp only [operation, first?_cons, pure_bind, htype, ht, if_false, ite_self]
            exact .still

-- The rule does not look whether there is a first token.
example : operation 1 ⟨[], 0⟩ = none := rfl

theorem steady_fragmentDefinition (level : Nat) : Steady (fragmentDefinition level) := by
  have hled {t : Token} {rest : List Token} {behind : Nat} (ht : t.isWord "fragment" = true) :
      Advances ⟨t :: rest, behind⟩ (fragmentDefinition level ⟨t :: rest, behind⟩) := by
    cases level with
    | zero => exact .still
    | succ level =>
        rw [fragmentDefinition_eq ht]
        exact .of_past (fragmentDefinition_orderly level t.start)
  cases level <;> rw [fragmentDefinition] at hled ⊢ <;> exact steady_led hled

/-! ## Type definitions -/

theorem steady_implements : Steady implements := by
  refine .of_cases (fun behind => .inr rfl) fun t rest behind => ?_
  have horderly : Orderly fun c =>
      (Grammar.names .ampersand c).within (.rule .implements) := fun ts c hc =>
    (names_orderly .ampersand hc).within (Context.from_rule ts .implements)
  simp only [implements, take?_cons, names_eq, pure_bind]
  exact .of_past horderly

/-- Behind its description a type definition reads on where it finds its keyword. -/
theorem typeDefinition_advances (form : TypeForm) (level : Nat) (c : Cursor) :
    Advances c (typeDefinition form level c) := by
  cases level with
  | zero => exact .still
  | succ level =>
      obtain ⟨ts, hc⟩ := c.exists_on
      rcases hdescribed : Grammar.description c with ⟨described, _ | ⟨t, rest⟩, behind⟩
      all_goals have hsuffix := (reaches_of_description hc hdescribed).isSuffix hc
      · simp only [typeDefinition, description_eq, hdescribed, pure_bind]
        exact .upTo hsuffix
      · by_cases hword : t.isWord form.keyword = true
        · have horderly := typeDefinition_orderly level form described t.start
          rw [typeDefinition_eq hdescribed hword]
          exact .upTo ((horderly.length_add_behind ⟨rest, behind + 1⟩).1.trans
            ((List.suffix_cons t rest).trans hsuffix))
        · simp only [typeDefinition, description_eq, hdescribed, pure_bind, peek_cons, hword,
            Bool.false_eq_true, if_false]
          exact .upTo hsuffix

theorem steady_rootDefinition : Steady rootDefinition := by
  refine .of_cases (fun behind => .inr rfl) fun t rest behind => ?_
  rw [rootDefinition_eq (List.cons_ne_nil t rest)]
  exact .of_orderly rootDefinition_orderly

theorem steady_schemaDefinition (level : Nat) : Steady (schemaDefinition level) := by
  cases level with
  | zero => exact fun c => .inl .still
  | succ level =>
      refine .of_cases (fun behind => .inr rfl) fun t rest behind => ?_
      rw [schemaDefinition_eq]
      exact .of_past (schemaDefinition_orderly t.start)

/-! ## Definitions -/

theorem keywordDefinition_advances (level : Nat) (keyword : Token) (c : Cursor) :
    Advances c (keywordDefinition level keyword c) := by
  rw [keywordDefinition]
  split
  · exact .still
  · exact (typeDefinition_advances _ level c).map _

theorem describedDefinition_advances (level : Nat) (t : Token) (rest : List Token)
    (behind : Nat) :
    Advances ⟨t :: rest, behind⟩ (describedDefinition level ⟨t :: rest, behind⟩) := by
  cases rest with
  | nil => exact .still
  | cons keyword rest =>
      rw [describedDefinition, if_neg (by simp), second?_cons, pure_bind]
      split
      · exact keywordDefinition_advances level keyword _
      · exact .still

theorem steady_definition (level : Nat) : Steady (definition level) := by
  refine .of_cases (fun behind => .inl .still) fun t rest behind => ?_
  cases level with
  | zero => exact .still
  | succ level =>
      rw [definition, peek_cons]
      dsimp only
      split
      · exact ((steady_operation level).advances t rest behind).map _
      · split
        · exact ((steady_fragmentDefinition level).advances t rest behind).map _
        · split
          · exact ((steady_schemaDefinition level).advances t rest behind).map _
          · split
            · exact keywordDefinition_advances level t _
            · split
              · exact describedDefinition_advances level t rest behind
              · exact .still

theorem IsRule.steady {rule : Cursor → Option (Reading α)} (h : IsRule rule) : Steady rule := by
  cases h with
  | name =>
      exact .of_read name_eq fun hc =>
        reaches_ofExcept (fun _ => hc.refl) fun h => (reaches_of_name hc h).1
  | punctuator =>
      exact .of_read (punctuator_eq _) fun hc =>
        reaches_ofExcept (fun _ => hc.refl) fun h => (reaches_of_punctuator hc h).1
  | skipTo => exact .of_read (skipTo_eq _) fun hc => (skipTo_reaches _ hc).1
  | variableRef =>
      exact .of_read variableRef_eq fun hc =>
        reaches_ofExcept (fun h => (at_of_variableRef hc h).1) fun h =>
          (reaches_of_variableRef hc h).1
  | value => exact .of_orderly (value_orderly _ _) (value_eq _ _)
  | listValue => exact .of_orderly (valuesOrderly _ _).list (valuesSame _ _).list
  | objectValue => exact .of_orderly (valuesOrderly _ _).object (valuesSame _ _).object
  | objectField =>
      exact .of_orderly (objectField_orderly (value_orderly _ _)) (objectField_eq (value_eq _ _))
  | defaultValue => exact .of_orderly (defaultValue_orderly _) (defaultValue_eq _)
  | argument => exact .of_orderly (argument_orderly _ _) (argument_eq _ _)
  | arguments => exact .of_orderly (arguments_orderly _ _) (arguments_eq _ _)
  | directives => exact .of_orderly (directives_orderly _ _) (directives_eq _ _)
  | bang => exact .of_read bang_eq fun hc => bang_reaches hc
  | typeRef => exact .of_orderly (typeRef_orderly _) (typeRef_eq _)
  | typeCondition =>
      exact .of_read (typeCondition_eq _) fun hc =>
        reaches_ofExcept (fun h => (at_of_typeCondition hc h).1) fun h =>
          reaches_of_typeCondition hc h
  | fragmentSpread => exact steady_fragmentSpread _
  | inlineFragment => exact steady_inlineFragment _
  | fragment => exact steady_fragment _
  | field =>
      exact .of_orderly (field_orderly _ (selectionSet_orderly _)) (field_eq (selectionSet_eq _))
  | selection => exact .of_orderly (selectionsOrderly _).selection (selectionsSame _).selection
  | selectionSet => exact .of_orderly (selectionSet_orderly _) (selectionSet_eq _)
  | variableDefinition => exact .of_orderly (variableDefinition_orderly _) (variableDefinition_eq _)
  | variableDefinitions =>
      exact .of_orderly (variableDefinitions_orderly _) (variableDefinitions_eq _)
  | operation => exact steady_operation _
  | fragmentDefinition => exact steady_fragmentDefinition _
  | description => exact .of_read description_eq fun hc => reaches_of_description hc rfl
  | inputValueDefinition =>
      exact .of_orderly (inputValueDefinition_orderly _) (inputValueDefinition_eq _)
  | argumentsDefinition =>
      exact .of_orderly (argumentsDefinition_orderly _) (argumentsDefinition_eq _)
  | inputFieldsDefinition =>
      exact .of_orderly (inputFieldsDefinition_orderly _) (inputFieldsDefinition_eq _)
  | fieldDefinition => exact .of_orderly (fieldDefinition_orderly _) (fieldDefinition_eq _)
  | fieldsDefinition => exact .of_orderly (fieldsDefinition_orderly _) (fieldsDefinition_eq _)
  | enumValueDefinition =>
      exact .of_orderly (enumValueDefinition_orderly _) (enumValueDefinition_eq _)
  | enumValuesDefinition =>
      exact .of_orderly (enumValuesDefinition_orderly _) (enumValuesDefinition_eq _)
  | names => exact .of_orderly (names_orderly _) (names_eq _)
  | implements => exact steady_implements
  | typeDefinition => exact fun c => .inl (typeDefinition_advances _ _ c)
  | rootDefinition => exact steady_rootDefinition
  | schemaDefinition => exact steady_schemaDefinition _
  | definition => exact steady_definition _

end Unguarded

/-! ## Rounds of a list -/

namespace Grammar

variable {α : Type} {c : Cursor} {t : Token} {rest : List Token} {opener closer : Token.Kind}
  {rule : Rule} {item : Cursor → Reading (Option α)}

/-- The list goes on behind the item at the cursor. -/
def GoesOn (closer : Token.Kind) (rule : Rule) (item : Cursor → Reading (Option α)) (c : Cursor) :
    Prop :=
  ∀ step steps number items faults,
    itemsFrom closer rule item (step :: steps) number c items faults =
      itemsFrom closer rule item steps (number + 1) (item c).next ((item c).value.toList ++ items)
        ((withinAll (.item rule number) (item c).faults).reverse ++ faults)

/-- The list is given up at the cursor, and its closing bracket is searched for. -/
def GivesUp (closer : Token.Kind) (rule : Rule) (item : Cursor → Reading (Option α)) (c : Cursor) :
    Prop :=
  ∀ steps number items faults,
    itemsFrom closer rule item steps number c items faults =
      ⟨(((item c).value.toList ++ items).reverse,
          (skipTo [closer] (item c).next.behind (item c).next.ahead).1),
        ((withinAll (.item rule number) (item c).faults).reverse ++ faults).reverse,
        (skipTo [closer] (item c).next.behind (item c).next.ahead).2⟩

/-- A round of a list takes a token, or it is the last. -/
theorem ListForm.goesOn_or_givesUp (h : ListForm opener closer rule item)
    (hahead : c.ahead = t :: rest) (hkind : t.kind ≠ closer) :
    ((item c).next.ahead.length < c.ahead.length ∧ GoesOn closer rule item c) ∨
      GivesUp closer rule item c := by
  obtain ⟨hsuffix, hlength⟩ := h.orderly.length_add_behind c
  by_cases hstill : (item c).next.behind = c.behind
  · refine .inr fun steps number items faults => ?_
    rw [itemsFrom]
    simp only [hahead, hkind, if_false, hstill, if_true]
  · have hle := hsuffix.length_le
    refine .inl ⟨by omega, fun step steps number items faults => ?_⟩
    rw [itemsFrom]
    simp only [hahead, hkind, if_false, hstill]

/-- No more definitions are read than there are tokens, however many steps are allowed. -/
theorem length_definitionsFrom_le (steps : List Token) (c : Cursor) (read : List Definition)
    (faults : List Fault) :
    (definitionsFrom steps c read faults).1.length ≤ c.ahead.length + read.length := by
  induction steps generalizing c read faults with
  | nil => simp [definitionsFrom]
  | cons step steps ih =>
      rw [definitionsFrom]
      split
      · simp
      · next d hvalue =>
          have hle := ih (definition c).next (d :: read) ((definition c).faults.reverse ++ faults)
          have hlt := definition_shortens c d hvalue
          rw [List.length_cons] at hle
          omega

end Grammar

/-! ## Reading to an end -/

theorem definitions_of_parse {source : Text} {d : Document} (h : (parse source).document = some d) :
    d.definitions = (Grammar.definitions (lex source)).1 := by
  rw [parse] at h
  split at h
  · cases h
  · dsimp only at h
    split at h <;> cases h
    rfl

/-- Reading makes progress on every list of tokens. A definition that is read takes a token, a round
of a list takes a token or is the last, and no rule gets a token back or, where there is one, asks
for one that is not there. So definitions are read to an end by rules that do not count their steps;
they are no more than there are tokens, each takes one form, and so do the type definitions and
selections in them. -/
theorem parse_progresses :
    (∀ c, (Grammar.definition c).Shortens c) ∧
    (∀ {α : Type} {opener closer : Token.Kind} {rule : Rule} {item : Cursor → Reading (Option α)},
      Grammar.ListForm opener closer rule item →
        ∀ {c : Cursor} {t : Token} {rest : List Token}, c.ahead = t :: rest → t.kind ≠ closer →
          ((item c).next.ahead.length < c.ahead.length ∧ Grammar.GoesOn closer rule item c) ∨
            Grammar.GivesUp closer rule item c) ∧
    (∀ {α : Type} {rule : Cursor → Option (Reading α)}, Unguarded.IsRule rule →
      Unguarded.Steady rule) ∧
    (∀ tokens, ∃ definitions faults, Unguarded.definitions tokens = some (definitions, faults) ∧
      definitions = (Grammar.definitions tokens).1.map Definition.record ∧
      faults = (Grammar.definitions tokens).2 ∧
      definitions.length ≤ tokens.length ∧ ∀ d ∈ definitions, d.OneFormed) ∧
    ∀ source, Unguarded.parse source =
        some ((parse source).document.map Document.record, (parse source).errors) ∧
      ∀ d, (parse source).document = some d →
        d.record.OneFormed ∧ d.definitions.length ≤ (lex source).length := by
  have hlength : ∀ tokens, (Grammar.definitions tokens).1.length ≤ tokens.length :=
    fun tokens => Grammar.length_definitionsFrom_le tokens (.ofTokens tokens) [] []
  refine ⟨Grammar.definition_shortens, fun hlist => hlist.goesOn_or_givesUp,
    fun hrule => hrule.steady, fun tokens => ?_, fun source => ?_⟩
  · refine ⟨_, _, Unguarded.definitions_eq tokens, rfl, rfl, ?_, ?_⟩
    · rw [List.length_map]
      exact hlength tokens
    · exact List.forall_mem_map.2 fun d _ => d.oneFormed
  · refine ⟨Unguarded.parse_eq source, fun d hd => ⟨d.oneFormed, ?_⟩⟩
    rw [definitions_of_parse hd]
    exact hlength (lex source)

/-- A description, the keyword of a type and a bracket in place of its name. -/
def namelessType : Text :=
  "\"\" type \x7b"

theorem parse_progresses_namelessType :
    (∃ d, (Grammar.definition (.ofTokens (lex namelessType))).value = some d ∧
      (Grammar.definition (.ofTokens (lex namelessType))).next.ahead.length < 3) ∧
    (((Grammar.fieldDefinition 1 (.ofTokens (lex namelessType))).next.ahead.length < 3 ∧
        Grammar.GoesOn .rbrace .fieldDefinition (Grammar.fieldDefinition 1)
          (.ofTokens (lex namelessType))) ∨
      Grammar.GivesUp .rbrace .fieldDefinition (Grammar.fieldDefinition 1)
        (.ofTokens (lex namelessType))) ∧
    Unguarded.Steady (Unguarded.typeDefinition .object 1) ∧
    ∃ d, (parse namelessType).document = some d ∧ d.definitions.length = 2 ∧
      d.record.OneFormed ∧ d.definitions.length ≤ (lex namelessType).length := by
  obtain ⟨hdefinition, hlist, hrule, -, hparse⟩ := parse_progresses
  have hlex : lex namelessType =
      [⟨.string, "\"\"", 0⟩, ⟨.name, "type", 3⟩, ⟨.lbrace, "\x7b", 8⟩] := by
    decide +kernel
  have hread : (Grammar.definition (.ofTokens (lex namelessType))).value.isSome = true := by
    decide +kernel
  have hdocument : (parse namelessType).document.map (·.definitions.length) = some 2 := by
    decide +kernel
  obtain ⟨d, hd⟩ := Option.isSome_iff_exists.1 hread
  obtain ⟨document, hsome, hlength⟩ := Option.map_eq_some_iff.1 hdocument
  have hlt := hdefinition _ d hd
  have hround := hlist (.fields 1) (congrArg (fun ts => (Cursor.ofTokens ts).ahead) hlex)
    (by decide)
  rw [Cursor.ofTokens, hlex] at hlt hround
  rw [hlex] at hd ⊢
  refine ⟨⟨d, hd, hlt⟩, hround, hrule (.typeDefinition .object 1), document, hsome, hlength, ?_⟩
  rw [← hlex]
  exact (hparse namelessType).2 document hsome

end SelectionCheck
