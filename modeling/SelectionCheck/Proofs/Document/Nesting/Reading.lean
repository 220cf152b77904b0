import SelectionCheck.Proofs.Document.Nesting

/-!
# How deep the readers nest

A reader at level `n + 1` reads its parts at level `n`, from whatever cursor and with whatever
faults. Two levels lie between a selection set and the sets inside it, and between a value and the
values inside it; one level lies between a type and its element. The bound of what a reader gives
is therefore half its level for selection sets and values, and its level for types.
-/

namespace SelectionCheck

open Record

variable {α : Type} {n : Nesting}

namespace Grammar

/-! ## Lists of items -/

/-- Whatever the reader gives, from whatever cursor, has the property. -/
def Yields (reader : Cursor → Reading (Option α)) (p : α → Prop) : Prop :=
  ∀ c, ∀ a ∈ (reader c).value, p a

variable {p : α → Prop} {item reader : Cursor → Reading (Option α)}

/-- At level zero a rule gives nothing. -/
theorem yields_tooDeep : Yields (fun c => .refuse none .tooDeep c) p := by
  intro c a ha
  cases ha

/-- The items of a list are items that were read before, or that the reader of items gives. -/
theorem itemsFrom_yields (hitem : Yields item p) (closer : Token.Kind) (rule : Rule)
    (steps : List Token) (number : Nat) (c : Cursor) (items : List α) (faults : List Fault)
    (hitems : ∀ a ∈ items, p a) :
    ∀ a ∈ (itemsFrom closer rule item steps number c items faults).value.1, p a := by
  -- The items before and the one that was just read.
  have hmore : ∀ {c : Cursor} {items : List α}, (∀ a ∈ items, p a) →
      ∀ a ∈ (item c).value.toList ++ items, p a := by
    intro c items hitems a ha
    rcases List.mem_append.1 ha with ha | ha
    · exact hitem c a (Option.mem_toList.1 ha)
    · exact hitems a ha
  fun_induction itemsFrom closer rule item steps number c items faults with
  | case1 steps number c items faults hahead => simpa using hitems
  | case2 steps number c items faults t rest hahead hkind => simpa using hitems
  | case3 steps number c items faults t rest hahead hkind r more =>
      simpa only [List.mem_reverse] using hmore hitems
  | case4 number c items faults t rest hahead hkind r more =>
      simpa only [List.mem_reverse] using hmore hitems
  | case5 number c items faults t rest hahead hkind r more moreFaults hmoved step steps ih =>
      exact ih (hmore hitems)

theorem bracketed_yields (hitem : Yields item p) (opener closer : Token.Kind) (rule : Rule) :
    Yields (bracketed opener closer rule item) fun b => ∀ a ∈ b.items, p a := by
  intro c b hb
  generalize hr : bracketed opener closer rule item c = r at hb
  cases bracketed_iff.1 hr with
  | unopened => cases hb
  | opened =>
      cases hb
      exact itemsFrom_yields hitem _ _ _ _ _ _ _ (by simp)

theorem nonEmpty_yields {item : Nat → Cursor → Reading (Option α)} {level bound : Nat}
    (hitem : ∀ {level}, level ≤ bound → Yields (item level) p) (hlevel : level ≤ bound + 1)
    (opener closer : Token.Kind) (list rule : Rule) :
    Yields (nonEmpty opener closer list rule item level) fun b => ∀ a ∈ b.items, p a := by
  cases level with
  | zero => exact yields_tooDeep
  | succ level => exact bracketed_yields (hitem (Nat.le_of_succ_le_succ hlevel)) opener closer rule

theorem whenNext_yields (hreader : Yields reader p) (kind : Token.Kind) :
    Yields (whenNext kind reader) p := by
  intro c a ha
  rw [whenNext] at ha
  split at ha
  · exact hreader c a ha
  · cases ha

/-! ## Values and types -/

variable {constant : Bool} {level : Nat}

theorem literal?_within {t : Token} {v : Value} (h : literal? t = some v) : v.record.Within n := by
  cases literal?_cases h with
  | null => exact Value.within_null
  | scalar => exact Value.within_scalar

theorem variableValue_within (c : Cursor) : (variableValue constant c).value.record.Within n := by
  generalize hr : variableValue constant c = r
  cases variableValue_iff.1 hr with
  | noVariable => exact Value.within_missing
  | inConstant | whole => exact Value.within_var

/-- A value is a token, a variable, or a list or object that is read one level below. -/
theorem value_succ_within (hlist : ∀ c, (listValue constant level c).value.record.Within n)
    (hobject : ∀ c, (objectValue constant level c).value.record.Within n) (c : Cursor) :
    (value constant (level + 1) c).value.record.Within n := by
  generalize hr : value constant (level + 1) c = r
  cases value_iff.1 hr with
  | nothing => exact Value.within_missing
  | literal _ hliteral => exact literal?_within hliteral
  | var => exact variableValue_within c
  | list => exact hlist c
  | object => exact hobject c

theorem listValue_succ_within (hvalue : ∀ c, (value constant level c).value.record.Within n)
    (c : Cursor) :
    (listValue constant (level + 1) c).value.record.Within (n.more .listValue) := by
  have hitem : Yields (fun c => (value constant level c).map some) fun v => v.record.Within n := by
    rintro c _ ⟨⟩
    exact hvalue c
  have hlist := bracketed_yields hitem .lbracket .rbracket .listValue c
  rw [listValue, Reading.map]
  cases hread : (bracketed .lbracket .rbracket .listValue
      (fun c => (value constant level c).map some) c).value with
  | none => exact Value.within_tooDeep
  | some values => exact Value.within_list.2 (hlist values hread)

theorem objectField_yields {value : Cursor → Reading Value}
    (hvalue : ∀ c, (value c).value.record.Within n) :
    Yields (objectField value) fun f => f.record.Within n := by
  intro c f hf
  generalize hr : objectField value c = r at hf
  cases objectField_iff.1 hr with
  | whole =>
      cases hf
      exact ObjectField.within_iff.2 (hvalue _)
  | _ => cases hf

theorem objectValue_succ_within (hvalue : ∀ c, (value constant level c).value.record.Within n)
    (c : Cursor) :
    (objectValue constant (level + 1) c).value.record.Within (n.more .objectValue) := by
  have hobject := bracketed_yields (objectField_yields hvalue) .lbrace .rbrace .objectField c
  rw [objectValue, Reading.map, Reading.within]
  cases hread : (bracketed .lbrace .rbrace .objectField
      (objectField (value constant level)) c).value with
  | none => exact Value.within_tooDeep
  | some fields => exact Value.within_object.2 (hobject fields hread)

/-- Two levels lie between a value and the values inside it. -/
theorem value_within (constant : Bool) : (level : Nat) → (c : Cursor) →
    (value constant level c).value.record.Within ⟨0, level / 2, 0⟩
  | 0, _ => Value.within_missing
  | 1, c => value_succ_within (fun _ => Value.within_tooDeep) (fun _ => Value.within_tooDeep) c
  | level + 2, c => by
      have hvalue := value_within constant level
      have hhalf : (level + 2) / 2 = level / 2 + 1 := Nat.add_div_right level (by decide)
      rw [hhalf]
      exact value_succ_within (listValue_succ_within hvalue) (objectValue_succ_within hvalue) c

theorem listTypeRest_within {opening : Nat} {element : Reading TypeRef}
    (h : element.value.record.Within n) :
    (listTypeRest opening element).value.record.Within (n.more .listType) := by
  generalize hr : listTypeRest opening element = r
  cases listTypeRest_iff.1 hr <;> exact TypeRef.within_list.2 h

/-- One level lies between a list type and its element. -/
theorem typeRef_within (level : Nat) (c : Cursor) :
    (typeRef level c).value.record.Within ⟨0, 0, level⟩ := by
  generalize hr : typeRef level c = r
  induction typeRef_iff.1 hr with
  | ended | tooDeep | noType => exact TypeRef.within_missing
  | named => exact TypeRef.within_named
  | list _ _ helement ih => exact listTypeRest_within (ih (typeRef_iff.2 helement))

/-! ## Arguments and directives -/

end Grammar

/-- The bound of a tree in which selection sets are nested as deep as given. Values and types are
nested as deep as the levels allow that are left for them behind the definition, the list that the
value or type stands in and the item of that list. -/
def Nesting.ofSelections (selections : Nat) : Nesting :=
  ⟨selections, 23, 47⟩

theorem Nesting.more_ofSelections (k : Nat) :
    (Nesting.ofSelections k).more .selectionSet = .ofSelections (k + 1) := rfl

namespace Grammar

variable {constant : Bool} {level k : Nat}

theorem value_within_ofSelections (hlevel : level ≤ 46) (c : Cursor) :
    (value constant level c).value.record.Within (.ofSelections k) := by
  have hhalf : level / 2 ≤ 23 := by omega
  exact (value_within constant level c).mono (Nat.zero_le _) hhalf (Nat.zero_le _)

theorem typeRef_within_ofSelections (hlevel : level ≤ 47) (c : Cursor) :
    (typeRef level c).value.record.Within (.ofSelections k) :=
  (typeRef_within level c).mono (Nat.zero_le _) (Nat.zero_le _) hlevel

theorem defaultValue_yields (hlevel : level ≤ 47) :
    Yields (defaultValue level) fun d => d.record.Within (.ofSelections k) := by
  intro c d hd
  generalize hr : defaultValue level c = r at hd
  cases defaultValue_iff.1 hr with
  | whole =>
      cases hd
      exact DefaultValue.within_iff.2 (value_within_ofSelections (by omega) _)
  | _ => cases hd

theorem argument_yields (hlevel : level ≤ 47) :
    Yields (argument constant level) fun a => a.record.Within (.ofSelections k) := by
  intro c a ha
  cases level with
  | zero => cases ha
  | succ level =>
      rw [argument_succ] at ha
      obtain ⟨⟨name, colon, v⟩, hfield, rfl⟩ := Option.map_eq_some_iff.1 ha
      have hvalue (c : Cursor) : (value constant level c).value.record.Within (.ofSelections k) :=
        value_within_ofSelections (by omega) c
      exact Argument.within_iff.2
        (ObjectField.within_iff.1 (objectField_yields hvalue c _ hfield))

theorem arguments_yields (hlevel : level ≤ 48) : Yields (arguments constant level) fun b =>
    ∀ a ∈ b.items, a.record.Within (.ofSelections k) :=
  nonEmpty_yields argument_yields hlevel _ _ _ _

theorem whenNext_arguments_within (hlevel : level ≤ 48) (c : Cursor) :
    (argumentsRecord (whenNext .lparen (arguments constant level) c).value).Within
      (.ofSelections k) := by
  rw [within_argumentsRecord]
  intro b hb a ha
  exact Argument.within_iff.1 (whenNext_yields (arguments_yields hlevel) .lparen c b hb a ha)

theorem directivesFrom_within (hlevel : level ≤ 48) (steps : List Token) (c : Cursor)
    (directives : List Directive) (faults : List Fault)
    (h : (directivesRecord directives).Within (.ofSelections k)) :
    (directivesRecord (directivesFrom constant level steps c directives faults).value).Within
      (.ofSelections k) := by
  simp only [within_directivesRecord] at h ⊢
  fun_induction directivesFrom constant level steps c directives faults with
  | case1 c directives faults => simpa only [List.mem_reverse] using h
  | case2 step steps c directives faults fault hsign => simpa only [List.mem_reverse] using h
  | case3 step steps c directives faults sign c' hsign fault hname =>
      simpa only [List.mem_reverse] using h
  | case4 step steps c directives faults sign c' hsign name c'' hname r ih =>
      refine ih (List.forall_mem_cons.2 ⟨?_, h⟩)
      exact Directive.within_iff.2 (whenNext_arguments_within hlevel c'')

theorem directives_within (hlevel : level ≤ 49) (c : Cursor) :
    (directivesRecord (directives constant level c).value).Within (.ofSelections k) := by
  cases level with
  | zero => simp [directives, Reading.refuse]
  | succ level => exact directivesFrom_within (by omega) _ _ _ _ (by simp)

/-! ## Selections -/

variable {selections : Cursor → Reading (Option SelectionSet)}

abbrev YieldsSets (selections : Cursor → Reading (Option SelectionSet)) (k : Nat) : Prop :=
  Yields selections fun set => (Selection.setRecord set).Within (.ofSelections k)

theorem fieldRest_yields (hlevel : level ≤ 48) (hset : YieldsSets selections k)
    (aliasName : Option Name) (name : Name) :
    Yields (fieldRest level selections aliasName name) fun s =>
      s.record.Within (.ofSelections k) := by
  intro c s hs
  generalize hr : fieldRest level selections aliasName name c = r at hs
  cases fieldRest_iff.1 hr with
  | ended =>
      cases hs
      simp
  | whole _ ha hd hs' =>
      subst ha hd hs'
      cases hs
      rw [Selection.within_field]
      exact ⟨whenNext_arguments_within hlevel c, directives_within (by omega) _,
        whenNext_yields hset .lbrace _⟩

theorem field_yields (hlevel : level ≤ 48) (hset : YieldsSets selections k) :
    Yields (field level selections) fun s => s.record.Within (.ofSelections k) := by
  intro c s hs
  generalize hr : field level selections c = r at hs
  cases field_iff.1 hr with
  | noName => cases hs
  | whole => exact fieldRest_yields hlevel hset _ _ _ s hs

theorem fragmentSpread_within (hlevel : level ≤ 48) {ellipsis : Token} {rest : List Token}
    {c : Cursor} : ∀ s ∈ (fragmentSpread level ellipsis rest c).value,
      s.record.Within (.ofSelections k) := by
  intro s hs
  generalize hr : fragmentSpread level ellipsis rest c = r at hs
  cases fragmentSpread_iff.1 hr with
  | whole =>
      cases hs
      exact Selection.within_spread.2 (directives_within (by omega) _)
  | _ => cases hs

theorem inlineRest_yields (hlevel : level ≤ 49) (hset : YieldsSets selections k) (ellipsis : Nat)
    (condition : Option TypeCondition) :
    Yields (inlineRest level selections ellipsis condition) fun s =>
      s.record.Within (.ofSelections k) := by
  intro c s hs
  generalize hr : inlineRest level selections ellipsis condition c = r at hs
  cases inlineRest_iff.1 hr with
  | noSet => cases hs
  | whole hd _ hs' =>
      subst hd hs'
      obtain ⟨set, hmem, rfl⟩ := Option.map_eq_some_iff.1 hs
      exact Selection.within_inline.2 ⟨directives_within hlevel c, hset _ set hmem⟩

theorem inlineFragment_within (hlevel : level ≤ 48)
    (hset : ∀ l < level, YieldsSets (selectionSet l) k) {ellipsis : Token} {rest : List Token}
    {c : Cursor} : ∀ s ∈ (inlineFragment level ellipsis rest c).value,
      s.record.Within (.ofSelections k) := by
  intro s hs
  generalize hr : inlineFragment level ellipsis rest c = r at hs
  cases inlineFragment_iff.1 hr with
  | whole => exact inlineRest_yields (by omega) (hset _ (Nat.lt_succ_self _)) _ _ _ s hs
  | _ => cases hs

/-- A selection is bounded by what bounds the selection sets that are read inside it. -/
theorem selection_succ_yields (hlevel : level ≤ 48)
    (hset : ∀ l ≤ level, YieldsSets (selectionSet l) k) :
    Yields (selection (level + 1)) fun s => s.record.Within (.ofSelections k) := by
  intro c s hs
  generalize hr : selection (level + 1) c = r at hs
  cases selection_iff.1 hr with
  | field => exact field_yields hlevel (hset level (Nat.le_refl _)) c s hs
  | ended | noFragment => cases hs
  | spread => exact fragmentSpread_within hlevel s hs
  | inline => exact inlineFragment_within hlevel (fun l hl => hset l (Nat.le_of_lt hl)) s hs

theorem selectionSet_succ_yields
    (hselection : Yields (selection level) fun s => s.record.Within (.ofSelections k)) :
    YieldsSets (selectionSet (level + 1)) (k + 1) := by
  intro c set hset
  rw [selectionSet] at hset
  rw [← Nesting.more_ofSelections, SelectionSet.within_iff]
  exact bracketed_yields hselection .lbrace .rbrace .selection c set hset

/-- Two levels lie between a selection set and the sets of its fields, and three between it and
those of its inline fragments. -/
theorem selectionSet_yields (hlevel : level ≤ 49) :
    YieldsSets (selectionSet level) ((level + 1) / 2) := by
  induction level using Nat.strongRecOn with
  | ind level ih =>
      rcases level with _ | _ | level
      · intro c set hset
        rw [selectionSet] at hset
        cases hset
      · refine selectionSet_succ_yields fun c s hs => ?_
        rw [selection] at hs
        cases hs
      · have hhalf : (level + 2 + 1) / 2 = (level + 1) / 2 + 1 := by omega
        rw [hhalf]
        refine selectionSet_succ_yields (selection_succ_yields (by omega) ?_)
        intro l hl c set hset
        have hle : (l + 1) / 2 ≤ (level + 1) / 2 := by omega
        exact (ih l (by omega) (by omega) c set hset).mono hle (Nat.le_refl _) (Nat.le_refl _)

/-! ## Operations and fragments -/

theorem DefaultedCases.within {make : TypeRef → Option DefaultValue → α} {c : Cursor}
    {r : Reading (Option α)} (hlevel : level ≤ 47) (h : DefaultedCases level c make r) :
    ∃ t d, r.value = some (make t d) ∧ t.record.Within (.ofSelections k) ∧
      ∀ v ∈ d, v.record.Within (.ofSelections k) := by
  have htype := @typeRef_within_ofSelections level k hlevel c
  cases h with
  | badType ht => exact ⟨_, none, rfl, ht ▸ htype, nofun⟩
  | whole ht => exact ⟨_, _, rfl, ht ▸ htype, defaultValue_yields hlevel _⟩

theorem variableDefinition_yields (hlevel : level ≤ 48) :
    Yields (variableDefinition level) fun d => d.record.Within (.ofSelections k) := by
  intro c d hd
  generalize hr : variableDefinition level c = r at hd
  cases variableDefinition_iff.1 hr with
  | tooDeep | noVariable => cases hd
  | noColon =>
      cases hd
      exact VariableDefinition.within_iff.2 ⟨TypeRef.within_missing, by simp⟩
  | typed _ _ htype =>
      obtain ⟨t, v, hvalue, hwithin⟩ := htype.within (by omega)
      cases hvalue.symm.trans hd
      exact VariableDefinition.within_iff.2 hwithin

theorem variableDefinitions_yields (hlevel : level ≤ 49) :
    Yields (variableDefinitions level) fun b =>
      ∀ d ∈ b.items, d.record.Within (.ofSelections k) :=
  nonEmpty_yields variableDefinition_yields hlevel _ _ _ _

theorem selectionSet_partLevel_yields : YieldsSets (selectionSet partLevel) 25 :=
  selectionSet_yields (Nat.le_refl 49)

theorem operationRest_yields (start : Nat) (type : OperationType) (name : Option Name) :
    Yields (operationRest partLevel start type name) fun o =>
      o.record.Within (.ofSelections 25) := by
  intro c o ho
  obtain ⟨set, hset, rfl⟩ := Option.map_eq_some_iff.1 ho
  exact Operation.within_iff.2
    ⟨whenNext_yields (variableDefinitions_yields (Nat.le_refl 49)) .lparen c,
      directives_within (Nat.le_refl 49) _, selectionSet_partLevel_yields _ set hset⟩

theorem operation_yields (start : Nat) (type : OperationType) :
    Yields (operation partLevel start type) fun o => o.record.Within (.ofSelections 25) := by
  intro c o ho
  generalize hr : operation partLevel start type c = r at ho
  cases operation_iff.1 hr with
  | ended | noBody => cases ho
  | named | anonymous => exact operationRest_yields _ _ _ _ o ho

theorem shorthandQuery_yields (start : Nat) :
    Yields (shorthandQuery partLevel start) fun o => o.record.Within (.ofSelections 25) := by
  intro c o ho
  obtain ⟨set, hset, rfl⟩ := Option.map_eq_some_iff.1 ho
  exact Operation.within_iff.2
    ⟨by simp, by simp, selectionSet_partLevel_yields c set hset⟩

theorem fragmentDefinition_yields (keyword : Nat) :
    Yields (fragmentDefinition partLevel keyword) fun f =>
      f.record.Within (.ofSelections 25) := by
  intro c f hf
  generalize hr : fragmentDefinition partLevel keyword c = r at hf
  cases fragmentDefinition_iff.1 hr with
  | whole _ _ _ hd hs =>
      subst hd hs
      obtain ⟨set, hset, rfl⟩ := Option.map_eq_some_iff.1 hf
      exact Fragment.within_iff.2
        ⟨directives_within (Nat.le_refl 49) _, selectionSet_partLevel_yields _ set hset⟩
  | _ => cases hf

/-! ## Type definitions -/

theorem inputValueDefinition_yields (hlevel : level ≤ 48) :
    Yields (inputValueDefinition level) fun d => d.record.Within (.ofSelections k) := by
  intro c d hd
  generalize hr : inputValueDefinition level c = r at hd
  cases inputValueDefinition_iff.1 hr with
  | tooDeep | noName => cases hd
  | noColon =>
      cases hd
      exact InputValueDefinition.within_iff.2 ⟨TypeRef.within_missing, by simp⟩
  | typed _ _ _ htype =>
      obtain ⟨t, v, hvalue, hwithin⟩ := htype.within (by omega)
      cases hvalue.symm.trans hd
      exact InputValueDefinition.within_iff.2 hwithin

theorem argumentsDefinition_yields (hlevel : level ≤ 49) :
    Yields (argumentsDefinition level) fun b =>
      ∀ d ∈ b.items, d.record.Within (.ofSelections k) :=
  nonEmpty_yields inputValueDefinition_yields hlevel _ _ _ _

theorem inputFieldsDefinition_yields (hlevel : level ≤ 49) :
    Yields (inputFieldsDefinition level) fun b =>
      ∀ d ∈ b.items, d.record.Within (.ofSelections k) :=
  nonEmpty_yields inputValueDefinition_yields hlevel _ _ _ _

theorem fieldDefinitionRest_yields (hlevel : level ≤ 47) (described : Option Description)
    (name : Name) :
    Yields (fieldDefinitionRest level described name) fun d =>
      d.record.Within (.ofSelections k) := by
  intro c d hd
  have harguments := whenNext_yields (@argumentsDefinition_yields level k (by omega)) .lparen c
  generalize hr : fieldDefinitionRest level described name c = r at hd
  cases fieldDefinitionRest_iff.1 hr with
  | ended =>
      cases hd
      exact FieldDefinition.within_iff.2 ⟨by simp, TypeRef.within_missing, by simp⟩
  | noColon _ ha =>
      cases hd
      exact FieldDefinition.within_iff.2 ⟨ha ▸ harguments, TypeRef.within_missing, by simp⟩
  | whole _ ha _ ht hd' =>
      cases hd
      exact FieldDefinition.within_iff.2 ⟨ha ▸ harguments,
        ht ▸ typeRef_within_ofSelections hlevel _, hd' ▸ directives_within (by omega) _⟩

theorem fieldDefinition_yields (hlevel : level ≤ 48) :
    Yields (fieldDefinition level) fun d => d.record.Within (.ofSelections k) := by
  intro c d hd
  generalize hr : fieldDefinition level c = r at hd
  cases fieldDefinition_iff.1 hr with
  | whole => exact fieldDefinitionRest_yields (by omega) _ _ _ d hd
  | _ => cases hd

theorem fieldsDefinition_yields (hlevel : level ≤ 49) :
    Yields (fieldsDefinition level) fun b =>
      ∀ d ∈ b.items, d.record.Within (.ofSelections k) :=
  nonEmpty_yields fieldDefinition_yields hlevel _ _ _ _

theorem enumValueDefinition_yields (hlevel : level ≤ 49) :
    Yields (enumValueDefinition level) fun d => d.record.Within (.ofSelections k) := by
  intro c d hd
  generalize hr : enumValueDefinition level c = r at hd
  cases enumValueDefinition_iff.1 hr with
  | noName => cases hd
  | whole _ _ hd' =>
      cases hd
      exact EnumValueDefinition.within_iff.2 (hd' ▸ directives_within hlevel _)

theorem enumValuesDefinition_yields (hlevel : level ≤ 49) :
    Yields (enumValuesDefinition level) fun b =>
      ∀ d ∈ b.items, d.record.Within (.ofSelections k) :=
  nonEmpty_yields enumValueDefinition_yields (Nat.le_succ_of_le hlevel) _ _ _ _

def BodyWithin (n : Nesting) (body : TypeBody) : Prop :=
  ∀ r ∈ body.records, r.Within n

/-- A body that is a list between brackets, if it has one. -/
theorem bodyWithin_brackets {body : TypeBody} {kind : RecordKind} {record : α → Record}
    {o : Option (Bracketed α)} (hbody : body.records = [ofOption (ofBracketed kind record) o])
    (hkind : n.more kind = n) (h : ∀ b ∈ o, ∀ a ∈ b.items, (record a).Within n) :
    BodyWithin n body := by
  intro r hr
  rw [hbody, List.mem_singleton] at hr
  rw [hr]
  exact (within_brackets hkind).2 h

theorem bodyWithin_object {interfaces : List Name} {fields : Option (Bracketed FieldDefinition)}
    (h : ∀ b ∈ fields, ∀ d ∈ b.items, d.record.Within (.ofSelections k)) :
    BodyWithin (.ofSelections k) (.object interfaces fields) := by
  have hfields : BodyWithin (.ofSelections k) (.interface fields) :=
    bodyWithin_brackets rfl rfl h
  refine List.forall_mem_cons.2 ⟨?_, hfields⟩
  simp

theorem bodyWithin_union {equals : Slot} {members : List Name} :
    BodyWithin n (.union equals members) := by
  have hslot : (ofSlot equals).Within n := by
    cases equals <;> exact within_offset
  simp [BodyWithin, TypeBody.records, hslot]

theorem objectBody_within (hlevel : level ≤ 49) (c : Cursor) :
    BodyWithin (.ofSelections k) (objectBody level c).value := by
  have hfields := @fieldsDefinition_yields level k hlevel
  generalize hr : objectBody level c = r
  cases objectBody_iff.1 hr with
  | plain | whole => exact bodyWithin_object (hfields _)
  | badNames => exact bodyWithin_object (by simp)

theorem unionBody_within (c : Cursor) : BodyWithin n (unionBody c).value := by
  generalize hr : unionBody c = r
  cases unionBody_iff.1 hr <;> exact bodyWithin_union

theorem typeBody_within (hlevel : level ≤ 49) (form : TypeForm) (c : Cursor) :
    BodyWithin (.ofSelections k) (typeBody level form c).value := by
  cases form with
  | scalar => simp [BodyWithin, typeBody, TypeBody.records]
  | object => exact objectBody_within hlevel c
  | interface => exact bodyWithin_brackets rfl rfl (fieldsDefinition_yields hlevel c)
  | union => exact unionBody_within c
  | enum => exact bodyWithin_brackets rfl rfl (enumValuesDefinition_yields hlevel c)
  | input => exact bodyWithin_brackets rfl rfl (inputFieldsDefinition_yields hlevel c)

theorem typeDefinition_within (hlevel : level ≤ 49) (form : TypeForm)
    (described : Option Description) (keyword : Nat) (c : Cursor) :
    (typeDefinition level form described keyword c).value.record.Within (.ofSelections k) := by
  generalize hr : typeDefinition level form described keyword c = r
  cases typeDefinition_iff.1 hr with
  | noName =>
      refine TypeDefinition.within_iff.2 ?_
      cases form with
      | object => exact @bodyWithin_object k [] none (by simp)
      | union => exact bodyWithin_union
      | _ => simp [Reading.refuse, TypeForm.unreadBody, TypeBody.records]
  | whole => exact TypeDefinition.within_iff.2 (typeBody_within hlevel form _)

/-! ## Documents -/

theorem keywordDefinition_within (described : Option Description) (keyword : Token)
    (c behind : Cursor) : ∀ d ∈ (keywordDefinition described keyword c behind).value,
      d.record.Within (.ofSelections 25) := by
  intro d hd
  generalize hr : keywordDefinition described keyword c behind = r at hd
  cases keywordDefinition_iff.1 hr with
  | noForm => cases hd
  | whole =>
      cases hd
      exact Definition.within_type.2 (typeDefinition_within (Nat.le_refl 49) _ _ _ _)

theorem describedDefinition_within (t : Token) (rest : List Token) (c : Cursor) :
    ∀ d ∈ (describedDefinition t rest c).value, d.record.Within (.ofSelections 25) := by
  intro d hd
  generalize hr : describedDefinition t rest c = r at hd
  cases describedDefinition_iff.1 hr with
  | noKeyword => cases hd
  | keyword => exact keywordDefinition_within _ _ _ _ d hd

theorem definition_yields : Yields definition fun d => d.record.Within (.ofSelections 25) := by
  intro c d hd
  generalize hr : definition c = r at hd
  cases definition_iff.1 hr with
  | ended | refused => cases hd
  | operation =>
      obtain ⟨o, ho, rfl⟩ := Option.map_eq_some_iff.1 hd
      exact Definition.within_operation.2 (operation_yields _ _ _ o ho)
  | shorthand =>
      obtain ⟨o, ho, rfl⟩ := Option.map_eq_some_iff.1 hd
      exact Definition.within_operation.2 (shorthandQuery_yields _ c o ho)
  | fragment =>
      obtain ⟨f, hf, rfl⟩ := Option.map_eq_some_iff.1 hd
      exact Definition.within_fragment.2 (fragmentDefinition_yields _ _ f hf)
  | schema =>
      obtain ⟨s, -, rfl⟩ := Option.map_eq_some_iff.1 hd
      exact Definition.within_schema s
  | keyword => exact keywordDefinition_within _ _ _ _ d hd
  | described => exact describedDefinition_within _ _ _ d hd

theorem definitionsFrom_within (steps : List Token) (c : Cursor) (definitions : List Definition)
    (faults : List Fault) (h : ∀ d ∈ definitions, d.record.Within (.ofSelections 25)) :
    ∀ d ∈ (definitionsFrom steps c definitions faults).1,
      d.record.Within (.ofSelections 25) := by
  fun_induction definitionsFrom steps c definitions faults with
  | case1 c definitions faults => simpa only [List.mem_reverse] using h
  | case2 step steps c definitions faults r hread => simpa only [List.mem_reverse] using h
  | case3 step steps c definitions faults r d hread ih =>
      exact ih (List.forall_mem_cons.2 ⟨definition_yields c d hread, h⟩)

end Grammar

/-- Every document that is read is bounded, with or without errors. -/
theorem within_of_parse {source : Text} {d : Document} (h : (parse source).document = some d) :
    d.record.Within (.ofSelections 25) := by
  rw [parse] at h
  split at h
  · cases h
  · dsimp only at h
    split at h
    · cases h
      exact Document.within_iff.2 (Grammar.definitionsFrom_within _ _ _ _ (by simp))
    · cases h

end SelectionCheck
