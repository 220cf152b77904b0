import SelectionCheck.Proofs.Document.Faults.Operand
import SelectionCheck.Proofs.Document.Leaves

/-!
# Where the leaves of values, directives and types stand
-/

namespace SelectionCheck

open Record

variable {ts : List Token} {first middle last : Nat}

/-! ## The nodes -/

theorem placed_value {before after : Nat} {r : Record} (h : r.Placed ts first last) :
    (oneOf .value before r after).Placed ts first last :=
  placed_oneOf rfl rfl h

theorem Value.placed_missing (h : first ≤ last) : Value.missing.record.Placed ts first last :=
  placed_of_nodes_eq_nil rfl h

theorem Value.placed_tooDeep : Value.tooDeep.record.Placed ts first first :=
  placed_node rfl rfl (allPlaced_nothing 5 first)

theorem allPlaced_field {n : Name} {colon : Nat} {v : Value}
    (hname : n.record.Placed ts first middle) (hvalue : v.record.Placed ts middle last) :
    AllPlaced ts first last [n.record, .offset (some colon), v.record] :=
  .cons hname (.skip rfl (.cons hvalue (.nil (Nat.le_refl _))))

theorem Directive.placed {d : Directive} (hname : d.name.record.Placed ts first middle)
    (harguments : (argumentsRecord d.arguments).Placed ts middle last) :
    d.record.Placed ts first last :=
  placed_node rfl rfl (.skip rfl (.cons hname (.cons harguments (.nil (Nat.le_refl _)))))

theorem TypeRef.placed_missing (h : first ≤ last) : TypeRef.missing.record.Placed ts first last :=
  placed_of_nodes_eq_nil rfl h

theorem TypeRef.placed_named {n : Name} {bang : Option Nat} (h : n.record.Placed ts first last) :
    (TypeRef.named n bang).record.Placed ts first last := by
  cases bang with
  | none => exact placed_oneOf rfl rfl h
  | some bang =>
      exact placed_oneOf rfl rfl
        (placed_node rfl rfl (.cons h (.skip rfl (.skip rfl (.nil (Nat.le_refl _))))))

theorem TypeRef.placed_list {opening : Nat} {element : TypeRef} {closing bang : Option Nat}
    (h : element.record.Placed ts first last) (hclosed : ClosedBy ts .rbracket closing) :
    (TypeRef.list opening element closing bang).record.Placed ts first last := by
  have hlist : (node .listType [.offset (some opening), element.record, .offset closing]).Placed
      ts first last :=
    placed_closed rfl hclosed rfl (.skip rfl (.cons h (.skip rfl (.nil (Nat.le_refl _)))))
  cases bang with
  | none => exact placed_oneOf rfl rfl hlist
  | some bang =>
      exact placed_oneOf rfl rfl
        (placed_node rfl rfl (.skip rfl (.cons hlist (.skip rfl (.nil (Nat.le_refl _))))))

namespace Grammar

variable {c c' : Cursor} {constant : Bool} {level : Nat}

/-! ## Values -/

theorem variableRef_placed {v : Variable} (hc : c.On ts) (h : variableRef c = .ok (v, c')) :
    c.Reaches ts c' ∧ v.record.Placed ts c.behind c'.behind := by
  cases variableRef_iff.1 h with
  | whole hdollar hname =>
      obtain ⟨hreaches, -⟩ := reaches_of_punctuator hc hdollar
      obtain ⟨hreaches', hplaced⟩ := name_placed hreaches.on hname
      exact ⟨hreaches.trans hreaches', Variable.placed (hplaced.mono hreaches.le (Nat.le_refl _))⟩

theorem variableValue_places (constant : Bool) :
    Places Value.record (variableValue constant) := by
  intro ts c hc
  generalize hr : variableValue constant c = r
  cases variableValue_iff.1 hr with
  | noVariable hvariable => exact Value.placed_missing (at_of_variableRef hc hvariable).1.le
  | inConstant hvariable | whole hvariable => exact placed_value (variableRef_placed hc hvariable).2

theorem scalar_placed {t : Token} {rest : List Token} {start : Nat} {kind : ScalarKind}
    {raw : Text} (hc : c.On ts) (hahead : c.ahead = t :: rest)
    (h : literal? t = some (.scalar start kind raw)) :
    (Value.scalar start kind raw).record.Placed ts c.behind (c.past rest).behind := by
  have hget := hc.getElem?
  rw [hahead, List.head?_cons] at hget
  have hat : (Leaf.scalar start kind raw).At ts c.behind := ⟨t, hget, h⟩
  exact placed_value (placed_leaf rfl rfl rfl hat (Nat.le_refl _) (Nat.lt_succ_self _))

theorem literal_placed {t : Token} {rest : List Token} {v : Value} (hc : c.On ts)
    (hahead : c.ahead = t :: rest) (h : literal? t = some v) :
    v.record.Placed ts c.behind (c.past rest).behind := by
  cases literal?_cases h with
  | null hkind => exact placed_value (placed_of_isName hc hahead hkind)
  | scalar => exact scalar_placed hc hahead h

theorem objectField_places {value : Cursor → Reading Value}
    (hvalue : Places Value.record value) :
    Places (ofOption ObjectField.record) (objectField value) := by
  intro ts c hc
  generalize hr : objectField value c = r
  cases objectField_iff.1 hr with
  | noName => exact placed_nothing (Nat.le_refl _)
  | noColon hname => exact placed_nothing (reaches_of_name hc hname).1.le
  | whole hname hcolon =>
      obtain ⟨hreaches, hplaced⟩ := name_placed hc hname
      obtain ⟨hreaches', -⟩ := reaches_of_punctuator hreaches.on hcolon
      exact placed_node rfl rfl
        (allPlaced_field hplaced ((hvalue hreaches'.on).mono hreaches'.le (Nat.le_refl _)))

structure ValuesPlaced (constant : Bool) (level : Nat) : Prop where
  value : Places Value.record (value constant level)
  list : Places Value.record (listValue constant level)
  object : Places Value.record (objectValue constant level)

theorem value_succ_places (h : ValuesPlaced constant level) :
    Places Value.record (value constant (level + 1)) := by
  intro ts c hc
  generalize hr : Grammar.value constant (level + 1) c = r
  cases value_iff.1 hr with
  | nothing => exact Value.placed_missing (Nat.le_refl _)
  | literal hahead hliteral => exact literal_placed hc hahead hliteral
  | var => exact variableValue_places constant hc
  | list => exact h.list hc
  | object => exact h.object hc

theorem listValue_succ_places (h : Places Value.record (value constant level)) :
    Places Value.record (listValue constant (level + 1)) := by
  have horderly : Orderly fun c => (Grammar.value constant level c).map some :=
    fun _ _ hc => (value_orderly constant level hc).map some
  have hitem : Places (ofOption Value.record) fun c => (Grammar.value constant level c).map some :=
    fun _ _ hc => h hc
  intro ts c hc
  have hlist := bracketed_placed horderly hitem .lbracket .rbracket .listValue hc
  have hle := (bracketed_orderly horderly .lbracket .rbracket .listValue hc).reaches.le
  rw [listValue, Reading.map]
  cases hread : (bracketed .lbracket .rbracket .listValue
      (fun c => (Grammar.value constant level c).map some) c).value with
  | none => exact Value.placed_tooDeep.mono (Nat.le_refl _) hle
  | some values =>
      rw [Option.map_some, Option.getD_some, Value.record_list]
      exact placed_value (placed_ofBracketed rfl (hlist values hread))

theorem objectValue_succ_places (h : Places Value.record (value constant level)) :
    Places Value.record (objectValue constant (level + 1)) := by
  have horderly := objectField_orderly (value_orderly constant level)
  intro ts c hc
  have hobject := bracketed_placed horderly (objectField_places h) .lbrace .rbrace .objectField hc
  have hle := (bracketed_orderly horderly .lbrace .rbrace .objectField hc).reaches.le
  rw [objectValue, Reading.map, Reading.within]
  cases hread : (bracketed .lbrace .rbrace .objectField
      (objectField (Grammar.value constant level)) c).value with
  | none => exact Value.placed_tooDeep.mono (Nat.le_refl _) hle
  | some fields =>
      rw [Option.map_some, Option.getD_some, Value.record_object]
      exact placed_value (placed_ofBracketed rfl (hobject fields hread))

theorem valuesPlaced (constant : Bool) (level : Nat) : ValuesPlaced constant level := by
  induction level with
  | zero =>
      exact ⟨fun _ _ _ => Value.placed_missing (Nat.le_refl _), fun _ _ _ => Value.placed_tooDeep,
        fun _ _ _ => Value.placed_tooDeep⟩
  | succ level ih =>
      exact ⟨value_succ_places ih, listValue_succ_places ih.value,
        objectValue_succ_places ih.value⟩

theorem value_places (constant : Bool) (level : Nat) :
    Places Value.record (value constant level) :=
  (valuesPlaced constant level).value

theorem defaultValue_places (level : Nat) :
    Places (ofOption DefaultValue.record) (defaultValue level) := by
  intro ts c hc
  generalize hr : defaultValue level c = r
  cases defaultValue_iff.1 hr with
  | tooDeep | absent => exact placed_nothing (Nat.le_refl _)
  | @whole level equals c₁ hequals =>
      obtain ⟨hreaches, -⟩ := reaches_of_punctuator hc hequals
      have hvalue := (value_places true level hreaches.on).mono hreaches.le (Nat.le_refl _)
      exact placed_node rfl rfl (.skip rfl (.cons hvalue (.nil (Nat.le_refl _))))

/-! ## Arguments and directives -/

theorem argument_places (constant : Bool) (level : Nat) :
    Places (ofOption Argument.record) (argument constant level) := by
  intro ts c hc
  cases level with
  | zero => exact placed_nothing (Nat.le_refl _)
  | succ level =>
      rw [argument_succ]
      generalize hr : objectField (value constant level) c = r
      cases objectField_iff.1 hr with
      | noName => exact placed_nothing (Nat.le_refl _)
      | noColon hname => exact placed_nothing (reaches_of_name hc hname).1.le
      | whole hname hcolon =>
          obtain ⟨hreaches, hplaced⟩ := name_placed hc hname
          obtain ⟨hreaches', -⟩ := reaches_of_punctuator hreaches.on hcolon
          have hvalue := value_places constant level hreaches'.on
          exact placed_node rfl rfl
            (allPlaced_field hplaced (hvalue.mono hreaches'.le (Nat.le_refl _)))

theorem arguments_places (constant : Bool) (level : Nat) :
    Places argumentsRecord (arguments constant level) :=
  nonEmpty_places (argument_orderly constant) (argument_places constant) _ _ _ rfl level

theorem directivesFrom_placed (constant : Bool) (level : Nat) (steps : List Token)
    (directives : List Directive) (faults : List Fault) (hc : c.On ts)
    (h : AllPlaced ts first c.behind (directives.reverse.map Directive.record)) :
    (directivesRecord (directivesFrom constant level steps c directives faults).value).Placed ts
      first (directivesFrom constant level steps c directives faults).next.behind := by
  fun_induction directivesFrom constant level steps c directives faults with
  | case1 c directives faults => exact h
  | case2 step steps c directives faults fault hsign => exact h
  | case3 step steps c directives faults sign c₁ hsign fault hname =>
      exact placed_list (h.mono_last (reaches_of_punctuator hc hsign).1.le)
  | case4 step steps c directives faults sign c₁ hsign name c₂ hname r ih =>
      obtain ⟨hreaches, -⟩ := reaches_of_punctuator hc hsign
      obtain ⟨hreaches', hplaced⟩ := name_placed hreaches.on hname
      have horderly := whenNext_orderly (arguments_orderly constant level) .lparen hreaches'.on
      have harguments := whenNext_places (arguments_places constant level) .lparen hreaches'.on
      refine ih horderly.on ?_
      rw [List.reverse_cons, List.map_append]
      refine h.append (.cons (Directive.placed ?_ harguments) (.nil (Nat.le_refl _)))
      exact hplaced.mono hreaches.le (Nat.le_refl _)

theorem directives_places (constant : Bool) (level : Nat) :
    Places directivesRecord (directives constant level) := by
  intro ts c hc
  cases level with
  | zero => exact placed_list (.nil (Nat.le_refl _))
  | succ level => exact directivesFrom_placed constant level _ _ _ hc (.nil (Nat.le_refl _))

/-! ## Type references -/

theorem listTypeRest_placed (opening : Nat) {element : Reading TypeRef} (hnext : element.next.On ts)
    (h : element.value.record.Placed ts first element.next.behind) :
    (listTypeRest opening element).value.record.Placed ts first
      (listTypeRest opening element).next.behind := by
  generalize hr : listTypeRest opening element = r
  cases listTypeRest_iff.1 hr with
  | unclosed => exact TypeRef.placed_list h (closedBy_none _)
  | badElement hclosing =>
      have hle := (reaches_of_punctuator hnext hclosing).1.le
      exact TypeRef.placed_list (h.mono (Nat.le_refl _) hle) (closedBy_of_punctuator hnext hclosing)
  | whole hclosing =>
      obtain ⟨hreaches, -⟩ := reaches_of_punctuator hnext hclosing
      have hle := Nat.le_trans hreaches.le (bang_reaches hreaches.on).le
      exact TypeRef.placed_list (h.mono (Nat.le_refl _) hle) (closedBy_of_punctuator hnext hclosing)

theorem typeRef_places (level : Nat) : Places TypeRef.record (typeRef level) := by
  intro ts c hc
  generalize hr : typeRef level c = r
  induction typeRef_iff.1 hr with
  | ended | tooDeep | noType => exact TypeRef.placed_missing (Nat.le_refl _)
  | named hahead hname =>
      have hplaced := placed_of_isName hc hahead hname
      have hle := (bang_reaches (hc.past hahead).on).le
      exact TypeRef.placed_named (hplaced.mono (Nat.le_refl _) hle)
  | @list level t rest element c hahead _ helement ih =>
      have hpast := hc.past hahead
      have hread := typeRef_iff.2 helement
      have horderly := typeRef_orderly level hpast.on
      rw [hread] at horderly
      exact listTypeRest_placed _ horderly.on ((ih hpast.on hread).mono hpast.le (Nat.le_refl _))

end Grammar

end SelectionCheck
