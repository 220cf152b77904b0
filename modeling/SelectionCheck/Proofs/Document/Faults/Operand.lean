import SelectionCheck.Proofs.Document.Faults
import SelectionCheck.Proofs.Document.Reads.Operand

/-!
# Where faults in values, directives and types are met
-/

namespace SelectionCheck.Grammar

variable {α : Type} {ts : List Token} {c c' : Cursor} {fault : Fault}

/-! ## Values -/

theorem reaches_of_variableRef {v : Variable} (hc : c.On ts) (h : variableRef c = .ok (v, c')) :
    c.Reaches ts c' ∧ ts[c.behind]?.map Token.start = some v.dollar := by
  cases variableRef_iff.1 h with
  | whole hdollar hname =>
      obtain ⟨hreaches, hstart⟩ := reaches_of_punctuator hc hdollar
      exact ⟨hreaches.trans (reaches_of_name hreaches.on hname).1, hstart⟩

theorem at_of_variableRef (hc : c.On ts) (h : variableRef c = .error (fault, c')) :
    c.Reaches ts c' ∧ fault.At ts c'.behind := by
  have hvar := Context.from_rule ts .var
  cases variableRef_iff.1 h with
  | noDollar hdollar => exact ⟨hc.refl, (at_of_punctuator hc hdollar).within hvar⟩
  | noName hdollar hname =>
      obtain ⟨hreaches, -⟩ := reaches_of_punctuator hc hdollar
      exact ⟨hreaches, (at_of_name hreaches.on hname).within hvar⟩

/-- A variable in a constant is read to its end and reported at its dollar sign. -/
theorem variableValue_orderly (constant : Bool) : Orderly (variableValue constant) := by
  intro ts c hc
  have hvalue := Context.from_rule ts .value
  generalize hr : variableValue constant c = r
  cases variableValue_iff.1 hr with
  | noVariable hvariable =>
      obtain ⟨hreaches, hat⟩ := at_of_variableRef hc hvariable
      exact .of_refuse hreaches (hat.within hvalue)
  | @inConstant v c₁ hvariable =>
      obtain ⟨hreaches, hstart⟩ := reaches_of_variableRef hc hvariable
      have hat : (Cause.variableInConstant v.dollar).At ts c.behind := hstart
      exact ⟨hreaches.on, .one (Nat.le_refl _) hreaches.le ((Fault.at_bare hat).within hvalue)⟩
  | whole hvariable => exact .of_reaches (reaches_of_variableRef hc hvariable).1

theorem objectField_orderly {value : Cursor → Reading Value} (hvalue : Orderly value) :
    Orderly (objectField value) := by
  intro ts c hc
  generalize hr : objectField value c = r
  cases objectField_iff.1 hr with
  | noName hname => exact .of_refuse hc.refl (at_of_name hc hname)
  | noColon hname hcolon =>
      obtain ⟨hreaches, -⟩ := reaches_of_name hc hname
      exact .of_refuse hreaches (at_of_punctuator hreaches.on hcolon)
  | whole hname hcolon =>
      obtain ⟨hreaches, -⟩ := reaches_of_name hc hname
      obtain ⟨hreaches', -⟩ := reaches_of_punctuator hreaches.on hcolon
      exact ((hvalue hreaches'.on).after (hreaches.trans hreaches')).map _

structure ValuesOrderly (constant : Bool) (level : Nat) : Prop where
  value : Orderly (Grammar.value constant level)
  list : Orderly (listValue constant level)
  object : Orderly (objectValue constant level)

theorem valuesOrderly (constant : Bool) (level : Nat) : ValuesOrderly constant level := by
  induction level with
  | zero =>
      refine ⟨?_, ?_, ?_⟩ <;> intro ts c hc
      · rw [value]; exact tooDeep_orderly _ hc
      · rw [listValue]; exact tooDeep_orderly _ hc
      · rw [objectValue]; exact tooDeep_orderly _ hc
  | succ level ih =>
      refine ⟨?_, ?_, ?_⟩ <;> intro ts c hc
      · generalize hr : value constant (level + 1) c = r
        cases value_iff.1 hr with
        | nothing =>
            have hnone : (Fault.bare (.noValue c.ahead.head?)).At ts c.behind :=
              Fault.at_bare hc.getElem?
            exact .of_refuse hc.refl (hnone.within (Context.from_rule ts .value))
        | literal hahead => exact .of_reaches (hc.past hahead)
        | var => exact variableValue_orderly constant hc
        | list => exact ih.list hc
        | object => exact ih.object hc
      · rw [listValue]
        have hitem : Orderly fun c => (value constant level c).map some :=
          fun _ _ hc => (ih.value hc).map some
        exact (bracketed_orderly hitem .lbracket .rbracket .listValue hc).map _
      · rw [objectValue]
        exact ((bracketed_orderly (objectField_orderly ih.value) .lbrace .rbrace .objectField
          hc).within (Context.from_rule ts .objectValue)).map _

theorem value_orderly (constant : Bool) (level : Nat) : Orderly (value constant level) :=
  (valuesOrderly constant level).value

theorem defaultValue_orderly (level : Nat) : Orderly (defaultValue level) := by
  intro ts c hc
  generalize hr : defaultValue level c = r
  cases defaultValue_iff.1 hr with
  | tooDeep => exact tooDeep_orderly _ hc
  | absent => exact .of_reaches hc.refl
  | @whole level equals c₁ hequals =>
      obtain ⟨hreaches, -⟩ := reaches_of_punctuator hc hequals
      exact (((value_orderly true level hreaches.on).within
        (Context.from_rule ts .defaultValue)).after hreaches).map _

/-! ## Arguments and directives -/

theorem argument_orderly (constant : Bool) (level : Nat) : Orderly (argument constant level) := by
  intro ts c hc
  cases level with
  | zero => exact tooDeep_orderly _ hc
  | succ level =>
      rw [argument_succ]
      exact (objectField_orderly (value_orderly constant level) hc).map _

theorem arguments_orderly (constant : Bool) (level : Nat) : Orderly (arguments constant level) :=
  nonEmpty_orderly (argument_orderly constant) _ _ _ _ level

theorem directivesFrom_orderly (constant : Bool) (level : Nat) (steps : List Token)
    (directives : List Directive) (faults : List Fault) {first : Nat} (hc : c.On ts)
    (hfaults : FaultsBetween ts first c.behind faults.reverse) :
    (directivesFrom constant level steps c directives faults).next.On ts ∧
      FaultsBetween ts first (directivesFrom constant level steps c directives faults).next.behind
        (directivesFrom constant level steps c directives faults).faults := by
  induction steps generalizing c directives faults with
  | nil => exact ⟨hc, hfaults⟩
  | cons step steps ih =>
      generalize hr : directivesFrom constant level (step :: steps) c directives faults = r
      cases directivesFrom_iff.1 hr with
      | absent => exact ⟨hc, hfaults⟩
      | noName hsign hname =>
          obtain ⟨hreaches, -⟩ := reaches_of_punctuator hc hsign
          have hat := (at_of_name hreaches.on hname).within (Context.from_rule ts .directive)
          refine ⟨hreaches.on, ?_⟩
          rw [List.reverse_cons]
          exact (hfaults.mono (Nat.le_refl _) hreaches.le).append
            (.one (Nat.le_refl _) (Nat.le_refl _) hat)
      | more hsign hname hread =>
          subst hread
          obtain ⟨hreaches, -⟩ := reaches_of_punctuator hc hsign
          obtain ⟨hreaches', hn⟩ := reaches_of_name hreaches.on hname
          have harguments := (whenNext_orderly (arguments_orderly constant level) .lparen
            hreaches'.on).within (Context.from_directive hn)
          refine ih _ _ harguments.on ?_
          rw [List.reverse_append, List.reverse_reverse]
          exact (hfaults.mono (Nat.le_refl _) hreaches.le).append
            (harguments.after hreaches').faults

theorem directives_orderly (constant : Bool) (level : Nat) :
    Orderly (directives constant level) := by
  intro ts c hc
  cases level with
  | zero => exact tooDeep_orderly _ hc
  | succ level =>
      obtain ⟨hon, hfaults⟩ := directivesFrom_orderly constant level c.ahead [] [] hc
        (.nil (Nat.le_refl _))
      exact ⟨hon, hfaults⟩

/-! ## Type references -/

theorem bang_reaches (hc : c.On ts) : c.Reaches ts (bang c).2 := by
  generalize hr : bang c = r
  cases bang_iff.1 hr with
  | absent => exact hc.refl
  | found hbang => exact (reaches_of_punctuator hc hbang).1

theorem listTypeRest_orderly (opening : Nat) {element : Reading TypeRef}
    (h : element.Orderly ts c) : (listTypeRest opening element).Orderly ts c := by
  have hlist := Context.from_rule ts .listType
  generalize hr : listTypeRest opening element = r
  cases listTypeRest_iff.1 hr with
  | unclosed hclosing =>
      have hat := at_of_punctuator h.on hclosing
      exact ⟨h.on, (h.faults.append (.one (Nat.le_refl _) (Nat.le_refl _) hat)).withinAll hlist⟩
  | badElement hclosing =>
      obtain ⟨hreaches, -⟩ := reaches_of_punctuator h.on hclosing
      exact ⟨hreaches.on, (h.faults.mono (Nat.le_refl _) hreaches.le).withinAll hlist⟩
  | whole hclosing =>
      obtain ⟨hreaches, -⟩ := reaches_of_punctuator h.on hclosing
      exact .of_reaches ((h.reaches.trans hreaches).trans (bang_reaches hreaches.on))

theorem typeRef_orderly (level : Nat) : Orderly (typeRef level) := by
  intro ts c hc
  generalize hr : typeRef level c = r
  induction typeRef_iff.1 hr with
  | ended | noType =>
      exact .of_refuse hc.refl
        ((Fault.at_expected hc .typeStart).within (Context.from_rule ts .type))
  | tooDeep => exact tooDeep_orderly _ hc
  | named hahead =>
      have hpast := hc.past hahead
      exact .of_reaches (hpast.trans (bang_reaches hpast.on))
  | list hahead _ helement ih =>
      have hpast := hc.past hahead
      exact listTypeRest_orderly _ ((ih hpast.on (typeRef_iff.2 helement)).after hpast)

end SelectionCheck.Grammar
