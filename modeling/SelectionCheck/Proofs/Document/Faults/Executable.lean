import SelectionCheck.Proofs.Document.Cases.Executable
import SelectionCheck.Proofs.Document.Faults.Operand

/-!
# Where faults in operations and fragments are met
-/

namespace SelectionCheck.Grammar

variable {ts : List Token} {c c' : Cursor} {fault : Fault}
  {selections : Cursor → Reading (Option SelectionSet)}

/-! ## Selections -/

theorem reaches_of_typeCondition {level : Nat} {condition : TypeCondition} (hc : c.On ts)
    (h : typeCondition level c = .ok (condition, c')) : c.Reaches ts c' := by
  cases typeCondition_iff.1 h with
  | whole hahead _ hname =>
      have hpast := hc.past hahead
      exact hpast.trans (reaches_of_name hpast.on hname).1

theorem at_of_typeCondition {level : Nat} (hc : c.On ts)
    (h : typeCondition level c = .error (fault, c')) :
    c.Reaches ts c' ∧ fault.At ts c'.behind := by
  cases typeCondition_iff.1 h with
  | ended | noWord =>
      exact ⟨hc.refl,
        (Fault.at_expected hc .typeCondition).within (Context.from_rule ts .typeCondition)⟩
  | tooDeep => exact ⟨hc.refl, Fault.at_tooDeep ts _⟩
  | noName hahead _ hname =>
      have hpast := hc.past hahead
      exact ⟨hpast, at_of_name hpast.on hname⟩

theorem fragmentSpread_orderly (level : Nat) (ellipsis : Token) {t : Token} {rest : List Token}
    (hc : c.On ts) (hahead : c.ahead = t :: rest) :
    (fragmentSpread level ellipsis rest c).Orderly ts c := by
  have hpast := hc.past hahead
  generalize hr : fragmentSpread level ellipsis rest c = r
  cases fragmentSpread_iff.1 hr with
  | tooDeep => exact tooDeep_orderly _ hc
  | noName hname =>
      exact .of_refuse hpast
        ((at_of_name hpast.on hname).within (Context.from_rule ts .fragmentSpread))
  | @whole level n c₁ hname =>
      obtain ⟨hreaches, hn⟩ := reaches_of_name hpast.on hname
      exact (((directives_orderly false level hreaches.on).within
        (Context.from_named .fragmentSpread hn)).after (hpast.trans hreaches)).map _

theorem reaches_of_inlineCondition {level : Nat} {condition : Option TypeCondition} (hc : c.On ts)
    (h : inlineCondition level c = .ok (condition, c')) : c.Reaches ts c' := by
  cases inlineCondition_iff.1 h with
  | absent => exact hc.refl
  | whole _ _ hcondition => exact reaches_of_typeCondition hc hcondition

theorem at_of_inlineCondition {level : Nat} (hc : c.On ts)
    (h : inlineCondition level c = .error (fault, c')) :
    c.Reaches ts c' ∧ fault.At ts c'.behind := by
  cases inlineCondition_iff.1 h with
  | noCondition _ _ hcondition =>
      obtain ⟨hreaches, hat⟩ := at_of_typeCondition hc hcondition
      exact ⟨hreaches, hat.within (Context.from_rule ts .inlineFragment)⟩

theorem reaches_of_fieldName {aliasName : Option Name} {n : Name} (hc : c.On ts)
    (h : fieldName c = .ok ((aliasName, n), c')) :
    c.Reaches ts c' ∧ ∃ place, n.At ts place := by
  cases fieldName_iff.1 h with
  | plain hname =>
      obtain ⟨hreaches, hn⟩ := reaches_of_name hc hname
      exact ⟨hreaches, c.behind, hn⟩
  | aliased hfirst hcolon hsecond =>
      obtain ⟨hreaches, -⟩ := reaches_of_name hc hfirst
      obtain ⟨hreaches', -⟩ := reaches_of_punctuator hreaches.on hcolon
      obtain ⟨hreaches'', hn⟩ := reaches_of_name hreaches'.on hsecond
      exact ⟨(hreaches.trans hreaches').trans hreaches'', _, hn⟩

theorem at_of_fieldName (hc : c.On ts) (h : fieldName c = .error (fault, c')) :
    c.Reaches ts c' ∧ fault.At ts c'.behind := by
  cases fieldName_iff.1 h with
  | noName hname => exact ⟨hc.refl, (at_of_name hc hname).within (Context.from_rule ts .field)⟩
  | onlyAlias hfirst hcolon hsecond =>
      obtain ⟨hreaches, hn⟩ := reaches_of_name hc hfirst
      obtain ⟨hreaches', -⟩ := reaches_of_punctuator hreaches.on hcolon
      exact ⟨hreaches.trans hreaches',
        (at_of_name hreaches'.on hsecond).within (Context.from_named .field hn)⟩

theorem fieldRest_orderly (level : Nat) (hselections : Orderly selections)
    (aliasName : Option Name) {n : Name} {place : Nat} (hn : n.At ts place) (hc : c.On ts) :
    (fieldRest level selections aliasName n c).Orderly ts c := by
  generalize hr : fieldRest level selections aliasName n c = r
  cases fieldRest_iff.1 hr with
  | ended => exact .of_reaches hc.refl
  | whole _ ha hd hs =>
      subst ha hd hs
      have harguments := whenNext_orderly (arguments_orderly false level) .lparen hc
      have hdirectives := directives_orderly false level harguments.on
      have hset := whenNext_orderly hselections .lbrace hdirectives.on
      exact ⟨hset.on, ((harguments.faults.append hdirectives.faults).append hset.faults).withinAll
        (Context.from_named .field hn)⟩

theorem field_orderly (level : Nat) (hselections : Orderly selections) :
    Orderly (field level selections) := by
  intro ts c hc
  generalize hr : field level selections c = r
  cases field_iff.1 hr with
  | noName hname =>
      obtain ⟨hreaches, hat⟩ := at_of_fieldName hc hname
      exact .of_refuse hreaches hat
  | whole hname =>
      obtain ⟨hreaches, place, hn⟩ := reaches_of_fieldName hc hname
      exact (fieldRest_orderly level hselections _ hn hreaches.on).after hreaches

theorem inlineRest_orderly (level : Nat) (hselections : Orderly selections) (ellipsis : Nat)
    (condition : Option TypeCondition) (hc : c.On ts) :
    (inlineRest level selections ellipsis condition c).Orderly ts c := by
  have hinline := Context.from_rule ts .inlineFragment
  have hdirectives := directives_orderly false level hc
  generalize hr : inlineRest level selections ellipsis condition c = r
  cases inlineRest_iff.1 hr with
  | noSet hd =>
      rw [hd] at hdirectives
      have hat := Fault.at_expected hdirectives.on .inlineFragmentStart
      exact ⟨hdirectives.on,
        (hdirectives.faults.append (.one (Nat.le_refl _) (Nat.le_refl _) hat)).withinAll hinline⟩
  | whole hd _ hs =>
      rw [hd] at hdirectives
      have hset := hselections hdirectives.on
      rw [hs] at hset
      exact ⟨hset.on, (hdirectives.faults.append hset.faults).withinAll hinline⟩

structure SelectionsOrderly (level : Nat) : Prop where
  set : Orderly (selectionSet level)
  selection : Orderly (Grammar.selection level)
  inline : ∀ ⦃ts : List Token⦄ ⦃c : Cursor⦄ (ellipsis : Token) {t : Token} {rest : List Token},
    c.On ts → c.ahead = t :: rest → (inlineFragment level ellipsis rest c).Orderly ts c

theorem selectionsOrderly (level : Nat) : SelectionsOrderly level := by
  induction level with
  | zero =>
      refine ⟨?_, ?_, ?_⟩ <;> intro ts c
      · intro hc; rw [selectionSet]; exact tooDeep_orderly _ hc
      · intro hc; rw [selection]; exact tooDeep_orderly _ hc
      · intro ellipsis t rest hc hahead; rw [inlineFragment]; exact tooDeep_orderly _ hc
  | succ level ih =>
      refine ⟨?_, ?_, ?_⟩ <;> intro ts c
      · intro hc
        rw [selectionSet]
        exact (bracketed_orderly ih.selection .lbrace .rbrace .selection hc).within
          (Context.from_rule ts .selectionSet)
      · intro hc
        generalize hr : selection (level + 1) c = r
        cases selection_iff.1 hr with
        | field => exact field_orderly level ih.set hc
        | ended hahead =>
            have hpast := hc.past hahead
            exact .of_refuse hpast (Fault.at_expected hpast.on .fragmentStart)
        | noFragment hahead =>
            have hpast := hc.past hahead
            exact .of_refuse hpast (Fault.at_expected hpast.on .fragmentStartOrDirective)
        | spread hahead => exact fragmentSpread_orderly level _ hc hahead
        | inline hahead => exact ih.inline _ hc hahead
      · intro ellipsis t rest hc hahead
        have hpast := hc.past hahead
        generalize hr : inlineFragment (level + 1) ellipsis rest c = r
        cases inlineFragment_iff.1 hr with
        | noCondition hcondition =>
            obtain ⟨hreaches, hat⟩ := at_of_inlineCondition hpast.on hcondition
            exact .of_refuse (hpast.trans hreaches) hat
        | whole hcondition =>
            have hreaches := reaches_of_inlineCondition hpast.on hcondition
            exact (inlineRest_orderly level ih.set ellipsis.start _ hreaches.on).after
              (hpast.trans hreaches)

theorem selectionSet_orderly (level : Nat) : Orderly (selectionSet level) :=
  (selectionsOrderly level).set

/-! ## Operations -/

theorem DefaultedCases.orderly {α : Type} {level : Nat}
    {make : TypeRef → Option DefaultValue → α} {r : Reading (Option α)} (hc : c.On ts)
    (h : DefaultedCases level c make r) : r.Orderly ts c := by
  have htype := typeRef_orderly level hc
  cases h with
  | badType ht => exact ⟨ht ▸ htype.on, ht ▸ htype.faults⟩
  | whole ht =>
      subst ht
      exact ((defaultValue_orderly level htype.on).after htype.reaches).map _

theorem variableDefinition_orderly (level : Nat) : Orderly (variableDefinition level) := by
  intro ts c hc
  generalize hr : variableDefinition level c = r
  cases variableDefinition_iff.1 hr with
  | tooDeep => exact tooDeep_orderly _ hc
  | noVariable hvariable =>
      obtain ⟨hreaches, hat⟩ := at_of_variableRef hc hvariable
      exact .of_refuse hreaches hat
  | noColon hvariable hcolon =>
      obtain ⟨hreaches, -⟩ := reaches_of_variableRef hc hvariable
      exact .of_refuse hreaches (at_of_punctuator hreaches.on hcolon)
  | typed hvariable hcolon htype =>
      obtain ⟨hreaches, -⟩ := reaches_of_variableRef hc hvariable
      have hbehind := hreaches.trans (reaches_of_punctuator hreaches.on hcolon).1
      exact (htype.orderly hbehind.on).after hbehind

theorem variableDefinitions_orderly (level : Nat) : Orderly (variableDefinitions level) :=
  nonEmpty_orderly variableDefinition_orderly _ _ _ _ level

theorem operationRest_orderly (level start : Nat) (type : OperationType) {n : Option Name}
    (hn : (operationContext n).From ts) (hc : c.On ts) :
    (operationRest level start type n c).Orderly ts c := by
  have hvariables := whenNext_orderly (variableDefinitions_orderly level) .lparen hc
  have hdirectives := directives_orderly false level hvariables.on
  have hset := selectionSet_orderly level hdirectives.on
  exact ⟨hset.on,
    ((hvariables.faults.append hdirectives.faults).append hset.faults).withinAll hn⟩

theorem operation_orderly (level start : Nat) (type : OperationType) :
    Orderly (operation level start type) := by
  intro ts c hc
  have hoperation := Context.from_rule ts .operation
  generalize hr : operation level start type c = r
  cases operation_iff.1 hr with
  | ended => exact .of_refuse hc.refl ((Fault.at_expected hc .operationRest).within hoperation)
  | noBody hahead =>
      have hpast := hc.past hahead
      exact .of_refuse hpast ((Fault.at_expected hpast.on .operationBody).within hoperation)
  | named hahead hkind =>
      obtain ⟨hpast, hn⟩ := reaches_of_name hc (name_of_kind hahead hkind)
      exact (operationRest_orderly level start type (Context.from_named .operation hn)
        hpast.on).after hpast
  | anonymous => exact operationRest_orderly level start type hoperation hc

theorem shorthandQuery_orderly (level start : Nat) : Orderly (shorthandQuery level start) :=
  fun ts _ hc => ((selectionSet_orderly level hc).within (Context.from_rule ts .operation)).map _

/-! ## Fragments -/

/-- A fragment must not be named `on`; the name is read nevertheless. -/
theorem fragmentDefinition_orderly (level keyword : Nat) :
    Orderly (fragmentDefinition level keyword) := by
  intro ts c hc
  have hdefinition := Context.from_rule ts .fragmentDefinition
  generalize hr : fragmentDefinition level keyword c = r
  cases fragmentDefinition_iff.1 hr with
  | noName hname => exact .of_refuse hc.refl ((at_of_name hc hname).within hdefinition)
  | @namedOn n c₁ hname =>
      obtain ⟨hreaches, t, hget, -, -, hstart⟩ := reaches_of_name hc hname
      have hat : (Cause.fragmentNamedOn n.start).At ts c.behind := by
        rw [Cause.At, hget, Option.map_some, hstart]
      exact ⟨hreaches.on,
        .one (Nat.le_refl _) hreaches.le ((Fault.at_bare hat).within hdefinition)⟩
  | noCondition hname _ hcondition =>
      obtain ⟨hreaches, hn⟩ := reaches_of_name hc hname
      obtain ⟨hreaches', hat⟩ := at_of_typeCondition hreaches.on hcondition
      exact .of_refuse (hreaches.trans hreaches')
        (hat.within (Context.from_named .fragmentDefinition hn))
  | whole hname _ hcondition hd hs =>
      subst hd hs
      obtain ⟨hreaches, hn⟩ := reaches_of_name hc hname
      have hreaches' := reaches_of_typeCondition hreaches.on hcondition
      have hdirectives := (directives_orderly false level hreaches'.on).after
        (hreaches.trans hreaches')
      have hset := selectionSet_orderly level hdirectives.on
      exact ⟨hset.on, (hdirectives.faults.append hset.faults).withinAll
        (Context.from_named .fragmentDefinition hn)⟩

end SelectionCheck.Grammar
