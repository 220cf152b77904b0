import SelectionCheck.Proofs.Document.Equivariant
import SelectionCheck.Proofs.Document.Reads.Operand

/-!
# Values, arguments, directives and type references hand offsets on

The readers of values call each other at the next lower level, so their lemmas are proved together,
by induction on the level.
-/

namespace SelectionCheck.Grammar

open Placed (relocate)

variable (f : Nat → Nat)

/-! ## Values -/

theorem variableRef_equivariant : Equivariant variableRef := by
  intro f c
  generalize hr : variableRef c = r
  rw [variableRef_iff]
  cases variableRef_iff.1 hr with
  | noDollar hdollar => exact .noDollar (punctuator_relocate f hdollar)
  | noName hdollar hname =>
      exact .noName (punctuator_relocate f hdollar) (name_relocate f hname)
  | whole hdollar hname =>
      exact .whole (punctuator_relocate f hdollar) (name_relocate f hname)

theorem literal?_equivariant : Equivariant literal? := by
  intro f t
  rw [literal?, literal?, Token.kind_relocate, Token.text_relocate]
  cases t.kind with
  | name =>
      simp only
      split
      · rfl
      · split <;> rfl
  | _ => rfl

theorem variableValue_equivariant (constant : Bool) : Equivariant (variableValue constant) := by
  intro f c
  generalize hr : variableValue constant c = r
  rw [variableValue_iff]
  cases variableValue_iff.1 hr with
  | noVariable hvariable => exact .noVariable (variableRef_equivariant.eq f hvariable)
  | inConstant hvariable => exact .inConstant (variableRef_equivariant.eq f hvariable)
  | whole hvariable => exact .whole (variableRef_equivariant.eq f hvariable)

theorem objectField_equivariant {value : Cursor → Reading Value} (h : Equivariant value) :
    Equivariant (objectField value) := by
  intro f c
  generalize hr : objectField value c = r
  cases objectField_iff.1 hr with
  | noName hname => exact objectField_iff.2 (.noName (name_relocate f hname))
  | noColon hname hcolon =>
      exact objectField_iff.2
        (.noColon (name_relocate f hname) (punctuator_relocate f hcolon))
  | whole hname hcolon =>
      rw [objectField_iff.2
        (.whole (name_relocate f hname) (punctuator_relocate f hcolon))]
      exact Reading.map_relocate f (h f _) fun _ => rfl

theorem listOrTooDeep_equivariant :
    Equivariant fun list : Option (Bracketed Value) => (list.map Value.list).getD .tooDeep
  | _, none => rfl
  | f, some list => (Value.relocate_list f list).symm

theorem objectOrTooDeep_equivariant :
    Equivariant fun object : Option (Bracketed ObjectField) =>
      (object.map Value.object).getD .tooDeep
  | _, none => rfl
  | f, some object => (Value.relocate_object f object).symm

theorem values_equivariant (constant : Bool) (level : Nat) :
    Equivariant (value constant level) ∧ Equivariant (listValue constant level) ∧
      Equivariant (objectValue constant level) := by
  induction level with
  | zero => exact ⟨fun _ _ => rfl, fun _ _ => rfl, fun _ _ => rfl⟩
  | succ level ih =>
      obtain ⟨hvalue, hlist, hobject⟩ := ih
      refine ⟨fun f c => ?_, fun f c => ?_, fun f c => ?_⟩
      · generalize hr : value constant (level + 1) c = r
        cases value_iff.1 hr with
        | nothing hnone =>
            rw [value_iff.2 (.nothing ?_), Cursor.head?_relocate]
            · rfl
            · rw [Cursor.head?_relocate]
              intro _ ht
              obtain ⟨t, hhead, rfl⟩ := Option.map_eq_some_iff.1 ht
              obtain ⟨hliteral, hkind⟩ := hnone t hhead
              exact ⟨literal?_equivariant.eq f hliteral, hkind⟩
        | literal hahead hliteral =>
            exact value_iff.2 (.literal (Cursor.ahead_relocate_of_cons f hahead)
              (literal?_equivariant.eq f hliteral))
        | var hahead hkind =>
            rw [value_iff.2 (.var (Cursor.ahead_relocate_of_cons f hahead) hkind)]
            exact variableValue_equivariant constant f c
        | list hahead hkind =>
            rw [value_iff.2 (.list (Cursor.ahead_relocate_of_cons f hahead) hkind)]
            exact hlist f c
        | object hahead hkind =>
            rw [value_iff.2 (.object (Cursor.ahead_relocate_of_cons f hahead) hkind)]
            exact hobject f c
      · have hlists := bracketed_equivariant .lbracket .rbracket .listValue
          (hvalue.map equivariant_some)
        exact hlists.map listOrTooDeep_equivariant f c
      · have hobjects := bracketed_equivariant .lbrace .rbrace .objectField
          (objectField_equivariant hvalue)
        exact (hobjects.within (.rule .objectValue)).map objectOrTooDeep_equivariant f c

theorem value_equivariant (constant : Bool) (level : Nat) : Equivariant (value constant level) :=
  (values_equivariant constant level).1

theorem defaultValue_equivariant (level : Nat) : Equivariant (defaultValue level) := by
  intro f c
  generalize hr : defaultValue level c = r
  cases defaultValue_iff.1 hr with
  | tooDeep => rfl
  | absent hequals =>
      exact defaultValue_iff.2 (.absent (punctuator_relocate f hequals))
  | @whole level equals c₁ hequals =>
      have hvalue := (value_equivariant true level).within (.rule .defaultValue) f c₁
      rw [defaultValue_iff.2 (.whole (punctuator_relocate f hequals))]
      exact Reading.map_relocate f hvalue fun _ => rfl

/-! ## Arguments and directives -/

theorem argument_equivariant (constant : Bool) (level : Nat) :
    Equivariant (argument constant level) := by
  intro f c
  cases level with
  | zero => rfl
  | succ level =>
      rw [argument_succ, argument_succ]
      have hfield := objectField_equivariant (value_equivariant constant level) f c
      refine Reading.map_relocate f hfield ?_
      rintro (_ | ⟨name, colon, value⟩) <;> rfl

theorem arguments_equivariant (constant : Bool) (level : Nat) :
    Equivariant (arguments constant level) :=
  nonEmpty_equivariant _ _ _ _ (argument_equivariant constant) level

theorem directivesFrom_relocate (constant : Bool) (level : Nat) (steps : List Token) (c : Cursor)
    (before : List Directive) (faults : List Fault) :
    directivesFrom constant level (relocate f steps) (relocate f c) (relocate f before)
        (relocate f faults) =
      relocate f (directivesFrom constant level steps c before faults) := by
  induction steps generalizing c before faults with
  | nil => simp [directivesFrom]
  | cons step steps ih =>
      generalize hr : directivesFrom constant level (step :: steps) c before faults = r
      rw [relocate_cons]
      cases directivesFrom_iff.1 hr with
      | absent hsign =>
          rw [directivesFrom_iff.2 (.absent (punctuator_relocate f hsign))]
          simp
      | noName hsign hname =>
          rw [directivesFrom_iff.2
            (.noName (punctuator_relocate f hsign) (name_relocate f hname))]
          simp
      | more hsign hname harguments =>
          rw [directivesFrom_iff.2 (.more (punctuator_relocate f hsign)
            (name_relocate f hname) ((whenNext_equivariant .lparen
              (arguments_equivariant constant level)).eq f harguments)), ← ih]
          simp

theorem directives_equivariant (constant : Bool) (level : Nat) :
    Equivariant (directives constant level) := by
  intro f c
  cases level with
  | zero => rfl
  | succ level => exact directivesFrom_relocate f constant level c.ahead c [] []

/-! ## Type references -/

theorem bang_equivariant : Equivariant bang := by
  intro f c
  generalize hr : bang c = r
  rw [bang_iff]
  cases bang_iff.1 hr with
  | absent hbang => exact .absent (punctuator_relocate f hbang)
  | found hbang => exact .found (punctuator_relocate f hbang)

theorem listTypeRest_relocate (opening : Nat) (element : Reading TypeRef) :
    listTypeRest (f opening) (relocate f element) = relocate f (listTypeRest opening element) := by
  generalize hr : listTypeRest opening element = r
  cases listTypeRest_iff.1 hr with
  | unclosed hclosing =>
      rw [listTypeRest_iff.2 (.unclosed (punctuator_relocate f hclosing))]
      simp
  | badElement hclosing hfaults =>
      rw [listTypeRest_iff.2 (.badElement (punctuator_relocate f hclosing)
        (mt List.map_eq_nil_iff.1 hfaults))]
      simp
  | whole hclosing hfaults =>
      rw [listTypeRest_iff.2 (.whole (punctuator_relocate f hclosing)
        (List.map_eq_nil_iff.2 hfaults)), bang_equivariant]
      rfl

theorem typeRef_equivariant (level : Nat) : Equivariant (typeRef level) := by
  intro f c
  generalize hr : typeRef level c = r
  induction typeRef_iff.1 hr with
  | ended hahead =>
      rw [typeRef_iff.2 (.ended (List.map_eq_nil_iff.2 hahead)), Cursor.head?_relocate]
      rfl
  | tooDeep hahead => exact typeRef_iff.2 (.tooDeep (mt List.map_eq_nil_iff.1 hahead))
  | noType hahead hname hlbracket =>
      rw [typeRef_iff.2 (.noType (Cursor.ahead_relocate_of_cons f hahead) hname hlbracket),
        Cursor.head?_relocate]
      rfl
  | @named level t rest c hahead hname =>
      rw [typeRef_iff.2 (.named (Cursor.ahead_relocate_of_cons f hahead) hname),
        ← Cursor.relocate_past, bang_equivariant]
      rfl
  | list hahead hlbracket helement ih =>
      have hread := typeRef_iff.1 (ih (typeRef_iff.2 helement))
      rw [typeRef_iff.2 (.list (Cursor.ahead_relocate_of_cons f hahead) hlbracket hread)]
      exact listTypeRest_relocate f _ _

end SelectionCheck.Grammar
