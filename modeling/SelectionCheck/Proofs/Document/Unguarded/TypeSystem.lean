import SelectionCheck.Proofs.Document.Faults.TypeSystem
import SelectionCheck.Proofs.Document.Unguarded.Operand

/-!
# Type and schema definitions read without looking

A type definition reads its own description and keyword here, and gives nothing if it does not
find the keyword.
-/

namespace SelectionCheck.Unguarded

open Grammar (TypeForm)

noncomputable section

def description (c : Cursor) : Option (Option Description × Cursor) :=
  c.peek (return (none, c)) fun t =>
    if t.kind = .string then do
      let (t, c) ← c.take?
      return (some ⟨t.start, t.text⟩, c)
    else return (none, c)

theorem description_eq (c : Cursor) : description c = pure (Grammar.description c) := by
  generalize hr : Grammar.description c = r
  obtain ⟨ahead, behind⟩ := c
  cases Grammar.description_iff.1 hr with
  | absent hkind =>
      cases ahead with
      | nil => rfl
      | cons t rest => exact if_neg fun h => hkind (congrArg some h)
  | found hahead hkind =>
      cases hahead
      exact if_pos hkind

/-! ## Fields and arguments -/

def inputValueDefinition :
    (level : Nat) → Cursor → Option (Reading (Option InputValueDefinition))
  | 0, c => return .refuse none .tooDeep c
  | level + 1, c => do
    let described ← description c
    match ← name described.2 with
    | .error fault => return .refuse none fault described.2
    | .ok (name, c) =>
      match ← punctuator .colon c with
      | .error fault => return .refuse (some ⟨described.1, name, none, .missing, none⟩) fault c
      | .ok (colon, c) =>
        let t ← typeRef level c
        match t.faults with
        | [] =>
          return (← defaultValue level t.next).map fun d =>
            some ⟨described.1, name, some colon, t.value, d⟩
        | faults => return ⟨some ⟨described.1, name, some colon, t.value, none⟩, faults, t.next⟩

def argumentsDefinition (level : Nat) :
    Cursor → Option (Reading (Option (Bracketed InputValueDefinition))) :=
  nonEmpty .lparen .rparen .argumentsDefinition .inputValueDefinition inputValueDefinition level

def inputFieldsDefinition (level : Nat) :
    Cursor → Option (Reading (Option (Bracketed InputValueDefinition))) :=
  nonEmpty .lbrace .rbrace .inputFieldsDefinition .inputValueDefinition inputValueDefinition level

def fieldDefinitionRest (level : Nat) (described : Option Description) (name : Name) (c : Cursor) :
    Option (Reading (Option FieldDefinition)) :=
  c.peek
    (return .refuse (some ⟨described, name, none, .unread, .missing, []⟩)
      (.expected .argumentsOrColon none) c)
    fun _ => do
      let a ← ifNext .lparen (argumentsDefinition level) c
      match ← punctuator .colon a.next with
      | .error fault =>
        return ⟨some ⟨described, name, a.value, .missing, .missing, []⟩, a.faults ++ [fault],
          a.next⟩
      | .ok (colon, c) =>
        let t ← typeRef level c
        let d ← directives true level t.next
        return ⟨some ⟨described, name, a.value, .found colon, t.value, d.value⟩,
          a.faults ++ t.faults ++ d.faults, d.next⟩

def fieldDefinition : (level : Nat) → Cursor → Option (Reading (Option FieldDefinition))
  | 0, c => return .refuse none .tooDeep c
  | level + 1, c => do
    let described ← description c
    match ← name described.2 with
    | .error fault => return .refuse none fault described.2
    | .ok (name, c) => fieldDefinitionRest level described.1 name c

def fieldsDefinition (level : Nat) :
    Cursor → Option (Reading (Option (Bracketed FieldDefinition))) :=
  nonEmpty .lbrace .rbrace .fieldsDefinition .fieldDefinition fieldDefinition level

theorem inputValueDefinition_eq (level : Nat) (c : Cursor) :
    inputValueDefinition level c = pure (Grammar.inputValueDefinition level c) := by
  generalize hr : Grammar.inputValueDefinition level c = r
  cases Grammar.inputValueDefinition_iff.1 hr with
  | tooDeep => rfl
  | noName hdescription hname =>
      simp [inputValueDefinition, description_eq, hdescription, name_eq, hname]
  | noColon hdescription hname hcolon =>
      simp [inputValueDefinition, description_eq, hdescription, name_eq, hname, punctuator_eq,
        hcolon]
  | typed hdescription hname hcolon htype =>
      rw [inputValueDefinition]
      simp only [description_eq, hdescription, name_eq, hname, punctuator_eq, hcolon, typeRef_eq,
        pure_bind]
      cases htype with
      | badType ht hfaults =>
          rw [ht]
          split
          · contradiction
          · rfl
      | whole ht hfaults => simp only [ht, hfaults, defaultValue_eq, pure_bind]

theorem argumentsDefinition_eq (level : Nat) (c : Cursor) :
    argumentsDefinition level c = pure (Grammar.argumentsDefinition level c) :=
  nonEmpty_eq Grammar.inputValueDefinition_orderly inputValueDefinition_eq _ level c

theorem inputFieldsDefinition_eq (level : Nat) (c : Cursor) :
    inputFieldsDefinition level c = pure (Grammar.inputFieldsDefinition level c) :=
  nonEmpty_eq Grammar.inputValueDefinition_orderly inputValueDefinition_eq _ level c

theorem fieldDefinitionRest_eq (level : Nat) (described : Option Description) (name : Name)
    (c : Cursor) :
    fieldDefinitionRest level described name c =
      pure (Grammar.fieldDefinitionRest level described name c) := by
  generalize hr : Grammar.fieldDefinitionRest level described name c = r
  obtain ⟨ahead, behind⟩ := c
  cases Grammar.fieldDefinitionRest_iff.1 hr with
  | ended hahead =>
      cases hahead
      rfl
  | noColon hahead | whole hahead =>
      obtain ⟨t, rest, hcons⟩ := List.exists_cons_of_ne_nil hahead
      cases hcons
      simp only [fieldDefinitionRest, peek_cons, ifNext_eq (argumentsDefinition_eq level),
        punctuator_eq, typeRef_eq, directives_eq, pure_bind, *]

theorem fieldDefinition_eq (level : Nat) (c : Cursor) :
    fieldDefinition level c = pure (Grammar.fieldDefinition level c) := by
  generalize hr : Grammar.fieldDefinition level c = r
  cases Grammar.fieldDefinition_iff.1 hr <;>
    simp [fieldDefinition, description_eq, name_eq, fieldDefinitionRest_eq, *]

theorem fieldsDefinition_eq (level : Nat) (c : Cursor) :
    fieldsDefinition level c = pure (Grammar.fieldsDefinition level c) :=
  nonEmpty_eq Grammar.fieldDefinition_orderly fieldDefinition_eq _ level c

/-! ## Enumerations -/

def enumValueDefinition (level : Nat) (c : Cursor) :
    Option (Reading (Option EnumValueDefinition)) := do
  let described ← description c
  match ← name described.2 with
  | .error fault => return .refuse none fault described.2
  | .ok (symbol, c) =>
    let d ← directives true level c
    return ⟨some ⟨described.1, symbol, d.value⟩, Grammar.reservedFaults symbol ++ d.faults, d.next⟩

def enumValuesDefinition (level : Nat) :
    Cursor → Option (Reading (Option (Bracketed EnumValueDefinition))) :=
  nonEmpty .lbrace .rbrace .enumValuesDefinition .enumValueDefinition enumValueDefinition level

theorem enumValueDefinition_eq (level : Nat) (c : Cursor) :
    enumValueDefinition level c = pure (Grammar.enumValueDefinition level c) := by
  generalize hr : Grammar.enumValueDefinition level c = r
  cases Grammar.enumValueDefinition_iff.1 hr <;>
    simp [enumValueDefinition, description_eq, name_eq, directives_eq, *]

theorem enumValuesDefinition_eq (level : Nat) (c : Cursor) :
    enumValuesDefinition level c = pure (Grammar.enumValuesDefinition level c) :=
  nonEmpty_eq Grammar.enumValueDefinition_orderly enumValueDefinition_eq _ level c

/-! ## Lists of names -/

def namesFrom (separator : Token.Kind) (c : Cursor) (names : List Name) :
    Option (Reading (List Name)) :=
  loop (c, names) fun (c, names) => do
    match ← name c with
    | .error fault => return .inl (.refuse names.reverse fault c)
    | .ok (name, c) =>
      c.peek (return .inl ⟨(name :: names).reverse, [], c⟩) fun t => do
        if t.kind = separator then return .inr ((← c.take?).2, name :: names)
        else return .inl ⟨(name :: names).reverse, [], c⟩

def names (separator : Token.Kind) (c : Cursor) : Option (Reading (List Name)) :=
  c.peek (namesFrom separator c []) fun t => do
    if t.kind = separator then namesFrom separator (← c.take?).2 [] else namesFrom separator c []

theorem namesFrom_eq (separator : Token.Kind) (ahead : List Token) (behind : Nat)
    (names : List Name) :
    namesFrom separator ⟨ahead, behind⟩ names =
      pure (Grammar.namesFrom separator ahead behind names) := by
  fun_induction Grammar.namesFrom separator ahead behind names with
  | case1 behind names => exact loop_of_ends rfl
  | case2 behind names t hkind =>
      exact loop_of_ends (by
        simp [name_eq, Grammar.name, hkind, Cursor.past, Cursor.peek, Cursor.isAtEnd])
  | case3 behind names t hkind s rest hseparator ih =>
      refine (loop_of_goesOn ?_).trans ih
      simp [name_eq, Grammar.name, hkind, Cursor.past, peek_cons, take?_cons, hseparator]
  | case4 behind names t hkind s rest hseparator =>
      exact loop_of_ends (by
        simp [name_eq, Grammar.name, hkind, Cursor.past, peek_cons, hseparator])
  | case5 behind names t rest hkind =>
      exact loop_of_ends (by simp [name_eq, Grammar.name, hkind])

theorem names_eq (separator : Token.Kind) (c : Cursor) :
    names separator c = pure (Grammar.names separator c) := by
  generalize hr : Grammar.names separator c = r
  rw [names]
  cases Grammar.names_iff.1 hr with
  | plain hseparator => exact (peek_of_error hseparator).trans (namesFrom_eq ..)
  | led hseparator =>
      obtain ⟨t, -, htake, hpeek⟩ := peek_of_ok hseparator
      rw [hpeek, htake]
      exact namesFrom_eq ..

/-! ## Type definitions -/

def implements (c : Cursor) : Option (Reading (List Name)) := do
  return (← names .ampersand (← c.take?).2).within (.rule .implements)

def objectBody (level : Nat) (c : Cursor) : Option (Reading TypeBody) := do
  let announced ← c.peek (return false) fun t => return t.isWord "implements"
  if announced then
    let i ← implements c
    match i.faults with
    | [] => return (← fieldsDefinition level i.next).map (.object i.value)
    | faults => return ⟨.object i.value none, faults, i.next⟩
  else return (← fieldsDefinition level c).map (.object [])

def unionBody (c : Cursor) : Option (Reading TypeBody) := do
  match ← punctuator .equals c with
  | .error fault => return .refuse (.union .missing []) fault c
  | .ok (equals, c) => return (← names .bar c).map (.union (.found equals))

def typeBody (level : Nat) (form : TypeForm) (c : Cursor) : Option (Reading TypeBody) :=
  match form with
  | .scalar => return ⟨.scalar, [], c⟩
  | .object => objectBody level c
  | .interface => return (← fieldsDefinition level c).map .interface
  | .union => unionBody c
  | .enum => return (← enumValuesDefinition level c).map .enum
  | .input => return (← inputFieldsDefinition level c).map .input

/-- Reads a type definition of the given form. There is none if its keyword is not found. -/
def typeDefinition (form : TypeForm) :
    (level : Nat) → Cursor → Option (Reading (Option TypeDefinition))
  | 0, c => return .refuse none .tooDeep c
  | level + 1, c => do
    let (described, c) ← description c
    c.peek (return .refuse none ((Fault.expected .keyword none).within (.rule form.rule)) c)
      fun t => do
        if t.isWord form.keyword then
          let (keyword, c) ← c.take?
          match ← name c with
          | .error fault =>
            return .refuse (some ⟨described, keyword.start, none, form.unreadBody⟩)
              (fault.within (.rule form.rule)) c
          | .ok (name, c) =>
            return ((← typeBody level form c).within (.named form.rule name.value)).map fun body =>
              some ⟨described, keyword.start, some name, body⟩
        else
          return .refuse none ((Fault.expected .keyword (some t)).within (.rule form.rule)) c

theorem objectBody_eq (level : Nat) (c : Cursor) :
    objectBody level c = pure (Grammar.objectBody level c) := by
  generalize hr : Grammar.objectBody level c = r
  rw [objectBody]
  obtain ⟨ahead, behind⟩ := c
  cases Grammar.objectBody_iff.1 hr with
  | plain hword =>
      cases ahead with
      | nil =>
          simp only [fieldsDefinition_eq]
          rfl
      | cons t rest =>
          have ht : t.isWord "implements" = false := hword t rfl
          simp [peek_cons, ht, fieldsDefinition_eq]
  | @badNames t rest i hahead hword hi hfaults =>
      cases hahead
      simp only [Cursor.past] at hi
      obtain ⟨interfaces, faults, next⟩ := i
      cases faults with
      | nil => exact absurd rfl hfaults
      | cons fault faults =>
          simp [peek_cons, hword, implements, take?_cons, names_eq, hi, Reading.within, withinAll]
  | @whole t rest i hahead hword hi hfaults =>
      cases hahead
      simp only [Cursor.past] at hi
      simp [peek_cons, hword, implements, take?_cons, names_eq, hi, Reading.within, withinAll,
        hfaults, fieldsDefinition_eq]

theorem unionBody_eq (c : Cursor) : unionBody c = pure (Grammar.unionBody c) := by
  generalize hr : Grammar.unionBody c = r
  cases Grammar.unionBody_iff.1 hr <;> simp [unionBody, punctuator_eq, names_eq, *]

theorem typeBody_eq (level : Nat) (form : TypeForm) (c : Cursor) :
    typeBody level form c = pure (Grammar.typeBody level form c) := by
  cases form with
  | scalar => rfl
  | object => exact objectBody_eq level c
  | interface => simp only [typeBody, Grammar.typeBody, fieldsDefinition_eq, pure_bind]
  | union => exact unionBody_eq c
  | enum => simp only [typeBody, Grammar.typeBody, enumValuesDefinition_eq, pure_bind]
  | input => simp only [typeBody, Grammar.typeBody, inputFieldsDefinition_eq, pure_bind]

theorem typeDefinition_eq {form : TypeForm} {c : Cursor} {described : Option Description}
    {t : Token} {rest : List Token} {behind : Nat}
    (hdescribed : Grammar.description c = (described, ⟨t :: rest, behind⟩))
    (ht : t.isWord form.keyword = true) (level : Nat) :
    typeDefinition form (level + 1) c =
      pure ((Grammar.typeDefinition level form described t.start ⟨rest, behind + 1⟩).map some) := by
  generalize hr : Grammar.typeDefinition level form described t.start ⟨rest, behind + 1⟩ = r
  simp only [typeDefinition, description_eq, hdescribed, pure_bind, peek_cons, take?_cons, ht,
    if_true, name_eq, typeBody_eq]
  cases Grammar.typeDefinition_iff.1 hr with
  | noName hname | whole hname =>
      simp only [hname]
      rfl

/-! ## Schema definitions -/

def rootDefinition (c : Cursor) : Option (Reading (Option RootDefinition)) := do
  let t ← c.first?
  match Grammar.operationType? t with
  | none => return .refuse none (.expected .operationType (some t)) c
  | some type =>
    let (t, c) ← c.take?
    match ← punctuator .colon c with
    | .error fault => return .refuse none fault c
    | .ok (colon, c) =>
      match ← name c with
      | .error fault => return .refuse none fault c
      | .ok (name, c) => return ⟨some ⟨type, t.start, colon, name⟩, [], c⟩

def schemaDefinition : (level : Nat) → Cursor → Option (Reading (Option SchemaDefinition))
  | 0, c => return .refuse none .tooDeep c
  | _ + 1, c => do
    let (t, c) ← c.take?
    let roots ← bracketed .lbrace .rbrace .rootDefinition rootDefinition c
    return (roots.within (.rule .schemaDefinition)).map fun roots => roots.map (⟨t.start, ·⟩)

theorem rootDefinition_eq {c : Cursor} (hahead : c.ahead ≠ []) :
    rootDefinition c = pure (Grammar.rootDefinition c) := by
  generalize hr : Grammar.rootDefinition c = r
  obtain ⟨ahead, behind⟩ := c
  obtain ⟨t, rest, hcons⟩ := List.exists_cons_of_ne_nil hahead
  cases hcons
  rw [rootDefinition]
  simp only [first?_cons, take?_cons, pure_bind, punctuator_eq, name_eq]
  cases Grammar.rootDefinition_iff.1 hr with
  | noType htype =>
      rw [htype t rfl]
      rfl
  | noColon hahead htype hcolon =>
      cases hahead
      simp only [Cursor.past] at hcolon
      simp only [htype, hcolon, Cursor.past]
  | noName hahead htype hcolon hname | whole hahead htype hcolon hname =>
      cases hahead
      simp only [Cursor.past] at hcolon
      simp only [htype, hcolon, hname]

theorem schemaDefinition_eq (level : Nat) (t : Token) (rest : List Token) (behind : Nat) :
    schemaDefinition (level + 1) ⟨t :: rest, behind⟩ =
      pure (Grammar.schemaDefinition t.start ⟨rest, behind + 1⟩) := by
  simp only [schemaDefinition, Grammar.schemaDefinition, take?_cons, pure_bind,
    bracketed_eq Grammar.rootDefinition_orderly fun c => rootDefinition_eq]

end

end SelectionCheck.Unguarded
