import SelectionCheck.Document.Operand

/-!
# Reading operations and fragments

A selection set is a bracketed list of selections, and a field or inline fragment may hold a
selection set again; the levels count down through both. An empty selection set is accepted here:
whether it is allowed depends on the type that is selected from, which the check of selections
decides.
-/

namespace SelectionCheck.Grammar

/-! ## Selections -/

/-- Reads a type condition, or gives the fault and the cursor where it arose. -/
def typeCondition : (level : Nat) → Cursor → Except (Fault × Cursor) (TypeCondition × Cursor)
  | level, c =>
    match c.ahead with
    | [] => .error ((Fault.expected .typeCondition none).within (.rule .typeCondition), c)
    | t :: rest =>
      match level with
      | 0 => .error (.tooDeep, c)
      | _ + 1 =>
        if t.isWord "on" then
          match name (c.past rest) with
          | .error fault => .error (fault, c.past rest)
          | .ok (name, c) => .ok (⟨t.start, name⟩, c)
        else .error ((Fault.expected .typeCondition (some t)).within (.rule .typeCondition), c)

/-- Reads the reference to a fragment, whose ellipsis is next with `rest` behind it. -/
def fragmentSpread : (level : Nat) → (ellipsis : Token) → (rest : List Token) → Cursor →
    Reading (Option Selection)
  | 0, _, _, c => .refuse none .tooDeep c
  | level + 1, ellipsis, rest, c =>
    match name (c.past rest) with
    | .error fault => .refuse none (fault.within (.rule .fragmentSpread)) (c.past rest)
    | .ok (name, c) =>
      ((directives false level c).within (.named .fragmentSpread name.value)).map fun directives =>
        some (.spread ellipsis.start name directives)

def inlineCondition (level : Nat) (c : Cursor) :
    Except (Fault × Cursor) (Option TypeCondition × Cursor) :=
  match c.ahead with
  | [] => .ok (none, c)
  | t :: _ =>
    if t.isWord "on" then
      match typeCondition level c with
      | .error (fault, c) => .error (fault.within (.rule .inlineFragment), c)
      | .ok (condition, c) => .ok (some condition, c)
    else .ok (none, c)

/-- Reads the name of a field and, if a colon follows, takes it for an alias and reads the name
after it. -/
def fieldName (c : Cursor) : Except (Fault × Cursor) ((Option Name × Name) × Cursor) :=
  match name c with
  | .error fault => .error (fault.within (.rule .field), c)
  | .ok (first, c) =>
    match punctuator .colon c with
    | .error _ => .ok ((none, first), c)
    | .ok (_, c) =>
      match name c with
      | .error fault => .error (fault.within (.named .field first.value), c)
      | .ok (second, c) => .ok ((some first, second), c)

/-- Reads what may follow the name of a field, given the reader of its selection set. At the end
of the document nothing is read, not even at level zero. -/
def fieldRest (level : Nat) (selections : Cursor → Reading (Option SelectionSet))
    (aliasName : Option Name) (name : Name) (c : Cursor) : Reading (Option Selection) :=
  match c.ahead with
  | [] => ⟨some (.field aliasName name none [] none), [], c⟩
  | _ :: _ =>
    let a := whenNext .lparen (arguments false level) c
    let d := directives false level a.next
    let s := whenNext .lbrace selections d.next
    ⟨some (.field aliasName name a.value d.value s.value),
      withinAll (.named .field name.value) (a.faults ++ d.faults ++ s.faults), s.next⟩

def field (level : Nat) (selections : Cursor → Reading (Option SelectionSet)) (c : Cursor) :
    Reading (Option Selection) :=
  match fieldName c with
  | .error (fault, c) => .refuse none fault c
  | .ok ((aliasName, name), c) => fieldRest level selections aliasName name c

/-- Reads what follows the type condition of an inline fragment, given the reader of its selection
set. -/
def inlineRest (level : Nat) (selections : Cursor → Reading (Option SelectionSet)) (ellipsis : Nat)
    (condition : Option TypeCondition) (c : Cursor) : Reading (Option Selection) :=
  let d := (directives false level c).within (.rule .inlineFragment)
  match d.next.ahead with
  | t :: _ =>
    if t.kind = .lbrace then
      let s := (selections d.next).within (.rule .inlineFragment)
      ⟨s.value.map (.inline ellipsis condition d.value), d.faults ++ s.faults, s.next⟩
    else
      ⟨none,
        d.faults ++ [(Fault.expected .inlineFragmentStart (some t)).within (.rule .inlineFragment)],
        d.next⟩
  | [] =>
    let s := (selections d.next).within (.rule .inlineFragment)
    ⟨s.value.map (.inline ellipsis condition d.value), d.faults ++ s.faults, s.next⟩

mutual

def selectionSet : (level : Nat) → Cursor → Reading (Option SelectionSet)
  | 0, c => .refuse none .tooDeep c
  | level + 1, c =>
    (bracketed .lbrace .rbrace .selection (selection level) c).within (.rule .selectionSet)

/-- Reads a selection: a fragment if an ellipsis is next, else a field. What follows the ellipsis
tells a reference to a fragment from a fragment written in place. -/
def selection : (level : Nat) → Cursor → Reading (Option Selection)
  | 0, c => .refuse none .tooDeep c
  | level + 1, c =>
    match c.ahead with
    | [] => field level (selectionSet level) c
    | t :: rest =>
      if t.kind = .ellipsis then
        match rest with
        | [] => .refuse none (.expected .fragmentStart none) (c.past rest)
        | next :: _ =>
          if next.kind = .name && !next.isWord "on" then fragmentSpread level t rest c
          else if next.kind = .name || next.kind = .lbrace || next.kind = .atSign then
            inlineFragment level t rest c
          else .refuse none (.expected .fragmentStartOrDirective (some next)) (c.past rest)
      else field level (selectionSet level) c

def inlineFragment : (level : Nat) → (ellipsis : Token) → (rest : List Token) → Cursor →
    Reading (Option Selection)
  | 0, _, _, c => .refuse none .tooDeep c
  | level + 1, ellipsis, rest, c =>
    match inlineCondition level (c.past rest) with
    | .error (fault, c) => .refuse none fault c
    | .ok (condition, c) => inlineRest level (selectionSet level) ellipsis.start condition c

end

/-! ## Operations -/

/-- Reads the definition of a variable. A default value is read only behind a type without faults.
-/
def variableDefinition : (level : Nat) → Cursor → Reading (Option VariableDefinition)
  | 0, c => .refuse none .tooDeep c
  | level + 1, c =>
    match variableRef c with
    | .error (fault, c) => .refuse none fault c
    | .ok (var, c) =>
      match punctuator .colon c with
      | .error fault => .refuse (some ⟨var, none, .missing, none⟩) fault c
      | .ok (colon, c) =>
        let t := typeRef level c
        match t.faults with
        | [] => (defaultValue level t.next).map fun d => some ⟨var, some colon, t.value, d⟩
        | faults => ⟨some ⟨var, some colon, t.value, none⟩, faults, t.next⟩

def variableDefinitions (level : Nat) : Cursor → Reading (Option (Bracketed VariableDefinition)) :=
  nonEmpty .lparen .rparen .variableDefinitions .variableDefinition variableDefinition level

def operationContext : Option Name → Context
  | some name => .named .operation name.value
  | none => .rule .operation

def operationRest (level start : Nat) (type : OperationType) (name : Option Name) (c : Cursor) :
    Reading (Option Operation) :=
  let v := whenNext .lparen (variableDefinitions level) c
  let d := directives false level v.next
  let s := selectionSet level d.next
  ⟨s.value.map (⟨start, type, name, v.value, d.value, ·⟩),
    withinAll (operationContext name) (v.faults ++ d.faults ++ s.faults), s.next⟩

def operation (level start : Nat) (type : OperationType) (c : Cursor) :
    Reading (Option Operation) :=
  match c.ahead with
  | [] => .refuse none ((Fault.expected .operationRest none).within (.rule .operation)) c
  | t :: rest =>
    if t.kind = .name then
      match rest with
      | [] =>
        .refuse none ((Fault.expected .operationBody none).within (.rule .operation)) (c.past rest)
      | _ :: _ => operationRest level start type (some ⟨t.text, t.start⟩) (c.past rest)
    else operationRest level start type none c

def shorthandQuery (level start : Nat) (c : Cursor) : Reading (Option Operation) :=
  ((selectionSet level c).within (.rule .operation)).map fun s =>
    s.map (⟨start, .query, none, none, [], ·⟩)

/-! ## Fragments -/

def fragmentDefinition (level keyword : Nat) (c : Cursor) : Reading (Option Fragment) :=
  match name c with
  | .error fault => .refuse none (fault.within (.rule .fragmentDefinition)) c
  | .ok (name, c) =>
    if name.value = ("on" : Text) then
      .refuse none ((Fault.bare (.fragmentNamedOn name.start)).within (.rule .fragmentDefinition)) c
    else
      match typeCondition level c with
      | .error (fault, c) => .refuse none (fault.within (.named .fragmentDefinition name.value)) c
      | .ok (condition, c) =>
        let d := directives false level c
        let s := selectionSet level d.next
        ⟨s.value.map (⟨keyword, name, condition, d.value, ·⟩),
          withinAll (.named .fragmentDefinition name.value) (d.faults ++ s.faults), s.next⟩

end SelectionCheck.Grammar
