import SelectionCheck.Document.Cursor

/-!
# Reading values, arguments, directives and type references

Each rule of the grammar is read at a level, the number of rules that may still be nested inside
each other. A rule at level `n + 1` reads its parts at level `n`, and at level zero it refuses to
read anything, with the fault that the tree is too deep. The recursion is on the level, and the
limit on nesting is the level at which a document starts.
-/

namespace SelectionCheck.Grammar

variable {α : Type}

/-! ## Values -/

/-- Reads a variable, or gives the fault and the cursor where it arose. -/
def variableRef (c : Cursor) : Except (Fault × Cursor) (Variable × Cursor) :=
  match punctuator .dollar c with
  | .error fault => .error (fault.within (.rule .var), c)
  | .ok (dollar, c) =>
    match name c with
    | .error fault => .error (fault.within (.rule .var), c)
    | .ok (name, c) => .ok (⟨dollar, name⟩, c)

def literal? (t : Token) : Option Value :=
  match t.kind with
  | .int => some (.scalar t.start .int t.text)
  | .float => some (.scalar t.start .float t.text)
  | .string => some (.scalar t.start .string t.text)
  | .name =>
    if t.text = ("null" : Text) then some (.null ⟨t.text, t.start⟩)
    else if t.text = ("true" : Text) || t.text = ("false" : Text) then
      some (.scalar t.start .boolean t.text)
    else some (.scalar t.start .enum t.text)
  | _ => none

/-- Reads a variable where a value is wanted. In a constant it is read and reported. -/
def variableValue (constant : Bool) (c : Cursor) : Reading Value :=
  match variableRef c with
  | .error (fault, c) => .refuse .missing (fault.within (.rule .value)) c
  | .ok (var, c) =>
    let faults :=
      if constant then [(Fault.bare (.variableInConstant var.dollar)).within (.rule .value)] else []
    ⟨.var var, faults, c⟩

def objectField (value : Cursor → Reading Value) (c : Cursor) : Reading (Option ObjectField) :=
  match name c with
  | .error fault => .refuse none fault c
  | .ok (name, c) =>
    match punctuator .colon c with
    | .error fault => .refuse none fault c
    | .ok (colon, c) => (value c).map fun v => some ⟨name, colon, v⟩

mutual

def value (constant : Bool) : (level : Nat) → Cursor → Reading Value
  | 0, c => .refuse .missing .tooDeep c
  | level + 1, c =>
    match c.ahead with
    | [] => .refuse .missing ((Fault.bare (.noValue none)).within (.rule .value)) c
    | t :: rest =>
      match literal? t with
      | some v => ⟨v, [], c.past rest⟩
      | none =>
        match t.kind with
        | .dollar => variableValue constant c
        | .lbracket => listValue constant level c
        | .lbrace => objectValue constant level c
        | _ => .refuse .missing ((Fault.bare (.noValue (some t))).within (.rule .value)) c

/-- Reads a list of values. An element that could not be read leaves its place in the list. -/
def listValue (constant : Bool) : (level : Nat) → Cursor → Reading Value
  | 0, c => .refuse .tooDeep .tooDeep c
  | level + 1, c =>
    (bracketed .lbracket .rbracket .listValue (fun c => (value constant level c).map some) c).map
      fun list => (list.map Value.list).getD .tooDeep

def objectValue (constant : Bool) : (level : Nat) → Cursor → Reading Value
  | 0, c => .refuse .tooDeep .tooDeep c
  | level + 1, c =>
    ((bracketed .lbrace .rbrace .objectField (objectField (value constant level)) c).within
      (.rule .objectValue)).map fun object => (object.map Value.object).getD .tooDeep

end

def defaultValue : (level : Nat) → Cursor → Reading (Option DefaultValue)
  | 0, c => .refuse none .tooDeep c
  | level + 1, c =>
    match punctuator .equals c with
    | .error _ => ⟨none, [], c⟩
    | .ok (equals, c) =>
      ((value true level c).within (.rule .defaultValue)).map fun v => some ⟨equals, v⟩

/-! ## Arguments and directives -/

def argument (constant : Bool) : (level : Nat) → Cursor → Reading (Option Argument)
  | 0, c => .refuse none .tooDeep c
  | level + 1, c =>
    match name c with
    | .error fault => .refuse none fault c
    | .ok (name, c) =>
      match punctuator .colon c with
      | .error fault => .refuse none fault c
      | .ok (colon, c) => (value constant level c).map fun v => some ⟨name, colon, v⟩

def arguments (constant : Bool) (level : Nat) : Cursor → Reading (Option (Bracketed Argument)) :=
  nonEmpty .lparen .rparen .arguments .argument (argument constant) level

/-- Reads directives as long as an at sign is next. `directives` and `faults` hold what was read
before, latest first; every directive takes a token, so `steps` starts as a copy of the tokens
ahead. -/
def directivesFrom (constant : Bool) (level : Nat) :
    (steps : List Token) → Cursor → (directives : List Directive) → (faults : List Fault) →
      Reading (List Directive)
  | [], c, directives, faults => ⟨directives.reverse, faults.reverse, c⟩
  | _ :: steps, c, directives, faults =>
    match punctuator .atSign c with
    | .error _ => ⟨directives.reverse, faults.reverse, c⟩
    | .ok (sign, c) =>
      match name c with
      | .error fault => ⟨directives.reverse, (fault.within (.rule .directive) :: faults).reverse, c⟩
      | .ok (name, c) =>
        let r := (whenNext .lparen (arguments constant level) c).within (.directive name.value)
        directivesFrom constant level steps r.next (⟨sign, name, r.value⟩ :: directives)
          (r.faults.reverse ++ faults)

def directives (constant : Bool) : (level : Nat) → Cursor → Reading (List Directive)
  | 0, c => .refuse [] .tooDeep c
  | level + 1, c => directivesFrom constant level c.ahead c [] []

/-! ## Type references -/

def bang (c : Cursor) : Option Nat × Cursor :=
  match punctuator .bang c with
  | .error _ => (none, c)
  | .ok (offset, c) => (some offset, c)

/-- Reads what follows the element of a list type: the closing bracket and, if there were no
faults, a bang. -/
def listTypeRest (opening : Nat) (element : Reading TypeRef) : Reading TypeRef :=
  match punctuator .rbracket element.next with
  | .error fault =>
    ⟨.list opening element.value none none, withinAll (.rule .listType) (element.faults ++ [fault]),
      element.next⟩
  | .ok (closing, c) =>
    match element.faults with
    | [] =>
      let mark := bang c
      ⟨.list opening element.value (some closing) mark.1, [], mark.2⟩
    | faults =>
      ⟨.list opening element.value (some closing) none, withinAll (.rule .listType) faults, c⟩

/-- Reads a type reference. The end of the document is reported before the nesting limit. -/
def typeRef : (level : Nat) → Cursor → Reading TypeRef
  | level, c =>
    match c.ahead with
    | [] => .refuse .missing ((Fault.expected .typeStart none).within (.rule .type)) c
    | t :: rest =>
      match level with
      | 0 => .refuse .missing .tooDeep c
      | level + 1 =>
        if t.kind = .name then
          let mark := bang (c.past rest)
          ⟨.named ⟨t.text, t.start⟩ mark.1, [], mark.2⟩
        else if t.kind = .lbracket then listTypeRest t.start (typeRef level (c.past rest))
        else .refuse .missing ((Fault.expected .typeStart (some t)).within (.rule .type)) c

end SelectionCheck.Grammar
