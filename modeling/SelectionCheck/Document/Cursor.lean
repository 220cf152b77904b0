import SelectionCheck.Document.Fault

/-!
# Reading from a list of tokens

A `Cursor` stands between the tokens already read, of which it keeps only the number, and the
tokens ahead. A reader takes a cursor to a `Reading`: a value, the faults met, and the cursor
behind what was read. Readers recover: they give a value and faults side by side.

The number of tokens behind the cursor is what a list of items needs in order to notice that an
item took no token. Comparing two numbers decides this, where comparing the tokens ahead would
cost their length.

`bracketed` reads the lists of the language. Its items may be refused one by one; after an item
that took no token the list is given up and the search for its closing bracket, `skipTo`, decides
where reading goes on.
-/

namespace SelectionCheck

/-- The tokens ahead, and the number of tokens behind. -/
structure Cursor where
  ahead : List Token
  behind : Nat

namespace Cursor

def ofTokens (tokens : List Token) : Cursor := ⟨tokens, 0⟩

/-- The cursor behind one token more, when `rest` follows it. -/
def past (c : Cursor) (rest : List Token) : Cursor := ⟨rest, c.behind + 1⟩

def kind? (c : Cursor) : Option Token.Kind :=
  c.ahead.head?.map Token.kind

end Cursor

/-- What a reader gives: a value, the faults met, and the cursor behind what was read. -/
structure Reading (α : Type) where
  value : α
  faults : List Fault
  next : Cursor

namespace Reading

variable {α β : Type}

def map (f : α → β) (r : Reading α) : Reading β :=
  ⟨f r.value, r.faults, r.next⟩

def within (context : Context) (r : Reading α) : Reading α :=
  ⟨r.value, withinAll context r.faults, r.next⟩

def refuse (value : α) (fault : Fault) (c : Cursor) : Reading α :=
  ⟨value, [fault], c⟩

end Reading

namespace Grammar

variable {α : Type}

def name (c : Cursor) : Except Fault (Name × Cursor) :=
  match c.ahead with
  | [] => .error (.expected .name none)
  | t :: rest =>
    if t.kind = .name then .ok (⟨t.text, t.start⟩, c.past rest)
    else .error (.expected .name (some t))

def punctuator (kind : Token.Kind) (c : Cursor) : Except Fault (Nat × Cursor) :=
  match c.ahead with
  | [] => .error (.expected (.punctuator kind) none)
  | t :: rest =>
    if t.kind = kind then .ok (t.start, c.past rest)
    else .error (.expected (.punctuator kind) (some t))

def whenNext (kind : Token.Kind) (reader : Cursor → Reading (Option α)) (c : Cursor) :
    Reading (Option α) :=
  if c.kind? = some kind then reader c else ⟨none, [], c⟩

/-- Searches for the bracket that closes the list given up. `pending` holds the closers still
awaited, innermost first; a closing bracket discards the awaited closers before its own kind. The
search ends before the bracket that leaves one closer awaited, or behind a bracket that leaves
none. -/
def skipTo : (pending : List Token.Kind) → (behind : Nat) → List Token → Option Nat × Cursor
  | _, behind, [] => (none, ⟨[], behind⟩)
  | [], behind, t :: rest => (none, ⟨t :: rest, behind⟩)
  | k :: ks, behind, t :: rest =>
    match t.kind.closer? with
    | some closer => skipTo (closer :: k :: ks) (behind + 1) rest
    | none =>
      if t.kind.isCloser then
        match (k :: ks).dropWhile (· ≠ t.kind) with
        | [_] => (some t.start, ⟨t :: rest, behind⟩)
        | pending => skipTo pending (behind + 1) rest
      else skipTo (k :: ks) (behind + 1) rest

/-- Reads the items up to a closing bracket. `number` counts the items from one; `items` and
`faults` hold what was read before, latest first. An item takes at least one token or is the last,
so the tokens ahead bound the number of steps and `steps` starts as a copy of them. -/
def itemsFrom (closer : Token.Kind) (rule : Rule) (item : Cursor → Reading (Option α)) :
    (steps : List Token) → (number : Nat) → (c : Cursor) → (items : List α) →
      (faults : List Fault) →
      Reading (List α × Option Nat)
  | steps, number, c, items, faults =>
    match c.ahead with
    | [] => ⟨(items.reverse, none), (.expected (.itemOr rule closer) none :: faults).reverse, c⟩
    | t :: rest =>
      if t.kind = closer then ⟨(items.reverse, some t.start), faults.reverse, c.past rest⟩
      else
        let r := item c
        let items := r.value.toList ++ items
        let faults := (withinAll (.item rule number) r.faults).reverse ++ faults
        if r.next.behind = c.behind then
          let skipped := skipTo [closer] r.next.behind r.next.ahead
          ⟨(items.reverse, skipped.1), faults.reverse, skipped.2⟩
        else
          match steps with
          | [] => ⟨(items.reverse, none), faults.reverse, r.next⟩
          | _ :: steps => itemsFrom closer rule item steps (number + 1) r.next items faults

/-- Reads a bracketed list of items, named `rule` in faults. Without the opening bracket there is
no list. -/
def bracketed (opener closer : Token.Kind) (rule : Rule) (item : Cursor → Reading (Option α))
    (c : Cursor) : Reading (Option (Bracketed α)) :=
  match punctuator opener c with
  | .error fault => .refuse none fault c
  | .ok (opening, c) =>
    (itemsFrom closer rule item c.ahead 1 c [] []).map fun (items, closing) =>
      some ⟨opening, items, closing⟩

def emptyFaults (list : Rule) : Option (Bracketed α) → List Fault
  | some ⟨_, [], some closing⟩ => [(Fault.bare (.empty closing)).within (.rule list)]
  | _ => []

/-- Reads a bracketed list that must have an item, with its items one level further in. Its faults
are seen from inside the rule `list`. -/
def nonEmpty (opener closer : Token.Kind) (list rule : Rule)
    (item : Nat → Cursor → Reading (Option α)) :
    (level : Nat) → Cursor → Reading (Option (Bracketed α))
  | 0, c => .refuse none .tooDeep c
  | level + 1, c =>
    let r := (bracketed opener closer rule (item level) c).within (.rule list)
    ⟨r.value, r.faults ++ emptyFaults list r.value, r.next⟩

end Grammar

end SelectionCheck
