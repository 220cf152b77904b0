import SelectionCheck.Text.Basic

/-!
# Lines and columns

An offset into a text is reported as a line and a column, both counted from one. Columns count
bytes, so a tab is one column and an accented letter is two. A line feed, a carriage return, or a
carriage return followed by a line feed ends a line; a byte order mark occupies no column.

The walk carries the number of bytes still to skip explicitly: when it meets a byte order mark,
the two bytes after the first one are passed without moving. That keeps the recursion on the text
itself.
-/

namespace SelectionCheck

/-- A place in a text as a person counts it: lines and columns start at one. -/
structure Position where
  line : Nat
  column : Nat
deriving DecidableEq, Repr, Inhabited

namespace Position

def start : Position := ⟨1, 1⟩

def right (p : Position) : Position := ⟨p.line, p.column + 1⟩

def down (p : Position) : Position := ⟨p.line + 1, 1⟩

/-- The position reached from `p` after `count` bytes of the text, of which the first `skip` do
not move. -/
def advance : (skip : Nat) → Position → (count : Nat) → Text → Position
  | _, p, 0, _ => p
  | _, p, _ + 1, [] => p
  | skip + 1, p, count + 1, _ :: rest => advance skip p count rest
  | 0, p, count + 1, b :: rest =>
    if Text.startsWith Text.byteOrderMark (b :: rest) then advance 2 p count rest
    else if b = 0x0D && rest.head? = some 0x0A then advance 0 p count rest
    else if b = 0x0D || b = 0x0A then advance 0 p.down count rest
    else advance 0 p.right count rest

/-- The position of a byte offset. An offset past the end counts as the end. -/
def ofOffset (text : Text) (offset : Nat) : Position :=
  advance 0 start offset text

/-- The position of an offset that may be negative, which counts as the beginning. -/
def ofInt (text : Text) (offset : Int) : Position :=
  ofOffset text offset.toNat

@[simp]
theorem ofOffset_zero (text : Text) : ofOffset text 0 = start := by
  simp [ofOffset, advance]

def render (p : Position) : Text :=
  Text.ofNat p.line ++ ":" ++ Text.ofNat p.column

end Position

end SelectionCheck
