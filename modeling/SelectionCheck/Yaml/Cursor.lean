import SelectionCheck.Yaml.Fault

/-!
# Reading the characters of a source

A cursor stands between two characters of a source. Characters behind it become known block by
block, when they are needed; behind the last one stands nothing but the end, which is shown as the
character of number zero. Moving the cursor keeps count of lines and columns.
-/

namespace SelectionCheck.Yaml

/-- A place in a source: the known characters behind it, the blocks that are not known yet, and the
first character of the last move of the known ones. `size` bounds the number of characters of the
source. -/
structure Cursor where
  known : List Char
  unknown : List Block
  head : Char
  mark : Mark
  afterBreak : Bool
  size : Nat

def endMark : Char := Char.ofNat 0

def Cursor.ofSource (source : Text) : Cursor :=
  ⟨[], blocks source, endMark, .start, false, source.length + 1⟩

/-! ## Kinds of characters -/

namespace Character

def isBlank (c : Char) : Bool := c = ' ' || c = '\t'

def isBreak (c : Char) : Bool :=
  c = '\r' || c = '\n' || c = '\u0085' || c = '\u2028' || c = '\u2029'

def isLineEnd (c : Char) : Bool := isBreak c || c = endMark

def isWordEnd (c : Char) : Bool := isBlank c || isLineEnd c

def isNameChar (c : Char) : Bool := c.isAlphanum || c = '_' || c = '-'

def hexDigit? (c : Char) : Option Nat :=
  if c.toNat < 0x80 then Text.hexValue? c.toUInt8 else none

def spell (chars : List Char) : Text := chars.flatMap String.utf8EncodeChar

end Character

/-! ## Moving -/

abbrev Reading := StateT Cursor (Except Fault)

namespace Reading

open Character

/-- The characters that are known when at least `count` are wanted, and the blocks that are left. -/
def fill (count : Nat) (known : List Char) :
    List Block → Except SourceFault (List Char × List Block)
  | [] => .ok (known, [])
  | .error fault :: _ => .error fault
  | .ok more :: rest =>
    if ((known ++ more).drop (count - 1)).isEmpty then fill count (known ++ more) rest
    else .ok (known ++ more, rest)

def need (count : Nat) : Reading Unit := fun cursor =>
  if (cursor.known.drop (count - 1)).isEmpty then
    match fill count cursor.known cursor.unknown with
    | .error fault => .error (.source fault)
    | .ok (known, unknown) => .ok ((), { cursor with known, unknown, head := known.headD endMark })
  else .ok ((), cursor)

def peek (offset : Nat) : Reading Char := do
  return (← get).known.getD offset endMark

def next : Reading Char := peek 0

def here : Reading Mark := do return (← get).mark

def fail {α : Type} (context : Mark) (fault : TokenFault) : Reading α := do
  throw (.token context (← here) fault)

def skip : Reading Unit := modify fun cursor =>
  match cursor.known with
  | [] => cursor
  | c :: known =>
    let mark := { cursor.mark with
      index := cursor.mark.index + 1, column := cursor.mark.column + 1 }
    { cursor with known, mark, afterBreak := cursor.afterBreak && isBlank c }

def skipLine : Reading Unit := modify fun cursor =>
  let moved (count : Nat) : Cursor :=
    { cursor with
      known := cursor.known.drop count
      mark := ⟨cursor.mark.index + count, cursor.mark.line + 1, 0⟩
      afterBreak := true }
  match cursor.known with
  | '\r' :: '\n' :: _ => moved 2
  | c :: _ => if isBreak c then moved 1 else cursor
  | [] => cursor

/-- Moves behind the end of a line and gives what stands for it in a value: separators of lines and
paragraphs are kept, all else becomes a line feed. -/
def takeLine : Reading (List Char) := do
  let c ← next
  if !isBreak c then return []
  skipLine
  return [if c = '\u2028' || c = '\u2029' then c else '\n']

/-- Moves over characters as long as they satisfy `p`, of which there are at most `fuel`, and gives
them, after those of `read`, which stand in reverse. -/
def takeWhileFrom (p : Char → Bool) : (fuel : Nat) → (read : List Char) → Reading (List Char)
  | 0, read => return read.reverse
  | fuel + 1, read => do
    let c ← next
    if p c then
      skip
      need 1
      takeWhileFrom p fuel (c :: read)
    else return read.reverse

def takeWhile (p : Char → Bool) : Reading (List Char) := do
  takeWhileFrom p (← get).size []

def skipWhile (p : Char → Bool) : Reading Unit := do
  let _ ← takeWhile p

/-- Whether a line of three characters `c` alone stands here: the mark of a document. -/
def isDocumentMark (c : Char) : Reading Bool := do
  let cursor ← get
  let chars := cursor.known ++ [endMark, endMark, endMark, endMark]
  return cursor.mark.column = 0 && chars.take 3 = [c, c, c] && (chars.drop 3).head?.any isWordEnd

def atDocumentMark : Reading Bool := do
  return (← isDocumentMark '-') || (← isDocumentMark '.')

/-! ## Comments -/

def commentReach : Nat := 512

/-- The number of blanks, from `offset` on, before a comment that begins behind them. With
`lines`, ends of lines may stand among them. -/
def commentAhead? (lines : Bool) : (fuel : Nat) → (offset : Nat) → Reading (Option Nat)
  | 0, _ => return none
  | fuel + 1, offset => do
    need (offset + 1)
    let c ← peek offset
    if isBlank c || lines && (c = '\r' || c = '\n') then commentAhead? lines fuel (offset + 1)
    else return if c = '#' then some offset else none

def skipAcross : (fuel : Nat) → (target : Nat) → Reading Unit
  | 0, _ => return ()
  | fuel + 1, target => do
    if (← here).index < target then
      need 2
      if isBreak (← next) then skipLine else skip
      skipAcross fuel target

def skipToLineEnd : Reading Unit := do
  need 1
  skipWhile fun c => !isLineEnd c

def skipLineComment : Reading Unit := do
  if !(← get).afterBreak then
    match ← commentAhead? false commentReach 0 with
    | none => return ()
    | some _ =>
      skipWhile isBlank
      skipToLineEnd

/-- Moves over comments that follow each other, with nothing but blanks and ends of lines between
them, from the first of them on. Each takes a character, so `fuel` need not exceed their number. -/
def skipCommentsFrom : (fuel : Nat) → Reading Unit
  | 0 => return ()
  | fuel + 1 => do
    skipToLineEnd
    match ← commentAhead? true (commentReach - 1) 1 with
    | none => return ()
    | some offset =>
      skipAcross commentReach ((← here).index + offset)
      skipCommentsFrom fuel

def skipComments : Reading Unit := do
  skipCommentsFrom (← get).size

end Reading

end SelectionCheck.Yaml
