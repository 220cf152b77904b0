import SelectionCheck.Json.Lexeme

/-!
# Reading JSON

`firstValue` follows the grammar of JSON along the lexemes of a text with a stack of open
brackets, and ends with the first whole value. Nesting is limited. The members of an object are
then found by splitting its lexemes at the commas that no bracket encloses, which keeps the
spelling of each value.
-/

namespace SelectionCheck.Json

open Text (byte)

def nestingLimit : Nat := 10000

inductive Frame
  | object
  | array
deriving DecidableEq, Repr

inductive Awaited
  | value
  | itemOrClose
  | nameOrClose
  | name
  | colon
  | commaOrClose
  | nothing
deriving DecidableEq, Repr

/-- The place reached in the grammar: what may come next, which brackets are open, and how many
more may be opened. -/
structure Place where
  awaited : Awaited
  frames : List Frame
  room : Nat
deriving DecidableEq, Repr

namespace Place

def start : Place := ⟨.value, [], nestingLimit⟩

def afterValue (frames : List Frame) (room : Nat) : Place :=
  ⟨if frames.isEmpty then .nothing else .commaOrClose, frames, room⟩

def opened (p : Place) (frame : Frame) : Option Place :=
  match p.room with
  | 0 => none
  | room + 1 =>
    let awaited : Awaited :=
      match frame with
      | .object => .nameOrClose
      | .array => .itemOrClose
    some ⟨awaited, frame :: p.frames, room⟩

def closed (p : Place) (frame : Frame) : Option Place :=
  match p.frames with
  | innermost :: frames => if innermost = frame then some (afterValue frames (p.room + 1)) else none
  | [] => none

def begun (p : Place) : LexemeKind → Option Place
  | .string | .number | .word => some (afterValue p.frames p.room)
  | .mark .openBrace => p.opened .object
  | .mark .openBracket => p.opened .array
  | _ => none

def separated (p : Place) : Option Place :=
  match p.frames with
  | .object :: _ => some { p with awaited := .name }
  | .array :: _ => some { p with awaited := .value }
  | [] => none

def step (p : Place) (kind : LexemeKind) : Option Place :=
  match p.awaited, kind with
  | .itemOrClose, .mark .closeBracket => p.closed .array
  | .value, kind | .itemOrClose, kind => p.begun kind
  | .nameOrClose, .mark .closeBrace => p.closed .object
  | .nameOrClose, .string | .name, .string => some { p with awaited := .colon }
  | .colon, .mark .colon => some { p with awaited := .value }
  | .commaOrClose, .mark .comma => p.separated
  | .commaOrClose, .mark .closeBrace => p.closed .object
  | .commaOrClose, .mark .closeBracket => p.closed .array
  | _, _ => none

end Place

/-- Follows the grammar from a place to the end of the value: the lexemes of the value, of which
`taken` are behind, latest first, and those after it. -/
def valueFrom : Place → (taken : List Lexeme) → List Lexeme → Option (List Lexeme × List Lexeme)
  | _, _, [] => none
  | place, taken, l :: rest =>
    match place.step l.kind with
    | none => none
    | some next =>
      if next.awaited = .nothing then some ((l :: taken).reverse, rest)
      else valueFrom next (l :: taken) rest

def firstValue (ls : List Lexeme) : Option (List Lexeme × List Lexeme) :=
  valueFrom Place.start [] ls

def onlyValue (text : Text) : Option (List Lexeme) :=
  match firstValue (lexemes text) with
  | some (value, []) => some value
  | _ => none

/-! ## Members -/

def depthAfter (depth : Nat) : LexemeKind → Nat
  | .mark .openBrace | .mark .openBracket => depth + 1
  | .mark .closeBrace | .mark .closeBracket => depth - 1
  | _ => depth

/-- Splits lexemes at the commas outside brackets; `current` and `done` hold what is behind,
latest first. -/
def splitFrom : (depth : Nat) → (current : List Lexeme) → (done : List (List Lexeme)) →
    List Lexeme → List (List Lexeme)
  | _, current, done, [] => (current.reverse :: done).reverse
  | depth, current, done, l :: rest =>
    if depth = 0 && l.kind = .mark .comma then splitFrom 0 [] (current.reverse :: done) rest
    else splitFrom (depthAfter depth l.kind) (l :: current) done rest

/-! ## Strings -/

def codeOfDigits (digits : Text) : Nat :=
  digits.foldl (fun n b => n * 16 + (Text.hexValue? b).getD 0) 0

def isHighSurrogate (unit : Nat) : Bool := 0xD800 ≤ unit && unit < 0xDC00

def isLowSurrogate (unit : Nat) : Bool := 0xDC00 ≤ unit && unit < 0xE000

/-- The character of a code unit that stands alone: a surrogate stands for none. -/
def loneUnit (unit : Nat) : Nat :=
  if isHighSurrogate unit || isLowSurrogate unit then Text.replacement else unit

def escapedByte (letter : UInt8) : UInt8 :=
  if letter = byte 'b' then 0x08
  else if letter = byte 'f' then 0x0C
  else if letter = byte 'n' then 0x0A
  else if letter = byte 'r' then 0x0D
  else if letter = byte 't' then 0x09
  else letter

def unitAtHead? : Text → Option Nat
  | b :: letter :: h₁ :: h₂ :: h₃ :: h₄ :: _ =>
    if b = byte '\\' && letter = byte 'u' then some (codeOfDigits [h₁, h₂, h₃, h₄]) else none
  | _ => none

/-- The bytes that the escape at the head of a text stands for, and its length. Two escapes that
make a surrogate pair are one. -/
def escapeAtHead (text : Text) : Text × Nat :=
  match unitAtHead? text with
  | none => ((text.drop 1).head?.toList.map escapedByte, 2)
  | some unit =>
    match unitAtHead? (text.drop 6) with
    | none => (Text.encode (loneUnit unit), 6)
    | some second =>
      if isHighSurrogate unit && isLowSurrogate second then
        (Text.encode (0x10000 + (unit - 0xD800) * 0x400 + (second - 0xDC00)), 12)
      else (Text.encode (loneUnit unit), 6)

/-- Replaces the escapes of a string, whose first `skip` bytes belong to one already met; `done`
holds the bytes before, latest first. -/
def unescapeFrom : (skip : Nat) → Text → (done : Text) → Text
  | _, [], done => done.reverse
  | skip + 1, _ :: rest, done => unescapeFrom skip rest done
  | 0, b :: rest, done =>
    if b = byte '\\' then
      let (bytes, length) := escapeAtHead (b :: rest)
      unescapeFrom (length - 1) rest (bytes.reverse ++ done)
    else unescapeFrom 0 rest (b :: done)

/-- The text that a string with its quotes stands for. Bytes outside well-formed UTF-8 become
U+FFFD. -/
def unquote (text : Text) : Text :=
  Text.toValid (unescapeFrom 0 (text.drop 1).dropLast [])

def member? : List Lexeme → Option (Text × List Lexeme)
  | name :: _ :: value => some (unquote name.text, value)
  | _ => none

def members? : List Lexeme → Option (List (Text × List Lexeme))
  | l :: rest =>
    if l.kind = .mark .openBrace then
      some ((splitFrom 0 [] [] rest.dropLast).filterMap member?)
    else none
  | [] => none

def isNull (value : List Lexeme) : Bool :=
  spelling value = "null"

def kindName (value : List Lexeme) : Text :=
  match value.head?.map Lexeme.kind with
  | some .string => "string"
  | some .number => "number"
  | some .word => "bool"
  | some (.mark .openBrace) => "object"
  | _ => "array"

def string? : List Lexeme → Option Text
  | [l] => if l.kind = .string then some (unquote l.text) else none
  | _ => none

end SelectionCheck.Json
