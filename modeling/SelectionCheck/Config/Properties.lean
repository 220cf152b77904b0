import SelectionCheck.Text.Quoted

/-!
# Configurations as properties

Each line gives a value to a name, with an equals sign, a colon or only blanks between them. A
backslash gives the next character another meaning, and at the end of a line it joins the next one
to it. A value refers to another one by its name in braces behind a dollar sign; a name that is
given nowhere refers to the environment.
-/

namespace SelectionCheck.Properties

open Text (byte)

inductive LineFault
  | cutOff
  | badCodePoint
  | missingName (value : Text)
deriving DecidableEq, Repr

inductive PropertiesFault
  | line (number : Nat) (fault : LineFault)
  | malformedReference
  | deepReference
  | circularReference (properties : List (Text × Text))
deriving DecidableEq, Repr

/-- A text in a message: only its beginning is shown. -/
def excerpt (text : Text) : Text :=
  if text.length ≤ 10 then Text.quote text
  else "\"" ++ ((Text.runes text).take 10).flatMap Text.Rune.quoted ++ "\"..."

def LineFault.message : LineFault → Text
  | .cutOff => "premature EOF"
  | .badCodePoint => "invalid unicode literal"
  | .missingName value => excerpt value

def PropertiesFault.message : PropertiesFault → Text
  | .line number fault => "properties: Line " ++ Text.ofNat number ++ ": " ++ fault.message
  | .malformedReference => "malformed expression"
  | .deepReference => "expansion too deep"
  | .circularReference properties =>
    "circular reference in:\n" ++ (properties.flatMap fun (name, value) =>
      name ++ [byte '='] ++ value ++ [0x0A] : Text)

/-! ## Reading -/

def isBlank (b : UInt8) : Bool :=
  b = 0x20 || b = 0x09 || b = 0x0C

def isLineEnd (b : UInt8) : Bool :=
  b = 0x0A || b = 0x0D

def isNameEnd (b : UInt8) : Bool :=
  isBlank b || isLineEnd b || b = byte ':' || b = byte '='

/-- The byte that a letter behind a backslash stands for; every other byte stands for itself. -/
def escaped (b : UInt8) : UInt8 :=
  if b = byte 'f' then 0x0C
  else if b = byte 'n' then 0x0A
  else if b = byte 'r' then 0x0D
  else if b = byte 't' then 0x09
  else b

/-- What a backslash and the text behind it mean, and how many bytes of that text it takes. -/
def escape (text : Text) : Except LineFault (Text × Nat) :=
  match text with
  | [] => .error .cutOff
  | b :: rest =>
    if b = byte 'u' then
      let digits := rest.take 4
      if digits.length = 4 && digits.all Text.isHexDigit then
        let code := digits.foldl (fun n d => n * 16 + (Text.hexValue? d).getD 0) 0
        let isCharacter := code < 0xD800 || 0xE000 ≤ code
        .ok (Text.encode (if isCharacter then code else Text.replacement), 5)
      else .error .badCodePoint
    else .ok ([escaped b], 1)

/-- The name at the head of a text, after `skip` bytes of an escape, and what follows it. What has
been `read` of it is kept latest first. -/
def nameFrom : (skip : Nat) → (read : Text) → Text → Except LineFault (Text × Text)
  | _, read, [] => .ok (read.reverse, [])
  | skip + 1, read, _ :: rest => nameFrom skip read rest
  | 0, read, b :: rest =>
    if b = byte '\\' then
      match escape rest with
      | .error fault => .error fault
      | .ok (meant, length) => nameFrom length (meant.reverse ++ read) rest
    else if isNameEnd b then .ok (read.reverse, b :: rest)
    else nameFrom 0 (b :: read) rest

/-- The value at the head of a text up to the end of the line, and what follows it. Blanks are
passed over behind a line that is joined to the next, where `joined`. -/
def valueFrom : (joined : Bool) → (skip : Nat) → (read : Text) → Text →
    Except LineFault (Text × Text)
  | _, _, read, [] => .ok (read.reverse, [])
  | joined, skip + 1, read, _ :: rest => valueFrom joined skip read rest
  | joined, 0, read, b :: rest =>
    if joined && isBlank b then valueFrom true 0 read rest
    else if b = byte '\\' then
      if rest.head?.any isLineEnd then valueFrom true 1 read rest
      else
        match escape rest with
        | .error fault => .error fault
        | .ok (meant, length) => valueFrom false length (meant.reverse ++ read) rest
    else if isLineEnd b then .ok (read.reverse, rest)
    else valueFrom false 0 (b :: read) rest

def behindMark (text : Text) : Text :=
  let rest := text.dropWhile isBlank
  let rest := if rest.head?.any (fun b => b = byte ':' || b = byte '=') then rest.tail else rest
  rest.dropWhile isBlank

/-- What follows the blanks, line ends and comments at the head of a text; `comment` says whether
it begins within a comment. -/
def behindComments : (comment : Bool) → Text → Text
  | _, [] => []
  | comment, b :: rest =>
    if isLineEnd b then behindComments false rest
    else if comment || isBlank b then behindComments comment rest
    else if b = byte '#' || b = byte '!' then behindComments true rest
    else b :: rest

def lineNumber (text rest : Text) : Nat :=
  (text.take (text.length - rest.length)).count 0x0A + 1

/-- The properties at the head of what is left of a text. Each one takes at least one byte, so
`fuel` need not exceed the length. -/
def pairsFrom (text : Text) : (fuel : Nat) → (left : Text) →
    Except PropertiesFault (List (Text × Text))
  | 0, _ => .ok []
  | fuel + 1, left =>
    let start := behindComments false left
    let wrong (place : Text) (fault : LineFault) : PropertiesFault :=
      .line (lineNumber text place) fault
    if start.isEmpty then .ok []
    else
      match nameFrom 0 [] start with
      | .error fault => .error (wrong start fault)
      | .ok (name, rest) =>
        match valueFrom false 0 [] (behindMark rest) with
        | .error fault => .error (wrong (behindMark rest) fault)
        | .ok (value, next) =>
          if name.isEmpty then .error (wrong (behindMark rest) (.missingName value))
          else (pairsFrom text fuel next).map ((name, value) :: ·)

/-- The properties of a text: the names in the order in which they are given first, with the values
that they are given last. -/
def pairs (text : Text) : Except PropertiesFault (List (Text × Text)) :=
  let text := Text.toValid text
  (pairsFrom text (text.length + 1) text).map fun given =>
    (given.map Prod.fst).eraseDups.map fun name =>
      (name, (given.reverse.lookup name).getD [])

/-! ## References -/

/-- A text up to the first reference in it, the name that it refers to, and the text behind it. -/
inductive Reference
  | none
  | unclosed
  | found (before name behind : Text)

/-- Finds the first reference in a text; `before` has been read, latest first. -/
def Reference.findFrom : (before : Text) → Text → Reference
  | before, a :: b :: rest =>
    if a = byte '$' && b = byte '\x7b' then
      match rest.dropWhile (· != byte '\x7d') with
      | _ :: behind => .found before.reverse (rest.takeWhile (· != byte '\x7d')) behind
      | [] => .unclosed
    else findFrom (a :: before) (b :: rest)
  | _, _ => .none

def depthLimit : Nat := 64

/-- The text with the values that it refers to; `within` are the names of the values that it is
part of, latest first. The number of references is limited by `fuel`. -/
def expand (properties : List (Text × Text)) (environment : Text → Option Text) :
    (fuel : Nat) → (within : List Text) → Text → Except PropertiesFault Text
  | 0, _, text => .ok text
  | fuel + 1, within, text =>
    if depthLimit < within.length then .error .deepReference
    else
      match Reference.findFrom [] text with
      | .none => .ok text
      | .unclosed => .error .malformedReference
      | .found before name behind =>
        if within.contains name then
          .error (.circularReference (within.reverse.map fun name =>
            (name, (properties.lookup name).getD [])))
        else
          let value := ((properties.lookup name).or (environment name)).getD []
          match expand properties environment fuel (name :: within) value with
          | .error fault => .error fault
          | .ok value => expand properties environment fuel within (before ++ value ++ behind)

def referenceLimit : Nat := 1000

def settings (environment : Text → Option Text) (text : Text) :
    Except PropertiesFault (List (Text × Text)) := do
  let properties ← pairs text
  properties.mapM fun (name, value) => do
    return (name, ← expand properties environment referenceLimit [name] value)

end SelectionCheck.Properties
