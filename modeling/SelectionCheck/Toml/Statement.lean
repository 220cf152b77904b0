import SelectionCheck.Toml.Date
import SelectionCheck.Toml.Number
import SelectionCheck.Toml.Quoted

/-!
# Statements of TOML

A document has one statement a line: a key with its value, the head of a table in brackets, or the
head of a further item of a list of tables in double brackets. A key has several parts with points
between them. Numbers and dates are kept in their spelling.
-/

namespace SelectionCheck.Toml

open Text (byte isDigit)

inductive SyntaxFault
  | notLineBreak (b : UInt8)
  | cutLineBreak
  | loneReturn
  | comment
  | notByte (wanted : UInt8)
  | endBefore (wanted : UInt8)
  | bareKey
  | missingKey
  | keyStart (b : UInt8)
  | missingValue
  | notWord (word : Text)
  | cutTable
  | cutList
  | leadingComma
  | missingComma
  | numberLetter (b : UInt8)
  | missingNumber
  | text (fault : TextFault)
deriving DecidableEq, Repr

def SyntaxFault.message : SyntaxFault → Text
  | .notLineBreak b => "expected newline but got " ++ Text.codePointName b.toNat
  | .cutLineBreak => "windows new line expected"
  | .loneReturn => "windows new line should be \\r\\n"
  | .comment => "invalid character in comment"
  | .notByte wanted => "expected character " ++ [wanted]
  | .endBefore wanted => "expected character " ++ [wanted] ++ " but the document ended here"
  | .bareKey => "expected = after a key, but the document ends there"
  | .missingKey => "expected key but found none"
  | .keyStart b => "invalid character at start of key: " ++ Text.encode b.toNat
  | .missingValue => "expected value, not eof"
  | .notWord word => "expected \x27" ++ word ++ "\x27"
  | .cutTable => "inline table is incomplete"
  | .cutList => "array is incomplete"
  | .leadingComma => "array cannot start with comma"
  | .missingComma => "array elements must be separated by commas"
  | .numberLetter b => "unexpected character \x27" ++ [b] ++ "\x27 while scanning for a number"
  | .missingNumber => "incomplete number"
  | .text fault => fault.message

abbrev Key := List Text

inductive Value
  | text (t : Text)
  | truth (b : Bool)
  | integer (numeral : Text)
  | fraction (numeral : Text)
  | date (kind : DateKind) (spelling : Text)
  | list (items : List Value)
  | table (entries : List (Key × Value))

inductive Statement
  | entry (key : Key) (value : Value)
  | table (key : Key)
  | item (key : Key)

/-! ## Blanks, line breaks and comments -/

def behindBlanks (text : Text) : Text :=
  text.dropWhile fun b => b = 0x20 || b = 0x09

def behindLineBreak : Text → Except SyntaxFault Text
  | [] => .ok []
  | b :: rest =>
    if b = 0x0A then .ok rest
    else if b != 0x0D then .error (.notLineBreak b)
    else
      match rest with
      | [] => .error .cutLineBreak
      | c :: rest => if c = 0x0A then .ok rest else .error .loneReturn

/-- What follows a comment, whose number sign has been read: the line feed at the end of its line,
or nothing. -/
def behindComment : (skip : Nat) → Text → Except SyntaxFault Text
  | _, [] => .ok []
  | skip + 1, _ :: rest => behindComment skip rest
  | 0, b :: rest =>
    if b = 0x0A then .ok (b :: rest)
    else if b = 0x0D then if rest.head? = some 0x0A then .ok rest else .error .comment
    else
      match characterLength? b rest with
      | none => .error .comment
      | some length => behindComment (length - 1) rest

def behindAnyComment (text : Text) : Except SyntaxFault Text :=
  if text.head? = some (byte '#') then behindComment 0 text.tail else .ok text

/-- What follows the blanks, comments and line breaks at the head of a text. Each line takes at
least one byte, so `fuel` need not exceed the length. -/
def behindLines : (fuel : Nat) → Text → Except SyntaxFault Text
  | 0, text => .ok text
  | fuel + 1, text => do
    let rest ← behindAnyComment (behindBlanks text)
    if rest.head?.any fun b => b = 0x0A || b = 0x0D then
      behindLines fuel (← behindLineBreak rest)
    else return rest

def behindByte (wanted : UInt8) : Text → Except SyntaxFault Text
  | [] => .error (.endBefore wanted)
  | b :: rest => if b = wanted then .ok rest else .error (.notByte wanted)

/-! ## Keys -/

def isKeyByte (b : UInt8) : Bool :=
  isDigit b || Text.isLower (Text.toLower b) || b = byte '-' || b = byte '_'

def quotedLine (quote : UInt8) (text : Text) : Except SyntaxFault (Text × Text) :=
  (lineText quote text).mapError .text

def keyPart (text : Text) : Except SyntaxFault (Text × Text) :=
  match text with
  | [] => .error .missingKey
  | b :: rest =>
    if b = 0x27 || b = 0x22 then quotedLine b rest
    else if isKeyByte b then .ok (text.takeWhile isKeyByte, text.dropWhile isKeyByte)
    else .error (.keyStart b)

/-- The key at the head of a text. Each part takes at least one byte, so `fuel` need not exceed the
length. -/
def keyFrom : (fuel : Nat) → Text → Except SyntaxFault (Key × Text)
  | 0, _ => .error .missingKey
  | fuel + 1, text => do
    let (part, rest) ← keyPart text
    let rest := behindBlanks rest
    if rest.head? = some (byte '.') then
      let (parts, rest) ← keyFrom fuel (behindBlanks rest.tail)
      return (part :: parts, rest)
    else return ([part], rest)

def key (text : Text) : Except SyntaxFault (Key × Text) :=
  keyFrom (text.length + 1) text

/-! ## Single values -/

/-- The number of bytes of a date, and whether there are signs of a date, of a time of day and of a
time zone in it. -/
structure DateShape where
  length : Nat
  date : Bool
  time : Bool
  zone : Bool

/-- The shape of the date at the head of a text, of which `seen` has been read. One blank may stand
before a digit, unless there has been one before; the two bytes behind it are passed over by
`skip`. -/
def dateShapeFrom : (skip : Nat) → (blank : Bool) → (seen : DateShape) → Text → DateShape
  | _, _, seen, [] => seen
  | skip + 1, blank, seen, _ :: rest =>
    dateShapeFrom skip blank { seen with length := seen.length + 1 } rest
  | 0, blank, seen, b :: rest =>
    let next := { seen with length := seen.length + 1 }
    if isDigit b then dateShapeFrom 0 blank next rest
    else if b = byte '-' then
      dateShapeFrom 0 blank { next with date := true, zone := seen.zone || 8 ≤ seen.length } rest
    else if b = byte 'T' || b = byte 't' || b = byte ':' || b = byte '.' then
      dateShapeFrom 0 blank { next with time := true } rest
    else if b = byte '+' || b = byte 'Z' || b = byte 'z' then
      dateShapeFrom 0 blank { next with zone := true } rest
    else if b = byte ' ' && !blank && rest.head?.any isDigit then
      dateShapeFrom 2 true { next with time := true } rest
    else seen

def date (text : Text) : Value × Text :=
  let shape := dateShapeFrom 0 false ⟨0, false, false, false⟩ text
  let kind : DateKind :=
    match shape.time, shape.date, shape.zone with
    | false, _, _ => .date
    | true, false, _ => .time
    | true, true, false => .dateTime
    | true, true, true => .moment
  (.date kind (text.take shape.length), text.drop shape.length)

def beginsDate (text : Text) : Bool :=
  let digits := Text.runLength isDigit text
  3 ≤ text.length &&
    (digits = 2 && text[2]? = some (byte ':') || digits = 4 && text[4]? = some (byte '-'))

def markedDigits? (mark : UInt8) : Option (UInt8 → Bool) :=
  if mark = byte 'x' then some fun b => Text.isHexDigit b || b = byte '_'
  else if mark = byte 'o' then some fun b => (byte '0' ≤ b && b ≤ byte '7') || b = byte '_'
  else if mark = byte 'b' then some fun b => b = byte '0' || b = byte '1' || b = byte '_'
  else none

/-- The decimal number at the head of a text, of which the given spelling has been read, latest
first; `isFraction` says whether there has been a sign of a fraction. -/
def decimalFrom : (isFraction : Bool) → (read : Text) → Text → Except SyntaxFault (Value × Text)
  | isFraction, read, text =>
    let result : Except SyntaxFault (Value × Text) :=
      if read.isEmpty then .error .missingNumber
      else .ok (if isFraction then .fraction read.reverse else .integer read.reverse, text)
    match text with
    | [] => result
    | b :: rest =>
      if isDigit b || b = byte '+' || b = byte '-' || b = byte '_' then
        decimalFrom isFraction (b :: read) rest
      else if b = byte '.' || b = byte 'e' || b = byte 'E' then decimalFrom true (b :: read) rest
      else if b = byte 'i' || b = byte 'n' then
        let word : Text := if b = byte 'i' then "inf" else "nan"
        if Text.startsWith word text then .ok (.fraction (read.reverse ++ word), text.drop 3)
        else .error (.numberLetter b)
      else result

def number (text : Text) : Except SyntaxFault (Value × Text) :=
  match text with
  | zero :: mark :: third :: rest =>
    if zero = byte '0' && mark != byte '.' && mark != byte 'e' && mark != byte 'E' then
      match markedDigits? mark with
      | some isMarked =>
        let digits := (third :: rest).takeWhile isMarked
        .ok (.integer (zero :: mark :: digits), (third :: rest).dropWhile isMarked)
      | none => .ok (.integer [zero], mark :: third :: rest)
    else decimalFrom false [] text
  | _ => decimalFrom false [] text

def word (wanted : Text) (value : Value) (text : Text) : Except SyntaxFault (Value × Text) :=
  if Text.startsWith wanted text then .ok (value, text.drop wanted.length)
  else .error (.notWord wanted)

def quoted (quote : UInt8) (text : Text) : Except SyntaxFault (Value × Text) := do
  let (t, rest) ←
    if Text.startsWith (List.replicate 3 quote) text then
      (blockText quote (text.drop 3)).mapError .text
    else quotedLine quote text.tail
  return (.text t, rest)

def single (text : Text) : Except SyntaxFault (Value × Text) :=
  match text with
  | [] => .error .missingValue
  | b :: _ =>
    if b = 0x22 || b = 0x27 then quoted b text
    else if b = byte 't' then word "true" (.truth true) text
    else if b = byte 'f' then word "false" (.truth false) text
    else if b = byte 'i' then word "inf" (.fraction "inf") text
    else if b = byte 'n' then word "nan" (.fraction "nan") text
    else if beginsDate text then .ok (date text)
    else number text

/-! ## Values with parts -/

mutual

/-- The value at the head of a text. Each value and each part of one takes at least one byte, so
`fuel` need not exceed the length, here and below. -/
def valueFrom : (fuel : Nat) → Text → Except SyntaxFault (Value × Text)
  | 0, _ => .error .missingValue
  | fuel + 1, text => do
    if text.head? = some (byte '[') then
      let (items, rest) ← itemsFrom fuel true text.tail
      return (.list items, rest)
    else if text.head? = some (byte '\x7b') then
      let (entries, rest) ← entriesFrom fuel true text.tail
      return (.table entries, rest)
    else single text

/-- The items of a list up to its closing bracket; `first` says whether none stands before. -/
def itemsFrom : (fuel : Nat) → (first : Bool) → Text → Except SyntaxFault (List Value × Text)
  | 0, _, _ => .error .cutList
  | fuel + 1, first, text => do
    if text.isEmpty then .error (.endBefore (byte ']'))
    else
      let rest ← behindLines text.length text
      match rest with
      | [] => .error .cutList
      | b :: behind =>
        if b = byte ']' then return ([], behind)
        else if b = byte ',' && first then .error .leadingComma
        else if b != byte ',' && !first then .error .missingComma
        else
          let start ← if b = byte ',' then behindLines behind.length behind else .ok rest
          if start.head? = some (byte ']') then return ([], start.tail)
          else
            let (item, rest) ← valueFrom fuel start
            let (items, rest) ← itemsFrom fuel false (← behindLines rest.length rest)
            return (item :: items, rest)

/-- The entries of a table in braces up to the closing one; `first` says whether none stands
before. -/
def entriesFrom :
    (fuel : Nat) → (first : Bool) → Text → Except SyntaxFault (List (Key × Value) × Text)
  | 0, _, _ => .error .cutTable
  | fuel + 1, first, text => do
    if text.isEmpty then .error (.endBefore (byte '\x7d'))
    else
      let rest := behindBlanks text
      if rest.isEmpty then .error .cutTable
      else if rest.head? = some (byte '\x7d') then return ([], rest.tail)
      else
        let start ← if first then .ok rest else (behindByte (byte ',') rest).map behindBlanks
        let (entry, rest) ← entryFrom fuel start
        let (entries, rest) ← entriesFrom fuel false rest
        return (entry :: entries, rest)

def entryFrom : (fuel : Nat) → Text → Except SyntaxFault ((Key × Value) × Text)
  | 0, _ => .error .missingKey
  | fuel + 1, text => do
    let (key, rest) ← key text
    if rest.isEmpty then .error .bareKey
    else
      let rest ← behindByte (byte '=') rest
      let (value, rest) ← valueFrom fuel (behindBlanks rest)
      return ((key, value), rest)

end

/-! ## Statements -/

def head (text : Text) : Except SyntaxFault (Statement × Text) := do
  if text.head? = some (byte '[') then
    let (key, rest) ← key (behindBlanks text.tail)
    let rest ← behindByte (byte ']') (← behindByte (byte ']') (behindBlanks rest))
    return (.item key, rest)
  else
    let (key, rest) ← key (behindBlanks text)
    return (.table key, ← behindByte (byte ']') (behindBlanks rest))

/-- The statement in the line at the head of a text, if there is one. What follows begins with the
line break. -/
def statement? (text : Text) : Except SyntaxFault (Option Statement × Text) := do
  let start := behindBlanks text
  match start with
  | [] => return (none, [])
  | b :: rest =>
    if b = byte '#' then return (none, ← behindComment 0 rest)
    else if b = 0x0A || b = 0x0D then return (none, start)
    else
      let (statement, rest) ←
        if b = byte '[' then head rest
        else (entryFrom (2 * start.length + 2) start).map fun ((key, value), rest) =>
          (.entry key value, rest)
      return (some statement, ← behindAnyComment (behindBlanks rest))

end SelectionCheck.Toml
