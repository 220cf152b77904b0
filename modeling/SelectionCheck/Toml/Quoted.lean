import SelectionCheck.Text.Quoted

/-!
# Texts in TOML

A text stands between quotes. Between single quotes every character stands for itself; between
double quotes a backslash begins an escape. A text in three quotes may have several lines, and a
line break right behind the opening quotes does not belong to it. Control characters other than
tabulators and line breaks stand nowhere.
-/

namespace SelectionCheck.Toml

open Text (byte)

inductive TextFault
  | literalLineBreak
  | literalCharacter
  | literalOpen
  | basicLineBreak
  | basicOpen
  | blockOpen (quote : UInt8)
  | blockQuotes (quote : UInt8)
  | loneReturn
  | cutEscape
  | encoding
  | escape (b : UInt8)
  | character (b : UInt8)
  | fewDigits (wanted found : Nat)
  | digit
  | codePoint
deriving DecidableEq, Repr

def blockName (quote : UInt8) : Text :=
  if quote = 0x22 then "multiline basic string" else "multiline literal string"

def TextFault.message : TextFault → Text
  | .literalLineBreak => "literal strings cannot have new lines"
  | .literalCharacter => "invalid character"
  | .literalOpen => "unterminated literal string"
  | .basicLineBreak => "basic strings cannot have new lines"
  | .basicOpen => "basic string not terminated by \""
  | .blockOpen quote => blockName quote ++ " not terminated by " ++ List.replicate 3 quote
  | .blockQuotes quote => List.replicate 3 quote ++ " not allowed in " ++ blockName quote
  | .loneReturn => "need a \\n after \\r"
  | .cutEscape => "need a character after \\"
  | .encoding => "invalid UTF-8"
  | .escape b => "invalid escaped character " ++ Text.codePointName b.toNat
  | .character b => "invalid character " ++ Text.codePointName b.toNat
  | .fewDigits wanted found =>
    "unicode point needs " ++ Text.ofNat wanted ++ " character, not " ++ Text.ofNat found
  | .digit => "non-hex character"
  | .codePoint => "escape sequence is invalid Unicode code point"

def isForbidden (b : UInt8) : Bool :=
  (b < 0x20 && b != 0x09 && b != 0x0A && b != 0x0D) || b = 0x7F

/-- The number of bytes of the character that a byte begins, if it may stand in a source. -/
def characterLength? (b : UInt8) (rest : Text) : Option Nat :=
  if isForbidden b then none else (Text.sequence? b rest).map Prod.snd

def isClean (text : Text) : Bool :=
  Text.isValid text && !text.any isForbidden

/-! ## Where texts end -/

/-- The text up to the closing single quote, and what follows it. Of the current character `skip`
more bytes are passed over, and what has been `read` is kept latest first. -/
def literalFrom : (skip : Nat) → (read : Text) → Text → Except TextFault (Text × Text)
  | _, _, [] => .error .literalOpen
  | skip + 1, read, b :: rest => literalFrom skip (b :: read) rest
  | 0, read, b :: rest =>
    if b = 0x27 then .ok (read.reverse, rest)
    else if b = 0x0A || b = 0x0D then .error .literalLineBreak
    else
      match characterLength? b rest with
      | none => .error .literalCharacter
      | some length => literalFrom (length - 1) (b :: read) rest

def basicFrom : (read : Text) → Text → Except TextFault (Text × Text)
  | _, [] => .error .basicOpen
  | read, b :: rest =>
    if b = 0x22 then .ok (read.reverse, rest)
    else if b = 0x0A || b = 0x0D then .error .basicLineBreak
    else if b = byte '\\' then
      match rest with
      | [] => .error .cutEscape
      | c :: rest => basicFrom (c :: b :: read) rest
    else basicFrom (b :: read) rest

/-- The end of a text in three quotes, where a run of `count` quotes follows what has been read: up
to two of them belong to the text. -/
def blockEnd (quote : UInt8) (count : Nat) (read rest : Text) : Except TextFault (Text × Text) :=
  if 6 ≤ count then .error (.blockQuotes quote)
  else .ok (read.reverse ++ List.replicate (count - 3) quote, rest)

/-- The spelling up to three closing quotes, and what follows them. Between single quotes a
backslash has no meaning, and each character is looked at. -/
def blockFrom (quote : UInt8) : (skip : Nat) → (read : Text) → Text → Except TextFault (Text × Text)
  | _, _, [] => .error (.blockOpen quote)
  | skip + 1, read, b :: rest => blockFrom quote skip (b :: read) rest
  | 0, read, b :: rest =>
    let count := Text.runLength (· = quote) (b :: rest)
    if 3 ≤ count then blockEnd quote count read ((b :: rest).drop count)
    else if b = 0x0D then
      if rest.head? = some 0x0A then blockFrom quote 1 (b :: read) rest else .error .loneReturn
    else if quote = 0x22 then
      if b != byte '\\' then blockFrom quote 0 (b :: read) rest
      else if rest.isEmpty then .error .cutEscape
      else blockFrom quote 1 (b :: read) rest
    else
      match characterLength? b rest with
      | none => .error .literalCharacter
      | some length => blockFrom quote (length - 1) (b :: read) rest

def dropLineBreak : Text → Text
  | 0x0A :: rest => rest
  | 0x0D :: 0x0A :: rest => rest
  | text => text

/-! ## Escapes -/

def escapedByte? (letter : UInt8) : Option UInt8 :=
  if letter = 0x22 || letter = byte '\\' then some letter
  else if letter = byte 'b' then some 0x08
  else if letter = byte 'e' then some 0x1B
  else if letter = byte 'f' then some 0x0C
  else if letter = byte 'n' then some 0x0A
  else if letter = byte 'r' then some 0x0D
  else if letter = byte 't' then some 0x09
  else none

def codePoint (count : Nat) (text : Text) : Except TextFault Text :=
  let digits := text.take count
  if digits.length < count then .error (.fewDigits count digits.length)
  else if !digits.all Text.isHexDigit then .error .digit
  else
    let code := digits.foldl (fun n d => n * 16 + (Text.hexValue? d).getD 0) 0
    if 0x10FFFF < code || (0xD800 ≤ code && code < 0xE000) then .error .codePoint
    else .ok (Text.encode code)

/-- The number of bytes that a backslash takes away at the end of a line: blanks, the line break,
and all blanks and line breaks behind it. -/
def joinedLength? (text : Text) : Option Nat :=
  let rest := text.dropWhile fun b => b = 0x20 || b = 0x09
  let isBlank (b : UInt8) : Bool := b = 0x20 || b = 0x09 || b = 0x0A || b = 0x0D
  match rest with
  | 0x0A :: _ | 0x0D :: 0x0A :: _ => some (Text.runLength isBlank text)
  | _ => none

/-- What a backslash with the text behind it means, and how many bytes of that text it takes. Behind
a text in three quotes, a `block`, digits are also looked for in its closing quotes. -/
def escape (block : Bool) (text : Text) : Except TextFault (Text × Nat) :=
  match text, if block then joinedLength? text else none with
  | _, some length => .ok ([], length)
  | [], none => .error .cutEscape
  | b :: rest, none =>
    let behind := if block then rest ++ List.replicate 3 0x22 else rest
    if b = byte 'u' then (codePoint 4 behind).map (·, 5)
    else if b = byte 'U' then (codePoint 8 behind).map (·, 9)
    else
      match escapedByte? b with
      | some meant => .ok ([meant], 1)
      | none => .error (.escape b)

/-- The text of a spelling with escapes, of whose current part `skip` more bytes are passed over.
What has been read is kept `done`, latest first. -/
def unescapeFrom (block : Bool) : (skip : Nat) → (done : Text) → Text → Except TextFault Text
  | _, done, [] => .ok done.reverse
  | skip + 1, done, _ :: rest => unescapeFrom block skip done rest
  | 0, done, b :: rest =>
    if b = byte '\\' then
      match escape block rest with
      | .error fault => .error fault
      | .ok (meant, length) => unescapeFrom block length (meant.reverse ++ done) rest
    else
      match characterLength? b rest with
      | none => .error (.character b)
      | some length =>
        unescapeFrom block (length - 1) ((b :: rest.take (length - 1)).reverse ++ done) rest

def unescape (block : Bool) (spelling : Text) : Except TextFault Text :=
  if spelling.contains (byte '\\') then unescapeFrom block 0 [] spelling
  else if isClean spelling then .ok spelling
  else .error .encoding

/-! ## Texts -/

def lineText (quote : UInt8) (text : Text) : Except TextFault (Text × Text) := do
  if quote = 0x27 then literalFrom 0 [] text
  else
    let (spelling, rest) ← basicFrom [] text
    return (← unescape false spelling, rest)

def blockText (quote : UInt8) (text : Text) : Except TextFault (Text × Text) := do
  let (spelling, rest) ← blockFrom quote 0 [] text
  let spelling := dropLineBreak spelling
  return (← if quote = 0x27 then .ok spelling else unescape true spelling, rest)

end SelectionCheck.Toml
