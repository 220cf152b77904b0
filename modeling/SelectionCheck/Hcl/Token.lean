import SelectionCheck.Position
import SelectionCheck.Text.Case
import SelectionCheck.Text.Printable

/-!
# Tokens of HCL

A source is read character by character. A fault in a token does not end the reading; the last one
is kept, with the place of the character read last. Reading on at the end of the source counts as
one more column each time.
-/

namespace SelectionCheck.Hcl

inductive TokenFault
  | encoding
  | nullCharacter
  | reservedCharacter
  | illegalCharacter
  | hexadecimal
  | octal
  | openText
  | escape
  | commentStart
  | openComment
  | heredocStart
  | heredocAnchor
  | emptyAnchor
  | openHeredoc
deriving DecidableEq, Repr

def TokenFault.message : TokenFault → Text
  | .encoding => "illegal UTF-8 encoding"
  | .nullCharacter => "unexpected null character (0x00)"
  | .reservedCharacter => "unicode code point U+E123 used by internal library"
  | .illegalCharacter => "illegal character"
  | .hexadecimal => "illegal hexadecimal number"
  | .octal => "illegal octal number"
  | .openText => "literal not terminated"
  | .escape => "illegal char escape"
  | .commentStart => "expected '/' for comment"
  | .openComment => "comment not terminated"
  | .heredocStart => "heredoc expected second '<', didn't see it"
  | .heredocAnchor => "invalid characters in heredoc anchor"
  | .emptyAnchor => "zero-length heredoc anchor"
  | .openHeredoc => "heredoc not terminated"

inductive TokenKind
  | illegal
  | endOfSource
  | comment
  | identifier
  | number
  | fraction
  | truth
  | text
  | heredoc
  | openBracket
  | closeBracket
  | openBrace
  | closeBrace
  | comma
  | period
  | assign
  | add
  | subtract
deriving DecidableEq, Repr

def TokenKind.name : TokenKind → Text
  | .illegal => "ILLEGAL"
  | .endOfSource => "EOF"
  | .comment => "COMMENT"
  | .identifier => "IDENT"
  | .number => "NUMBER"
  | .fraction => "FLOAT"
  | .truth => "BOOL"
  | .text => "STRING"
  | .heredoc => "HEREDOC"
  | .openBracket => "LBRACK"
  | .closeBracket => "RBRACK"
  | .openBrace => "LBRACE"
  | .closeBrace => "RBRACE"
  | .comma => "COMMA"
  | .period => "PERIOD"
  | .assign => "ASSIGN"
  | .add => "ADD"
  | .subtract => "SUB"

structure Token where
  kind : TokenKind
  position : Position
  spelling : Text
deriving DecidableEq, Repr

/-- What is left of a source, the place of the character read last, and the last fault. In a new
line the column is zero; the length of the line before is kept. -/
structure Source where
  left : List Text.Rune
  line : Nat
  column : Nat
  lastLength : Nat
  fault : Option (Position × TokenFault)
deriving Repr

namespace Source

def ofText (text : Text) : Source :=
  ⟨Text.runes text, 1, 0, 0, none⟩

def position (source : Source) : Position :=
  if 0 < source.column then ⟨source.line, source.column⟩
  else if 0 < source.lastLength then ⟨source.line - 1, source.lastLength⟩
  else ⟨1, 1⟩

def fail (source : Source) (fault : TokenFault) : Source :=
  { source with fault := some (source.position, fault) }

def code : Text.Rune → Nat
  | .char code => code
  | .stray _ => Text.replacement

def next (source : Source) : Option Nat × Source :=
  match source.left with
  | [] => (none, { source with column := source.column + 1 })
  | .stray _ :: left =>
    (some Text.replacement, { source with left, column := source.column + 1 }.fail .encoding)
  | .char code :: left =>
    let behind := { source with left, column := source.column + 1 }
    if code = 0x0A then
      (some code, { behind with line := behind.line + 1, column := 0, lastLength := behind.column })
    else if code = 0 then (none, behind.fail .nullCharacter)
    else if code = 0xE123 then (some Text.replacement, behind.fail .reservedCharacter)
    else (some code, behind)

def peek (source : Source) : Option Nat :=
  source.left.head?.map code

/-- The source at the earlier place, if the last character read was not the end; a fault found on
the way is kept. -/
def back (earlier : Source) (last : Option Nat) (source : Source) : Source :=
  if last.isSome then { earlier with fault := source.fault } else source

/-- Reads on while the last character satisfies `p`: the first character that does not, the source
before it and the source behind it. Each step reads one character, so `fuel` need not exceed the
length by more than one. -/
def readWhile (p : Nat → Bool) :
    (fuel : Nat) → (last : Option Nat) → (before source : Source) → Option Nat × Source × Source
  | 0, last, before, source => (last, before, source)
  | fuel + 1, last, before, source =>
    if last.any p then
      let (c, behind) := source.next
      readWhile p fuel c source behind
    else (last, before, source)

/-- Reads on while the last character satisfies `p`, and goes back before the first that does not.
-/
def skipWhile (p : Nat → Bool) (last : Option Nat) (before source : Source) : Option Nat × Source :=
  let (c, before, behind) := readWhile p (source.left.length + 2) last before source
  (c, before.back c behind)

end Source

/-! ## Characters -/

def isChar (c : Char) (code : Nat) : Bool := code = c.toNat

def isDecimal (code : Nat) : Bool := 0x30 ≤ code && code ≤ 0x39

def isHexadecimal (code : Nat) : Bool :=
  isDecimal code || (0x41 ≤ code && code ≤ 0x46) || (0x61 ≤ code && code ≤ 0x66)

/-- Whether the character may begin a name. Beyond ASCII every printable one may. -/
def isLetter (code : Nat) : Bool :=
  (0x41 ≤ code && code ≤ 0x5A) || (0x61 ≤ code && code ≤ 0x7A) || isChar '_' code ||
    (0x80 ≤ code && code != Text.replacement && Text.isPrintable code)

def isNamePart (code : Nat) : Bool :=
  isLetter code || isDecimal code || isChar '-' code || isChar '.' code

def isSpace (code : Nat) : Bool :=
  code = 0x20 || code = 0x09 || code = 0x0A || code = 0x0D

def isExponentLetter (code : Nat) : Bool := isChar 'e' code || isChar 'E' code

/-! ## Numbers -/

def digits (last : Option Nat) (source : Source) : Option Nat × Source :=
  if last.any isDecimal then Source.skipWhile isDecimal last source source else (last, source)

def exponent (last : Option Nat) (source : Source) : Option Nat × Source :=
  if last.any isExponentLetter then
    let (c, source) := source.next
    let signed := c.any fun c => isChar '-' c || isChar '+' c
    let (c, source) := if signed then source.next else (c, source)
    digits c source
  else (last, source)

/-- Reads what follows the digits of a number, the first character of which has been read: an
exponent, a point with further digits, or nothing, and then goes back before it. -/
def numberEnd (last : Option Nat) (before source : Source) : TokenKind × Source :=
  if last.any isExponentLetter then (.number, (exponent last source).2)
  else if last.any (isChar '.') then
    let (c, source) := digits source.peek source
    if c.any isExponentLetter then
      let (c, source) := source.next
      (.fraction, (exponent c source).2)
    else (.fraction, source)
  else (.number, before.back last source)

def number (first : Nat) (source : Source) : TokenKind × Source :=
  if isChar '0' first then
    let (c, behind) := source.next
    if c.any fun c => isChar 'x' c || isChar 'X' c then
      let (start, source) := behind.next
      let (c, before, source) :=
        Source.readWhile isHexadecimal (source.left.length + 2) start behind source
      let source := if start.any isHexadecimal then source else source.fail .hexadecimal
      (.number, before.back c source)
    else
      let run := behind.left.takeWhile fun rune => isDecimal (Source.code rune)
      let beyondOctal := c.any isDecimal && run.any fun rune =>
        isChar '8' (Source.code rune) || isChar '9' (Source.code rune)
      let (c, before, source) := Source.readWhile isDecimal (behind.left.length + 2) c source behind
      let isOctal := !c.any isExponentLetter && !c.any (isChar '.')
      numberEnd c before (if isOctal && beyondOctal then source.fail .octal else source)
  else
    let (_, source) := digits (some first) source
    let (c, behind) := source.next
    numberEnd c source behind

/-! ## Texts -/

/-- The value of a digit of any base up to sixteen; other characters have a greater one. -/
def digitValue (code : Nat) : Nat :=
  if isDecimal code then code - 0x30
  else if 0x61 ≤ code && code ≤ 0x66 then code - 0x57
  else if 0x41 ≤ code && code ≤ 0x46 then code - 0x37
  else 16

/-- Reads up to `count` digits of an escape from the last character on; `before` is the source
before that character, and `some` says whether a digit has been read. -/
def escapeDigits (base : Nat) :
    (count : Nat) → (read : Bool) → (last : Option Nat) → (before source : Source) → Source
  | 0, read, last, before, source => if read then before.back last source else source
  | count + 1, read, last, before, source =>
    if last.any fun c => digitValue c < base then
      match source.next with
      | (none, behind) => behind.fail .escape
      | (c, behind) => escapeDigits base count true c source behind
    else
      let failed := source.fail .escape
      if read then before.back last failed else failed

def escape (source : Source) : Source :=
  let (c, behind) := source.next
  let digitsFrom (base count : Nat) : Source :=
    let (d, further) := behind.next
    escapeDigits base count false d behind further
  match c with
  | none => behind.fail .escape
  | some code =>
    if "abfnrtv\\\"".toList.any (isChar · code) then behind
    else if 0x30 ≤ code && code ≤ 0x37 then escapeDigits 8 3 false c source behind
    else if isChar 'x' code then digitsFrom 16 2
    else if isChar 'u' code then digitsFrom 16 4
    else if isChar 'U' code then digitsFrom 16 8
    else behind.fail .escape

/-- Reads a text behind its opening quote; `braces` counts the open braces of an expression in it,
in which quotes do not close the text. -/
def text : (fuel : Nat) → (braces : Nat) → Source → Source
  | 0, _, source => source
  | fuel + 1, braces, source =>
    match source.next with
    | (none, source) => source.fail .openText
    | (some code, source) =>
      if code = 0x0A && braces = 0 then source.fail .openText
      else if isChar '"' code && braces = 0 then source
      else if braces = 0 && isChar '$' code && source.peek.any (isChar '\x7b') then
        text fuel 1 source.next.2
      else
        let opened := if 0 < braces && isChar '\x7b' code then braces + 1 else braces
        let left := if 0 < opened && isChar '\x7d' code then opened - 1 else opened
        text fuel left (if isChar '\\' code then escape source else source)

/-- Whether a line, of at least `length` bytes, ends a text with the given anchor. -/
def isAnchorLine (length : Nat) (anchor line : Text) : Bool :=
  let isBlank (b : UInt8) : Bool := b = 0x20 || (0x09 ≤ b && b ≤ 0x0D)
  let trimmed := line.dropWhile isBlank
  length ≤ line.length && Text.startsWith anchor trimmed &&
    (trimmed.drop anchor.length).all (· = 0x0D)

/-- Reads lines until one holds the anchor; `line` is what has been read of the current one, latest
first. -/
def heredocLines (length : Nat) (anchor : Text) :
    (fuel : Nat) → (line : Text) → Source → Source
  | 0, _, source => source
  | fuel + 1, line, source =>
    match source.left.head?, source.next with
    | some rune, (some code, source) =>
      if code = 0x0A then
        if isAnchorLine length anchor line.reverse then source
        else heredocLines length anchor fuel [] source
      else heredocLines length anchor fuel (rune.bytes.reverse ++ line) source
    | _, (_, source) => source.fail .openHeredoc

def heredoc (source : Source) : Source :=
  let (c, source) := source.next
  if !c.any (isChar '<') then source.fail .heredocStart
  else
    let (c, behind) := source.next
    let (c, before, behind) :=
      if c.any (isChar '-') then
        let (c, further) := behind.next
        (c, behind, further)
      else (c, source, behind)
    let (c, _, behind) := Source.readWhile (fun code => isLetter code || isDecimal code)
      (behind.left.length + 2) c before behind
    let (c, behind) :=
      if c.any (· = 0x0D) && behind.peek.any (· = 0x0A) then behind.next else (c, behind)
    if c.isNone then behind.fail .openHeredoc
    else if !c.any (· = 0x0A) then behind.fail .heredocAnchor
    else
      let spelled := (source.left.take (source.left.length - behind.left.length - 1)).flatMap
        Text.Rune.bytes
      let anchor := if spelled.head? = some (Text.byte '-') then spelled.tail else spelled
      if anchor.isEmpty then behind.fail .emptyAnchor
      else heredocLines spelled.length anchor (behind.left.length + 1) [] behind

/-! ## Comments and tokens -/

def blockComment : (fuel : Nat) → (last : Option Nat) → Source → Source
  | 0, _, source => source
  | fuel + 1, last, source =>
    match last with
    | none => source.fail .openComment
    | some code =>
      let (c, source) := source.next
      if isChar '*' code && c.any (isChar '/') then source else blockComment fuel c source

def comment (first : Nat) (source : Source) : Source :=
  if isChar '/' first && source.peek.any (isChar '*') then
    let (c, source) := source.next.2.next
    blockComment (source.left.length + 2) c source
  else if isChar '/' first && !source.peek.any (isChar '/') then source.fail .commentStart
  else
    let (c, behind) := source.next
    (Source.skipWhile (· != 0x0A) c source behind).2

def mark? (code : Nat) : Option TokenKind :=
  if isChar '[' code then some .openBracket
  else if isChar ']' code then some .closeBracket
  else if isChar '\x7b' code then some .openBrace
  else if isChar '\x7d' code then some .closeBrace
  else if isChar ',' code then some .comma
  else if isChar '=' code then some .assign
  else if isChar '+' code then some .add
  else none

def rest (first : Nat) (source : Source) : TokenKind × Source :=
  if isLetter first then
    let (c, behind) := source.next
    (.identifier, (Source.skipWhile isNamePart c source behind).2)
  else if isDecimal first then number first source
  else if isChar '"' first then (.text, text (source.left.length + 1) 0 source)
  else if isChar '#' first || isChar '/' first then (.comment, comment first source)
  else if isChar '.' first then
    if source.peek.any isDecimal then
      let (c, source) := digits source.peek source
      (.fraction, (exponent c source).2)
    else (.period, source)
  else if isChar '<' first then (.heredoc, heredoc source)
  else if isChar '-' first then
    match source.peek with
    | some code => if isDecimal code then number code source.next.2 else (.subtract, source)
    | none => (.subtract, source)
  else
    match mark? first with
    | some kind => (kind, source)
    | none => (.illegal, source.fail .illegalCharacter)

def behindSpace : (fuel : Nat) → Source → Source
  | 0, source => source
  | fuel + 1, source =>
    if source.peek.any isSpace then behindSpace fuel source.next.2 else source

def Token.next (source : Source) : Token × Source :=
  let start := behindSpace source.left.length source
  let (c, behind) := start.next
  let (kind, source) : TokenKind × Source :=
    match c with
    | none => (.endOfSource, behind)
    | some code => rest code behind
  let spelling := (start.left.take (start.left.length - source.left.length)).flatMap
    Text.Rune.bytes
  let isTruth := spelling = "true" || spelling = "false"
  (⟨if kind = .identifier && isTruth then .truth else kind, behind.position, spelling⟩, source)

end SelectionCheck.Hcl
