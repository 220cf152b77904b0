import SelectionCheck.Token.Basic

/-!
# Splitting a document into tokens

The text ahead begins either with something ignored (blanks, commas, byte order marks, comments)
or with a token; `Lexeme.ofHead` decides which, and how many bytes it takes. `lex` walks the text
once: after each decision it passes over the remaining bytes of the lexeme, so the recursion is on
the text and needs no measure. Every lexeme takes at least its first byte.

Numbers take the longest prefix of the form *integer, fraction, exponent*, where the fraction and
the exponent are optional; a minus sign without digits is an unknown token. A string in single
quotes ends at its closing quote or, unfinished, before a line feed; a block string ends at the
next three quotes that no backslash precedes. Unfinished strings are still tokens, and
`Token.stringFaults` tells them apart.
-/

namespace SelectionCheck

namespace Token

open Text (byte isDigit runLength)

def isNameStart (b : UInt8) : Bool :=
  Text.isLower b || Text.isUpper b || b = byte '_'

def isNameByte (b : UInt8) : Bool :=
  isNameStart b || isDigit b

/-- Whether the byte separates tokens without being one: a blank, a line end or a comma. -/
def isBlank (b : UInt8) : Bool :=
  b = 0x20 || b = 0x09 || b = 0x0D || b = 0x0A || b = byte ','

def isLineEnd (b : UInt8) : Bool :=
  b = 0x0A || b = 0x0D

/-- The length of a comment of which `length` bytes are behind: it runs to the end of the line,
which belongs to it, or to the end of the text. -/
def commentLength : (length : Nat) → Text → Nat
  | length, [] => length
  | length, b :: rest => if isLineEnd b then length + 1 else commentLength (length + 1) rest

/-! ## Numbers -/

/-- The length of an unsigned whole number: a zero stands alone, other numbers run on. -/
def wholeLength : Text → Nat
  | [] => 0
  | b :: rest => if b = byte '0' then 1 else if isDigit b then 1 + runLength isDigit rest else 0

/-- The length of a whole number with an optional minus sign; zero if there are no digits. -/
def integerLength : Text → Nat
  | [] => 0
  | b :: rest =>
    if b = byte '-' then
      match wholeLength rest with
      | 0 => 0
      | n + 1 => n + 2
    else wholeLength (b :: rest)

def fractionLength : Text → Nat
  | [] => 0
  | b :: rest =>
    if b = byte '.' then
      match runLength isDigit rest with
      | 0 => 0
      | n + 1 => n + 2
    else 0

/-- The length of an exponent mark, an optional sign and at least one digit. -/
def exponentLength : Text → Nat
  | [] => 0
  | b :: rest =>
    if b = byte 'e' || b = byte 'E' then
      let sign := if rest.head? = some (byte '+') || rest.head? = some (byte '-') then 1 else 0
      match runLength isDigit (rest.drop sign) with
      | 0 => 0
      | n + 1 => 1 + sign + (n + 1)
    else 0

def numberLexeme (text : Text) : Kind × Nat :=
  let whole := integerLength text
  let fraction := fractionLength (text.drop whole)
  let exponent := exponentLength (text.drop (whole + fraction))
  if whole = 0 then (.unknown, 1)
  else if fraction + exponent = 0 then (.int, whole)
  else (.float, whole + fraction + exponent)

/-! ## Strings -/

/-- The length of a quoted string of which `length` bytes are behind. A backslash takes the next
byte with it; a line feed ends the string without belonging to it. -/
def quotedLength : (length : Nat) → Text → Nat
  | length, [] => length
  | length, b :: rest =>
    if b = byte '\\' then
      match rest with
      | [] => length + 1
      | _ :: rest => quotedLength (length + 2) rest
    else if b = 0x0A then length
    else if b = 0x22 then length + 1
    else quotedLength (length + 1) rest

def blockQuotes : Text := [0x22, 0x22, 0x22]

/-- The length of a block string of which `length` bytes are behind, the last of them `previous`.
Of three quotes found after a backslash the search goes on behind the third, which is what `skip`
counts. -/
def blockLength : (skip : Nat) → (length : Nat) → (previous : UInt8) → Text → Nat
  | _, length, _, [] => length
  | skip + 1, length, _, b :: rest => blockLength skip (length + 1) b rest
  | 0, length, previous, b :: rest =>
    if Text.startsWith blockQuotes (b :: rest) then
      if previous = byte '\\' then blockLength 2 (length + 1) b rest else length + 3
    else blockLength 0 (length + 1) b rest

def stringLength (text : Text) : Nat :=
  if Text.startsWith blockQuotes text then blockLength 0 3 0x22 (text.drop 3)
  else quotedLength 1 (text.drop 1)

/-! ## Lexemes -/

inductive Lexeme
  | ignored (length : Nat)
  | token (kind : Kind) (length : Nat)
deriving DecidableEq, Repr

/-- The token that begins with `b`, when nothing ignored does. -/
def tokenOfHead (b : UInt8) (rest : Text) : Kind × Nat :=
  match Kind.ofByte? b with
  | some kind => (kind, 1)
  | none =>
    if Text.startsWith "..." (b :: rest) then (.ellipsis, 3)
    else if isNameStart b then (.name, 1 + runLength isNameByte rest)
    else if b = 0x22 then (.string, stringLength (b :: rest))
    else if b = byte '-' || isDigit b then numberLexeme (b :: rest)
    else (.unknown, 1)

def Lexeme.ofHead (b : UInt8) (rest : Text) : Lexeme :=
  if isBlank b then .ignored 1
  else if b = byte '#' then .ignored (commentLength 1 rest)
  else if Text.startsWith Text.byteOrderMark (b :: rest) then .ignored 3
  else .token (tokenOfHead b rest).1 (tokenOfHead b rest).2

/-- The tokens of the text ahead, which begins at `offset`; its first `skip` bytes belong to a
lexeme already met, and `found` holds the tokens before, latest first. -/
def lexFrom : (skip offset : Nat) → Text → (found : List Token) → List Token
  | _, _, [], found => found.reverse
  | skip + 1, offset, _ :: rest, found => lexFrom skip (offset + 1) rest found
  | 0, offset, b :: rest, found =>
    match Lexeme.ofHead b rest with
    | .ignored length => lexFrom (length - 1) (offset + 1) rest found
    | .token kind length =>
      lexFrom (length - 1) (offset + 1) rest (⟨kind, (b :: rest).take length, offset⟩ :: found)

end Token

def lex (text : Text) : List Token :=
  Token.lexFrom 0 0 text []

end SelectionCheck
