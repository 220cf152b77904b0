import SelectionCheck.Yaml.Cursor
import SelectionCheck.Yaml.Token

/-!
# Directives, anchors and tags

A directive stands on a line of its own and gives the version of the format or the meaning of a tag
handle. Anchors, references to them and tags stand before nodes.
-/

namespace SelectionCheck.Yaml.Reading

open Character

/-! ## Tags -/

def isUriChar (c : Char) : Bool :=
  isNameChar c || (";/?:@&=+$,.!~*'()[]%".toList).contains c

def uriOctet (start : Mark) : Reading UInt8 := do
  need 3
  match ← next, hexDigit? (← peek 1), hexDigit? (← peek 2) with
  | '%', some high, some low =>
    skip
    skip
    skip
    return (high * 16 + low).toUInt8
  | _, _, _ => fail start .uriOctet

/-- The octets that continue an escaped character, behind those of `read`, which stand in
reverse. -/
def uriTrailing (start : Mark) : (count : Nat) → (read : Text) → Reading Text
  | 0, read => return read.reverse
  | count + 1, read => do
    let octet ← uriOctet start
    if octet &&& 0xC0 = 0x80 then uriTrailing start count (octet :: read)
    else fail start .trailingOctet

def uriEscape (start : Mark) : Reading Text := do
  let lead ← uriOctet start
  let count := Encoding.octetCount lead
  if count = 0 then fail start .leadingOctet else uriTrailing start (count - 1) [lead]

/-- The address of a tag, behind `read` in reverse, which has at most `fuel` characters. -/
def uriFrom (start : Mark) : (fuel : Nat) → (read : Text) → Reading Text
  | 0, read => return read.reverse
  | fuel + 1, read => do
    let c ← next
    if c = '%' then
      let octets ← uriEscape start
      need 1
      uriFrom start fuel (octets.reverse ++ read)
    else if isUriChar c then
      skip
      need 1
      uriFrom start fuel (c.toUInt8 :: read)
    else return read.reverse

/-- The address of a tag behind its beginning, of which the exclamation mark does not count. It must
not be empty if it has no beginning. -/
def uri (start : Mark) (beginning : Text) : Reading Text := do
  need 1
  let c ← next
  if beginning.isEmpty && !isUriChar c then fail start .tagUri
  else uriFrom start (← get).size (beginning.drop 1).reverse

/-- The handle of a tag: a name between exclamation marks, the second of which may be missing
unless a handle has to be given. -/
def tagHandle (start : Mark) (required : Bool) : Reading Text := do
  need 1
  if (← next) ≠ '!' then fail start .tagMark
  else
    skip
    need 1
    let name ← takeWhile isNameChar
    if (← next) = '!' then
      skip
      return spell ('!' :: name ++ ['!'])
    else if required && !name.isEmpty then fail start .tagMark
    else return spell ('!' :: name)

def verbatimTag (start : Mark) : Reading TokenKind := do
  skip
  skip
  let suffix ← uri start []
  if (← next) ≠ '>' then fail start .tagBracket
  else
    skip
    return .tag [] suffix

def shortTag (start : Mark) : Reading TokenKind := do
  let handle ← tagHandle start false
  if 1 < handle.length && handle.getLast? = some (Text.byte '!') then
    return .tag handle (← uri start [])
  else
    let suffix ← uri start handle
    return if suffix.isEmpty then .tag [] "!" else .tag "!" suffix

def tag : Reading Token := do
  let start ← here
  need 2
  let kind ← if (← peek 1) = '<' then verbatimTag start else shortTag start
  need 1
  if isWordEnd (← next) then return ⟨kind, start, ← here⟩ else fail start .tagEnd

/-! ## Anchors -/

def endsAnchor (c : Char) : Bool :=
  isWordEnd c || (['?', ':', ',', ']', '\x7d', '%', '@', Char.ofNat 0x60] : List Char).contains c

def anchor (kind : Text → TokenKind) : Reading Token := do
  let start ← here
  skip
  need 1
  let name ← takeWhile isNameChar
  if name.isEmpty || !endsAnchor (← next) then fail start .anchorName
  else return ⟨kind (spell name), start, ← here⟩

/-! ## Directives -/

def versionDigits (start : Mark) (value count : Nat) : (fuel : Nat) → Reading Nat
  | 0 => return value
  | fuel + 1 => do
    let c ← next
    if !c.isDigit then
      if count = 0 then fail start .versionNumber else return value
    else if count = 2 then fail start .versionLength
    else
      skip
      need 1
      versionDigits start (value * 10 + (c.toNat - 0x30)) (count + 1) fuel

def versionNumber (start : Mark) : Reading Nat := do
  need 1
  versionDigits start 0 0 3

def skipBlanks : Reading Unit := do
  need 1
  skipWhile isBlank

def versionDirective (start : Mark) : Reading TokenKind := do
  skipBlanks
  let major ← versionNumber start
  if (← next) ≠ '.' then fail start .versionPoint
  else
    skip
    return .version major (← versionNumber start)

def tagDirective (start : Mark) : Reading TokenKind := do
  skipBlanks
  let handle ← tagHandle start true
  need 1
  if !isBlank (← next) then fail start .tagBlank
  else
    skipBlanks
    let expansion ← uri start []
    need 1
    if isWordEnd (← next) then return .tagHandle handle expansion else fail start .tagEnd

/-- Moves over the rest of a line, which holds at most a comment, and over the end of the line. -/
def skipRestOfLine (start : Mark) : Reading Unit := do
  skipBlanks
  if (← next) = '#' then skipToLineEnd
  let c ← next
  if !isLineEnd c then fail start .restOfLine
  else if isBreak c then
    need 2
    skipLine

def directive : Reading Token := do
  let start ← here
  skip
  need 1
  let name ← takeWhile isNameChar
  if name.isEmpty then fail start .directiveName
  else if !isWordEnd (← next) then fail start .directiveLetter
  else
    let kind ←
      if name = "YAML".toList then versionDirective start
      else if name = "TAG".toList then tagDirective start
      else fail start .unknownDirective
    let finish ← here
    skipRestOfLine start
    return ⟨kind, start, finish⟩

end SelectionCheck.Yaml.Reading
