import SelectionCheck.Text.Basic

/-!
# Sources of YAML

A source is a sequence of characters in UTF-8, or in UTF-16 if a byte order mark says so. Bytes are
decoded in blocks of 512; a character that does not fit into its block belongs to the next one. A
block with a fault has no characters at all: whoever asks for one of them learns of the fault
first, even if it stands behind the character asked for. Only a sequence that the end of the source
cuts off keeps the characters before it.
-/

namespace SelectionCheck.Yaml

inductive SourceFault
  | controlCharacter
  | leadingOctet
  | incompleteOctets
  | trailingOctet
  | sequenceLength
  | invalidCharacter
  | incompleteUnit
  | lowSurrogate
  | incompletePair
  | missingLowSurrogate
deriving DecidableEq, Repr

def SourceFault.message : SourceFault → Text
  | .controlCharacter => "control characters are not allowed"
  | .leadingOctet => "invalid leading UTF-8 octet"
  | .incompleteOctets => "incomplete UTF-8 octet sequence"
  | .trailingOctet => "invalid trailing UTF-8 octet"
  | .sequenceLength => "invalid length of a UTF-8 sequence"
  | .invalidCharacter => "invalid Unicode character"
  | .incompleteUnit => "incomplete UTF-16 character"
  | .lowSurrogate => "unexpected low surrogate area"
  | .incompletePair => "incomplete UTF-16 surrogate pair"
  | .missingLowSurrogate => "expected low surrogate area"

inductive Encoding
  | utf8
  | utf16 (littleEndian : Bool)
deriving DecidableEq, Repr

namespace Encoding

/-- The encoding that a byte order mark at the head of a text announces, and how many bytes the
mark has. -/
def detect : Text → Encoding × Nat
  | 0xFF :: 0xFE :: _ => (.utf16 true, 2)
  | 0xFE :: 0xFF :: _ => (.utf16 false, 2)
  | 0xEF :: 0xBB :: 0xBF :: _ => (.utf8, 3)
  | _ => (.utf8, 0)

/-- The length of the sequence that a byte leads, which is zero if it leads none. -/
def octetCount (lead : UInt8) : Nat :=
  if lead < 0x80 then 1
  else if lead &&& 0xE0 = 0xC0 then 2
  else if lead &&& 0xF0 = 0xE0 then 3
  else if lead &&& 0xF8 = 0xF0 then 4
  else 0

def unit (littleEndian : Bool) (a b : UInt8) : Nat :=
  if littleEndian then a.toNat + 256 * b.toNat else 256 * a.toNat + b.toNat

def isHighSurrogate (unit : Nat) : Bool := unit / 1024 = 0x36

def isLowSurrogate (unit : Nat) : Bool := unit / 1024 = 0x37

/-- The number of bytes of the character at the head of a text, as far as its beginning tells. -/
def width : Encoding → Text → Nat
  | .utf8, lead :: _ => max 1 (octetCount lead)
  | .utf16 little, a :: b :: _ => if isHighSurrogate (unit little a b) then 4 else 2
  | .utf16 _, _ => 2
  | .utf8, [] => 1

def cutOff : Encoding → Text → SourceFault
  | .utf8, _ => .incompleteOctets
  | .utf16 _, _ :: _ :: _ => .incompletePair
  | .utf16 _, _ => .incompleteUnit

def octetsValue (lead : UInt8) (trailing : Text) : Except SourceFault Nat :=
  let count := trailing.length + 1
  let first := if count = 1 then lead.toNat else lead.toNat % Nat.pow 2 (7 - count)
  let value := trailing.foldl (fun n b => n * 64 + b.toNat % 64) first
  if trailing.any fun b => b &&& 0xC0 != 0x80 then .error .trailingOctet
  else if count = 2 && value < 0x80 || count = 3 && value < 0x800 ||
      count = 4 && value < 0x10000 then
    .error .sequenceLength
  else if 0xD800 ≤ value && value ≤ 0xDFFF || 0x10FFFF < value then .error .invalidCharacter
  else .ok value

def codePoint : Encoding → Text → Except SourceFault Nat
  | .utf8, lead :: rest =>
    if octetCount lead = 0 then .error .leadingOctet
    else octetsValue lead (rest.take (octetCount lead - 1))
  | .utf16 little, a :: b :: rest =>
    let high := unit little a b
    if isLowSurrogate high then .error .lowSurrogate
    else if isHighSurrogate high then
      match rest with
      | c :: d :: _ =>
        let low := unit little c d
        if isLowSurrogate low then .ok (0x10000 + high % 1024 * 1024 + low % 1024)
        else .error .missingLowSurrogate
      | _ => .error .incompletePair
    else .ok high
  | _, _ => .error .incompleteUnit

end Encoding

def isAllowed (code : Nat) : Bool :=
  code = 0x09 || code = 0x0A || code = 0x0D || (0x20 ≤ code && code ≤ 0x7E) || code = 0x85 ||
    (0xA0 ≤ code && code ≤ 0xD7FF) || (0xE000 ≤ code && code ≤ 0xFFFD) || 0x10000 ≤ code

/-- The characters of one block, or its fault. -/
abbrev Block := Except SourceFault (List Char)

def blockSize : Nat := 512

/-- The blocks of a text, after `skip` bytes of a character already read. The current block has
`left` more bytes, `read` are its characters so far, and `done` the blocks before it, both latest
first. -/
def blocksFrom (encoding : Encoding) :
    (skip left : Nat) → (read : List Char) → (done : List Block) → Text → List Block
  | _, _, read, done, [] => (.ok read.reverse :: done).reverse
  | skip + 1, left, read, done, _ :: rest => blocksFrom encoding skip left read done rest
  | 0, left, read, done, b :: rest =>
    let window := (b :: rest).take 4
    let full := left < encoding.width (window.take left)
    let width := encoding.width window
    let left := if full then blockSize else left
    let done := if full then .ok read.reverse :: done else done
    let read := if full then [] else read
    if window.length < width then
      (.error (encoding.cutOff window) :: .ok read.reverse :: done).reverse
    else
      match encoding.codePoint window with
      | .error fault => (.error fault :: done).reverse
      | .ok code =>
        if isAllowed code then
          blocksFrom encoding (width - 1) (left - width) (Char.ofNat code :: read) done rest
        else (.error .controlCharacter :: done).reverse

def blocks (source : Text) : List Block :=
  let (encoding, mark) := Encoding.detect source
  if source.isEmpty then [.ok ['\n']]
  else blocksFrom encoding 0 (blockSize - mark) [] [] (source.drop mark)

end SelectionCheck.Yaml
