import SelectionCheck.Text.Basic

/-!
# UTF-8 read byte by byte

A text is read as a sequence of runes: a rune is either a character that some well-formed UTF-8
sequence encodes, or a single byte that begins no such sequence. Reading never fails, and the
spellings of the runes concatenate to the text, so a printer that treats the two kinds apart loses
nothing.
-/

namespace SelectionCheck.Text

/-- One step of reading UTF-8: the code point of a well-formed sequence, or a byte that begins
none. -/
inductive Rune
  | char (code : Nat)
  | stray (b : UInt8)
deriving DecidableEq, Repr

def isContinuation (b : UInt8) : Bool :=
  0x80 ≤ b && b ≤ 0xBF

def payload (b : UInt8) : Nat :=
  b.toNat % 64

/-- The range of the second byte after the given lead byte. The narrower ranges exclude overlong
forms, surrogates and code points above U+10FFFF. -/
def secondRange (lead : UInt8) : UInt8 × UInt8 :=
  if lead = 0xE0 then (0xA0, 0xBF)
  else if lead = 0xED then (0x80, 0x9F)
  else if lead = 0xF0 then (0x90, 0xBF)
  else if lead = 0xF4 then (0x80, 0x8F)
  else (0x80, 0xBF)

def isSecond (lead b : UInt8) : Bool :=
  (secondRange lead).1 ≤ b && b ≤ (secondRange lead).2

/-- The code point and the length of the sequence that `lead` begins, if it begins one. -/
def sequence? (lead : UInt8) (rest : Text) : Option (Nat × Nat) :=
  if lead < 0x80 then some (lead.toNat, 1)
  else if 0xC2 ≤ lead && lead ≤ 0xDF then
    match rest with
    | b :: _ => if isSecond lead b then some (lead.toNat % 32 * 64 + payload b, 2) else none
    | [] => none
  else if 0xE0 ≤ lead && lead ≤ 0xEF then
    match rest with
    | b :: c :: _ =>
      if isSecond lead b && isContinuation c then
        some (lead.toNat % 16 * 4096 + payload b * 64 + payload c, 3)
      else none
    | _ => none
  else if 0xF0 ≤ lead && lead ≤ 0xF4 then
    match rest with
    | b :: c :: d :: _ =>
      if isSecond lead b && isContinuation c && isContinuation d then
        some (lead.toNat % 8 * 262144 + payload b * 4096 + payload c * 64 + payload d, 4)
      else none
    | _ => none
  else none

/-- The runes of a text, after `skip` bytes that belong to a rune already read; `read` holds the
runes before, latest first. -/
def runesFrom : (skip : Nat) → Text → (read : List Rune) → List Rune
  | _, [], read => read.reverse
  | skip + 1, _ :: rest, read => runesFrom skip rest read
  | 0, lead :: rest, read =>
    match sequence? lead rest with
    | some (code, length) => runesFrom (length - 1) rest (.char code :: read)
    | none => runesFrom 0 rest (.stray lead :: read)

def runes (text : Text) : List Rune :=
  runesFrom 0 text []

def encode (code : Nat) : Text :=
  String.utf8EncodeChar (Char.ofNat code)

/-- The code point that stands for a byte which begins no well-formed sequence. -/
def replacement : Nat := 0xFFFD

def isValid (text : Text) : Bool :=
  (runes text).all fun
    | .char _ => true
    | .stray _ => false

def toValid (text : Text) : Text :=
  (runes text).flatMap fun
    | .char code => encode code
    | .stray _ => encode replacement

end SelectionCheck.Text
