import SelectionCheck.Text.Utf8
import SelectionCheck.Token.Lexer

/-!
# Faults inside string tokens

A string token is what the splitting of a document took for a string. It can be wrong in three
ways: it is not closed, it has a backslash before a character that forms no escape, or a Unicode
escape lacks its four hexadecimal digits. Each fault has an offset relative to the token: that of
the backslash for escapes, zero for a string that is not closed. The content of block strings is
not inspected.
-/

namespace SelectionCheck

namespace Token

open Text (byte)

inductive StringFault
  | unterminatedBlock
  | unterminated
  | unicodeEscape
  | escape (b : UInt8)
deriving DecidableEq, Repr

/-- The wording of a fault. The byte after the backslash is shown as the character with that code
point. -/
def StringFault.message : StringFault → Text
  | .unterminatedBlock => "unterminated block string"
  | .unterminated => "unterminated string"
  | .unicodeEscape => "invalid unicode escape"
  | .escape b => "invalid escape sequence \\" ++ Text.encode b.toNat

def isSimpleEscape (b : UInt8) : Bool :=
  b = 0x22 || b = byte '\\' || b = byte '/' || b = byte 'b' || b = byte 'f' || b = byte 'n' ||
    b = byte 'r' || b = byte 't'

def beginsWithFourHex (text : Text) : Bool :=
  (text.take 4).length = 4 && (text.take 4).all Text.isHexDigit

/-- The fault of the escape with this byte after the backslash, where `rest` follows. -/
def escapeFault? (b : UInt8) (rest : Text) : Option StringFault :=
  if isSimpleEscape b then none
  else if b = byte 'u' then if beginsWithFourHex rest then none else some .unicodeEscape
  else some (.escape b)

/-- The faults of the part of a quoted string that begins `offset` bytes after its opening quote's
offset, given whether a closing quote has been met. -/
def quotedFaults : (closed : Bool) → (offset : Nat) → Text → List (Nat × StringFault)
  | closed, _, [] => if closed then [] else [(0, .unterminated)]
  | closed, offset, b :: rest =>
    if b = 0x22 then quotedFaults true (offset + 1) rest
    else if b = byte '\\' then
      match rest with
      | [] => if closed then [] else [(0, .unterminated)]
      | e :: rest =>
        match escapeFault? e rest with
        | none => quotedFaults closed (offset + 2) rest
        | some fault => (offset, fault) :: quotedFaults closed (offset + 2) rest
    else quotedFaults closed (offset + 1) rest

def blockIsClosed (text : Text) : Bool :=
  6 ≤ text.length && blockQuotes.isSuffixOf text

def stringFaults (text : Text) : List (Nat × StringFault) :=
  if Text.startsWith blockQuotes text then
    if blockIsClosed text then [] else [(0, .unterminatedBlock)]
  else quotedFaults false 1 (text.drop 1)

end Token

end SelectionCheck
