/-!
# Texts

A text is a list of bytes. Source documents, request bodies and file contents arrive as bytes that
need not be valid UTF-8, and every position in the library is a byte offset, so bytes are the one
representation shared by reading, reporting and writing. A string literal stands for its UTF-8
encoding through a coercion, which keeps message templates readable: `"expected " ++ name ++ ",
got EOF"` is a text whenever `name` is one.
-/

namespace SelectionCheck

abbrev Text := List UInt8

namespace Text

def ofString (s : String) : Text :=
  s.toList.flatMap String.utf8EncodeChar

instance : Coe String Text := ⟨ofString⟩

/-- A literal is evaluated from its characters much faster than through the string. -/
theorem ofString_ofList (characters : List Char) :
    ofString (String.ofList characters) = characters.flatMap String.utf8EncodeChar := by
  rw [ofString, String.toList_ofList]

def byte (c : Char) : UInt8 := c.toUInt8

def ofNat (n : Nat) : Text :=
  ofString (Nat.repr n)

def ofInt : Int → Text
  | .ofNat n => ofNat n
  | .negSucc n => byte '-' :: ofNat (n + 1)

def join (separator : Text) (parts : List Text) : Text :=
  (parts.intersperse separator).flatten

@[simp]
theorem join_singleton (separator part : Text) : join separator [part] = part := by
  simp [join]

theorem join_cons_cons (separator part next : Text) (parts : List Text) :
    join separator (part :: next :: parts) =
      part ++ (separator ++ join separator (next :: parts)) := by
  simp [join, List.intersperse]

def isDigit (b : UInt8) : Bool :=
  byte '0' ≤ b && b ≤ byte '9'

def isLower (b : UInt8) : Bool :=
  byte 'a' ≤ b && b ≤ byte 'z'

def isUpper (b : UInt8) : Bool :=
  byte 'A' ≤ b && b ≤ byte 'Z'

def hexValue? (b : UInt8) : Option Nat :=
  if isDigit b then some (b.toNat - 0x30)
  else if byte 'a' ≤ b && b ≤ byte 'f' then some (b.toNat - 0x57)
  else if byte 'A' ≤ b && b ≤ byte 'F' then some (b.toNat - 0x37)
  else none

def isHexDigit (b : UInt8) : Bool :=
  (hexValue? b).isSome

/-- The ASCII letter in lower case; every other byte as it is. -/
def toLower (b : UInt8) : UInt8 :=
  if isUpper b then b + 0x20 else b

def hexDigit (n : Nat) : UInt8 :=
  byte (Nat.digitChar n)

/-- A number in lower-case hexadecimal with exactly `width` digits; higher digits are dropped. -/
def hex : (width : Nat) → Nat → Text
  | 0, _ => []
  | width + 1, n => hex width (n / 16) ++ [hexDigit (n % 16)]

def upperHex (width n : Nat) : Text :=
  (hex width n).map fun b => if isLower b then b - 0x20 else b

def runLength (p : UInt8 → Bool) (text : Text) : Nat :=
  (text.takeWhile p).length

theorem runLength_le (p : UInt8 → Bool) (text : Text) : runLength p text ≤ text.length := by
  simpa [runLength] using List.IsPrefix.length_le (List.takeWhile_prefix p)

def byteOrderMark : Text := [0xEF, 0xBB, 0xBF]

def startsWith (start text : Text) : Bool :=
  start.isPrefixOf text

end Text

end SelectionCheck
