import SelectionCheck.Text.LowerCase
import SelectionCheck.Text.Utf8

/-!
# Letter case and white space

Names of media types, log levels, settings and commands are compared without regard to case. A
byte outside well-formed UTF-8 has no case and becomes U+FFFD on the way.

White space around a header value is that of Unicode.
-/

namespace SelectionCheck.Text

def lower (text : Text) : Text :=
  (runes text).flatMap fun
    | .char code => encode (lowerCode code)
    | .stray _ => encode replacement

def isSpaceCode (code : Nat) : Bool :=
  (0x09 ≤ code && code ≤ 0x0D) || code = 0x20 || code = 0x85 || code = 0xA0 || code = 0x1680 ||
    (0x2000 ≤ code && code ≤ 0x200A) || code = 0x2028 || code = 0x2029 || code = 0x202F ||
    code = 0x205F || code = 0x3000

def Rune.isSpace : Rune → Bool
  | .char code => isSpaceCode code
  | .stray _ => false

def Rune.bytes : Rune → Text
  | .char code => encode code
  | .stray b => [b]

def trimLeft (text : Text) : Text :=
  ((runes text).dropWhile Rune.isSpace).flatMap Rune.bytes

def trim (text : Text) : Text :=
  let behind := ((runes text).dropWhile Rune.isSpace).reverse
  (behind.dropWhile Rune.isSpace).reverse.flatMap Rune.bytes

end SelectionCheck.Text
