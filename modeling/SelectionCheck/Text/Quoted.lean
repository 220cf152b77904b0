import SelectionCheck.Text.Printable
import SelectionCheck.Text.Utf8

/-!
# Quoted texts

Messages show a piece of source between double quotes in printable characters only: a quote or
backslash gets a backslash, the seven usual controls get their letter, any other character that is
not printable is written by its code point, and a byte outside well-formed UTF-8 by its value. A
quoted text therefore has no line break in it, whatever was quoted.
-/

namespace SelectionCheck.Text

def controlLetter? (code : Nat) : Option Char :=
  match code with
  | 0x07 => some 'a'
  | 0x08 => some 'b'
  | 0x09 => some 't'
  | 0x0A => some 'n'
  | 0x0B => some 'v'
  | 0x0C => some 'f'
  | 0x0D => some 'r'
  | _ => none

def quotedChar (code : Nat) : Text :=
  if code = 0x22 || code = 0x5C then byte '\\' :: encode code
  else if isPrintable code then encode code
  else
    match controlLetter? code with
    | some letter => [byte '\\', byte letter]
    | none =>
      if code < 0x20 || code = 0x7F then "\\x" ++ hex 2 code
      else if code < 0x10000 then "\\u" ++ hex 4 code
      else "\\U" ++ hex 8 code

def Rune.quoted : Rune → Text
  | .char code => quotedChar code
  | .stray b => "\\x" ++ hex 2 b.toNat

def quote (text : Text) : Text :=
  "\"" ++ (runes text).flatMap Rune.quoted ++ "\""

/-- A byte between single quotes, as the character of its number. -/
def quoteByte (b : UInt8) : Text :=
  if b = 0x27 then "\x27\\\x27\x27"
  else if b = 0x22 then "\x27\"\x27"
  else "\x27" ++ quotedChar b.toNat ++ "\x27"

/-- The number of a character, with the character itself if it is printable. -/
def codePointName (code : Nat) : Text :=
  let number : Text := "U+" ++ upperHex 4 code
  if isPrintable code then number ++ " \x27" ++ encode code ++ "\x27" else number

end SelectionCheck.Text
