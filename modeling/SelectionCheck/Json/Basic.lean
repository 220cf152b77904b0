import SelectionCheck.Text.Utf8

/-!
# JSON values and their text

Reports are written as JSON in its shortest layout: no blanks, members in the order given. Inside
strings the characters that could end a script element or a line of one are written by code point,
so that a report may stand in a page as it is, and a byte outside well-formed UTF-8 is written as
U+FFFD.
-/

namespace SelectionCheck

/-- A JSON value with integers for numbers; the members of an object keep their order. -/
inductive Json
  | null
  | bool (value : Bool)
  | integer (value : Int)
  | string (value : Text)
  | array (items : List Json)
  | object (members : List (Text × Json))
deriving Repr

namespace Json

open Text (Rune byte)

def controlLetter? (code : Nat) : Option Char :=
  match code with
  | 0x08 => some 'b'
  | 0x09 => some 't'
  | 0x0A => some 'n'
  | 0x0C => some 'f'
  | 0x0D => some 'r'
  | _ => none

/-- Whether the character is written by its code point although JSON would allow it as it is. -/
def isGuarded (code : Nat) : Bool :=
  code = 0x3C || code = 0x3E || code = 0x26 || code = 0x2028 || code = 0x2029

def escaped (code : Nat) : Text :=
  if code = 0x22 || code = 0x5C then byte '\\' :: Text.encode code
  else
    match controlLetter? code with
    | some letter => [byte '\\', byte letter]
    | none => if code < 0x20 || isGuarded code then "\\u" ++ Text.hex 4 code else Text.encode code

def quote (text : Text) : Text :=
  "\"" ++ (Text.runes text).flatMap (fun
    | .char code => escaped code
    | .stray _ => Text.encode Text.replacement) ++ "\""

mutual

def render : Json → Text
  | .null => "null"
  | .bool true => "true"
  | .bool false => "false"
  | .integer n => Text.ofInt n
  | .string text => quote text
  | .array items => "[" ++ Text.join "," (renderItems items) ++ "]"
  | .object members => "\x7b" ++ Text.join "," (renderMembers members) ++ "\x7d"

def renderItems : List Json → List Text
  | [] => []
  | item :: items => render item :: renderItems items

def renderMembers : List (Text × Json) → List Text
  | [] => []
  | (name, value) :: members => (quote name ++ ":" ++ render value) :: renderMembers members

end

end Json

end SelectionCheck
