import SelectionCheck.Text.Basic

/-!
# URL-encoded pairs

The query of an address and the body of a form are lists of pairs `name=value` between ampersands,
in which a plus stands for a space and a percent sign begins the hexadecimal form of a byte. A
piece that holds a semicolon or a broken percent form is dropped, the others are kept in order. Of
several values of a name the first counts.
-/

namespace SelectionCheck

abbrev FormData := List (Text × Text)

namespace FormData

open Text (byte hexValue?)

/-- Replaces the percent forms of a text; `done` holds the bytes before, latest first. -/
def unescapeFrom : Text → (done : Text) → Option Text
  | [], done => some done.reverse
  | b :: rest, done =>
    if b = byte '%' then
      match rest with
      | h :: l :: rest =>
        match hexValue? h, hexValue? l with
        | some high, some low => unescapeFrom rest (UInt8.ofNat (high * 16 + low) :: done)
        | _, _ => none
      | _ => none
    else unescapeFrom rest (b :: done)

def unescape? (text : Text) : Option Text :=
  unescapeFrom text []

def decode? (text : Text) : Option Text :=
  unescape? (text.map fun b => if b = byte '+' then 0x20 else b)

/-- The pair of one piece. The value begins behind the first equals sign; without one it is empty.
-/
def pair? (piece : Text) : Option (Text × Text) :=
  if piece.isEmpty || piece.contains (byte ';') then none
  else
    let name := piece.takeWhile (· != byte '=')
    let value := (piece.dropWhile (· != byte '=')).tail
    match decode? name, decode? value with
    | some name, some value => some (name, value)
    | _, _ => none

def ofText (text : Text) : FormData :=
  (text.splitOn (byte '&')).filterMap pair?

def value (data : FormData) (name : Text) : Text :=
  (data.lookup name).getD []

end FormData

end SelectionCheck
