import SelectionCheck.Request.FormData
import SelectionCheck.Text.Case

/-!
# Media types

The type of a body is announced as `type/subtype` or a single word, followed by parameters `;
name=value` whose values are words or quoted. Names are read without regard to case. The
announcement is refused if any part of it is malformed or two parameters of one name differ; a
lone semicolon at the end is allowed.
-/

namespace SelectionCheck

namespace MediaType

open Text (byte)

def separators : Text := "()<>@,;:\\\"/[]?="

def isWordByte (b : UInt8) : Bool :=
  0x20 < b && b < 0x7F && !separators.contains b

def isWellFormed (name : Text) : Bool :=
  !(name.takeWhile isWordByte).isEmpty &&
    match name.dropWhile isWordByte with
    | [] => true
    | b :: subtype => b = byte '/' && !subtype.isEmpty && subtype.all isWordByte

/-- The rest of a quoted value, of which `done` is behind, latest first, and what follows it. A
backslash is taken away only before a mark that needs it. -/
def quotedFrom : Text → (done : Text) → Option (Text × Text)
  | [], _ => none
  | b :: rest, done =>
    if b = 0x22 then some (done.reverse, rest)
    else if b = 0x0A || b = 0x0D then none
    else if b = byte '\\' then
      match rest with
      | c :: rest =>
        if separators.contains c then quotedFrom rest (c :: done)
        else quotedFrom (c :: rest) (b :: done)
      | [] => none
    else quotedFrom rest (b :: done)

def value? (text : Text) : Option (Text × Text) :=
  if text.head? = some 0x22 then quotedFrom text.tail []
  else
    match text.takeWhile isWordByte with
    | [] => none
    | word => some (word, text.dropWhile isWordByte)

def behind? (b : UInt8) (text : Text) : Option Text :=
  match Text.trimLeft text with
  | c :: rest => if c = b then some (Text.trimLeft rest) else none
  | [] => none

def parameter? (text : Text) : Option ((Text × Text) × Text) := do
  let rest ← behind? (byte ';') text
  let name := rest.takeWhile isWordByte
  if name.isEmpty then none
  let rest ← behind? (byte '=') (rest.dropWhile isWordByte)
  let (value, rest) ← value? rest
  return ((Text.lower name, value), rest)

/-- The parameters of a text behind those `seen` before, latest first. Each parameter takes at least
one byte, so `fuel` need not exceed the length. -/
def parametersFrom :
    (fuel : Nat) → (seen : List (Text × Text)) → Text → Option (List (Text × Text))
  | 0, seen, text => if (Text.trim text).isEmpty then some seen else none
  | fuel + 1, seen, text =>
    if (Text.trim text).isEmpty then some seen
    else
      match parameter? text with
      | none => if Text.trim text = [byte ';'] then some seen else none
      | some ((name, value), rest) =>
        match seen.lookup name with
        | some earlier => if earlier = value then parametersFrom fuel seen rest else none
        | none => parametersFrom fuel ((name, value) :: seen) rest

end MediaType

/-- What a text announces: a media type in lower case, and parameters with distinct names. -/
structure Announcement where
  type : Text
  parameters : List (Text × Text)

namespace Announcement

open Text (byte)

def ofText? (text : Text) : Option Announcement :=
  let name := Text.trim (Text.lower (text.takeWhile (· != byte ';')))
  let parameters := text.dropWhile (· != byte ';')
  if MediaType.isWellFormed name then
    (MediaType.parametersFrom parameters.length [] parameters).map (⟨name, ·⟩)
  else none

/-- The text of a value that names its character set and its language, each before an apostrophe,
and has its other bytes as percent forms. Only two character sets are known. -/
def extendedValue? (value : Text) : Option Text :=
  let inside (b : UInt8) : Bool := b != 0x27
  let charset := Text.lower (value.takeWhile inside)
  match value.dropWhile inside with
  | [] => none
  | _ :: rest =>
    match rest.dropWhile inside with
    | [] => none
    | _ :: escaped =>
      if charset = "utf-8" || charset = "us-ascii" then FormData.unescape? escaped else none

/-- The piece with the number `n` of a value that is given in pieces. A star behind the number says
that the piece has percent forms, and the first piece then names its character set. -/
def piece? (a : Announcement) (name : Text) (n : Nat) : Option Text :=
  let numbered := name ++ "*" ++ Text.ofNat n
  match a.parameters.lookup numbered with
  | some piece => some piece
  | none =>
    (a.parameters.lookup (numbered ++ "*")).map fun piece =>
      (if n = 0 then extendedValue? piece else FormData.unescape? piece).getD []

/-- The value of a parameter. An extended value counts before one in pieces, and this before a
plain one. -/
def value? (a : Announcement) (name : Text) : Option Text :=
  let plain := a.parameters.lookup name
  match a.parameters.lookup (name ++ "*") with
  | some extended => (extendedValue? extended).or plain
  | none =>
    match ((List.range a.parameters.length).map (a.piece? name)).takeWhile Option.isSome with
    | [] => plain
    | pieces => some (pieces.filterMap id).flatten

end Announcement

def MediaType.ofText? (text : Text) : Option Text :=
  (Announcement.ofText? text).map Announcement.type

end SelectionCheck
