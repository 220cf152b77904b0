import SelectionCheck.Request.MediaType
import SelectionCheck.Request.Web

/-!
# Bodies of several parts

A body announced as `multipart/form-data` consists of parts between delimiter lines: two hyphens,
the boundary that the announcement names, and blanks. A delimiter line with two more hyphens behind
the boundary ends the body; what comes before the first one and behind the last is ignored. A part
has headers, an empty line and a content, which ends before the line end in front of the next
delimiter. All lines of a body end as its first delimiter line does, with or without a carriage
return.

The pairs of such a body are the names in the dispositions of its parts, with their contents; files
are no pairs. Nothing is read of a body with a fault in it.
-/

namespace SelectionCheck

namespace Multipart

open Text (byte)

def isBlank (b : UInt8) : Bool :=
  b = 0x20 || b = 0x09

def trimBlanks (text : Text) : Text :=
  ((text.dropWhile isBlank).reverse.dropWhile isBlank).reverse

/-- The longest line, with its line feed, outside the headers and contents of parts. -/
def lineLimit : Nat := 4096

def partLimit : Nat := 1000

def line? (text : Text) : Option (Text × Text) :=
  let line := text.takeWhile (· != 0x0A)
  match text.dropWhile (· != 0x0A) with
  | b :: rest => if line.length < lineLimit then some (line ++ [b], rest) else none
  | [] => none

/-! ## Delimiters -/

inductive Turn
  | part (rest : Text)
  | finish

/-- How a body is divided: the hyphens and the boundary, what ends its lines, and whether the body
goes on where it cannot be read. -/
structure Division where
  dashes : Text
  lineEnd : Text
  cut : Bool

namespace Division

variable (d : Division)

def isDelimiter (line : Text) : Bool :=
  d.dashes.isPrefixOf line && (line.drop d.dashes.length).dropWhile isBlank = d.lineEnd

def isFinal (line : Text) : Bool :=
  let final := d.dashes ++ "--"
  let rest := (line.drop final.length).dropWhile isBlank
  final.isPrefixOf line && (rest.isEmpty || rest = d.lineEnd)

/-- What the line at the head of a text opens. The line feed may be missing behind the last
delimiter. -/
def turn? (text : Text) : Option Turn :=
  match line? text with
  | some (line, rest) =>
    if d.isDelimiter line then some (.part rest) else if d.isFinal line then some .finish else none
  | none => if !d.cut && text.length < lineLimit && d.isFinal text then some .finish else none

def turnBehind? (text : Text) : Option Turn :=
  match d.turn? text, line? text with
  | some turn, _ => some turn
  | none, some (line, rest) => if line = d.lineEnd then d.turn? rest else none
  | none, none => none

/-- The first delimiter, and how the body is divided. Each line takes at least one byte, so `fuel`
need not exceed the length. -/
def begin? : (fuel : Nat) → Text → Option (Division × Turn)
  | 0, _ => none
  | fuel + 1, text =>
    match d.turn? text, line? text with
    | some turn, _ => some (d, turn)
    | none, some (line, rest) =>
      let bare := { d with lineEnd := [0x0A] }
      if bare.isDelimiter line then some (bare, .part rest) else begin? fuel rest
    | none, none => none

def delimits : Text → Bool
  | b :: c :: _ => isBlank b || b = 0x0D || b = 0x0A || (b = byte '-' && c = byte '-')
  | [b] => isBlank b || b = 0x0D || b = 0x0A
  | [] => false

/-- The content up to a delimiter, and what follows it; `done` holds the bytes before, latest
first. -/
def contentFrom (delimiter : Text) : Text → (done : Text) → Option (Text × Text)
  | [], _ => none
  | b :: rest, done =>
    if delimiter.isPrefixOf (b :: rest) && delimits ((b :: rest).drop delimiter.length) then
      some (done.reverse, b :: rest)
    else contentFrom delimiter rest (b :: done)

def content? (text : Text) : Option (Text × Text) :=
  if d.dashes.isPrefixOf text && delimits (text.drop d.dashes.length) then some ([], text)
  else contentFrom (d.lineEnd ++ d.dashes) text []

end Division

/-! ## Headers of parts -/

def headerLine (text : Text) : Text × Text :=
  let line := text.takeWhile (· != 0x0A)
  match text.dropWhile (· != 0x0A) with
  | _ :: rest => (if line.getLast? = some 0x0D then line.dropLast else line, rest)
  | [] => (line, [])

/-- A header with the lines that continue it, each of which begins with a blank. -/
def continuedFrom : (fuel : Nat) → (line : Text) → Text → Text × Text
  | 0, line, text => (line, text)
  | fuel + 1, line, text =>
    if text.head?.any isBlank then
      let (more, rest) := headerLine (text.dropWhile isBlank)
      continuedFrom fuel (line ++ " " ++ trimBlanks more) rest
    else (line, text)

def header? (line : Text) : Option (Text × Text) :=
  let isNameByte (b : UInt8) : Bool :=
    b = 0x20 || (MediaType.isWordByte b && b != 0x7B && b != 0x7D)
  let isValueByte (b : UInt8) : Bool := b = 0x09 || (0x20 ≤ b && b != 0x7F)
  let name := line.takeWhile (· != byte ':')
  match line.dropWhile (· != byte ':') with
  | [] => none
  | _ :: value =>
    if !name.isEmpty && name.all isNameByte && value.all isValueByte then
      some (name.map Text.toLower, value.dropWhile isBlank)
    else none

/-- The headers of a part: they are broken, or the body ends in them, or they are read. -/
inductive Headers
  | broken
  | ended
  | read (headers : List (Text × Text)) (rest : Text)

def headersFrom : (fuel : Nat) → (done : List (Text × Text)) → Text → Headers
  | 0, _, _ => .ended
  | fuel + 1, done, text =>
    if text.isEmpty then .ended
    else
      match headerLine text with
      | ([], rest) => .read done.reverse rest
      | (line, rest) =>
        if line.head?.any isBlank || !line.contains (byte ':') then .broken
        else
          let (whole, rest) := continuedFrom fuel (trimBlanks line) rest
          match header? whole with
          | some header => headersFrom fuel (header :: done) rest
          | none => .broken

/-! ## Contents of parts -/

/-- Decodes a line of a quoted-printable content; `done` holds the bytes before, latest first. -/
def unquoteLineFrom : Text → (done : Text) → Option Text
  | [], done => some done.reverse
  | b :: rest, done =>
    if b = byte '=' then
      match rest with
      | h :: l :: rest =>
        match Text.hexValue? h, Text.hexValue? l with
        | some high, some low => unquoteLineFrom rest (UInt8.ofNat (high * 16 + low) :: done)
        | _, _ =>
          if h = 0x0D || h = 0x0A then none else unquoteLineFrom (h :: l :: rest) (b :: done)
      | [h] => if h = 0x0D || h = 0x0A then none else unquoteLineFrom [h] (b :: done)
      | [] => none
    else if b = 0x09 || b = 0x0D || b = 0x0A || (0x20 ≤ b && b != 0x7F) then
      unquoteLineFrom rest (b :: done)
    else none

/-- Decodes a line, given without its line feed, of a quoted-printable content. An equals sign at
the end of a line takes the line end away, and blanks at the end do not count. -/
def unquoteLine? (last : Bool) (line : Text) : Option Text :=
  let lineEnd : Text := if last then [] else [0x0A]
  let kept := (line.reverse.dropWhile fun b => isBlank b || b = 0x0D).reverse
  let dropped := line.drop kept.length ++ lineEnd
  let carriage : Text := if !last && line.getLast? = some 0x0D then [0x0D] else []
  if lineLimit < line.length + lineEnd.length then none
  else if kept.getLast? != some (byte '=') then unquoteLineFrom (kept ++ carriage ++ lineEnd) []
  else if dropped = [0x0A] || [0x0D, 0x0A].isPrefixOf dropped ||
      (dropped.isEmpty && 1 < kept.length) then
    unquoteLineFrom kept.dropLast []
  else none

def unquote? (content : Text) : Option Text := do
  let lines := content.splitOn 0x0A
  let decoded ← lines.dropLast.mapM (unquoteLine? false)
  let last ← unquoteLine? true (lines.getLastD [])
  return decoded.flatten ++ last

/-- The pairs of one part: one if its disposition has a name and it is no file, and otherwise none.
-/
def pairs? (headers : List (Text × Text)) (raw : Text) : Option FormData := do
  let header (name : Text) : Text := (headers.lookup name).getD []
  let isQuoted := (header "content-transfer-encoding").map Text.toLower = "quoted-printable"
  let content ← if isQuoted then unquote? raw else some raw
  match Announcement.ofText? (header "content-disposition") with
  | none => return []
  | some disposition =>
    let name := (disposition.value? "name").getD []
    let file := (disposition.value? "filename").getD []
    let isPair := disposition.type = "form-data" && !name.isEmpty && file.isEmpty
    return if isPair then [(name, content)] else []

/-- The pairs of the parts from the headers of one on; `left` is the number of parts that may still
come. A body that ends in the headers of a part ends before that part. -/
def pairsFrom? (d : Division) : (left : Nat) → Text → Option FormData
  | 0, text =>
    match headersFrom text.length [] text with
    | .ended => if d.cut then none else some []
    | _ => none
  | left + 1, text =>
    match headersFrom text.length [] text with
    | .broken => none
    | .ended => if d.cut then none else some []
    | .read headers rest => do
      let (raw, rest) ← d.content? rest
      let found ← pairs? headers raw
      match ← d.turnBehind? rest with
      | .finish => return found
      | .part rest => return found ++ (← pairsFrom? d left rest)

end Multipart

/-- How the pairs of a body are found that is announced as one of several parts. -/
abbrev PartReader := (announced : Text) → Body → FormData

/-- The pairs of a body of several parts. A body without a boundary has none. -/
def Multipart.pairs : PartReader := fun announced body =>
  match (Announcement.ofText? announced).bind (·.value? "boundary") with
  | none | some [] => []
  | some boundary =>
    let d : Division := ⟨"--" ++ boundary, [0x0D, 0x0A], body.cut⟩
    match d.begin? body.bytes.length body.bytes with
    | some (d, .part rest) => (pairsFrom? d partLimit rest).getD []
    | _ => []

end SelectionCheck
