import SelectionCheck.Yaml.Number

/-!
# Words that YAML reads as something else than text

A plain scalar is read as a truth value, a number, a date or nothing if it is spelled like one. A
text with such a spelling has to be quoted to stay a text.
-/

namespace SelectionCheck.Yaml

open Text (byte isDigit)

def truthWords : List Text :=
  (["y", "Y", "yes", "Yes", "YES", "true", "True", "TRUE", "on", "On", "ON",
    "n", "N", "no", "No", "NO", "false", "False", "FALSE", "off", "Off", "OFF"] : List String).map
    Text.ofString

/-- Whether the text is the spelling of a truth value, of the absent value, of infinity or of no
number. -/
def isReserved (text : Text) : Bool :=
  truthWords.contains text || absentWords.contains text || (specialNumber? text).isSome

def isSexagesimalGroup : Text → Bool
  | [b] => isDigit b
  | [b, c] => byte '0' ≤ b && b ≤ byte '5' && isDigit c
  | _ => false

/-- Whether the text is a number in base sixty: digits, then groups below sixty behind colons,
then an optional fraction. -/
def isSexagesimal (text : Text) : Bool :=
  let digitLike (b : UInt8) : Bool := isDigit b || b = byte '_'
  let magnitude := (Text.splitSign text).2
  let whole := magnitude.takeWhile (· != byte '.')
  let fraction := (magnitude.dropWhile (· != byte '.')).tail
  match whole.splitOn (byte ':') with
  | first :: group :: groups =>
    first.head?.any isDigit && first.all digitLike && (group :: groups).all isSexagesimalGroup &&
      fraction.all digitLike
  | _ => false

def isNumeric (text : Text) : Bool :=
  if beginsNumber text then
    (Moment.ofText? text).isSome || (number? [(2, "0b")] text).isSome || isSexagesimal text
  else (pointed? text).isSome

def readsAsText (text : Text) : Bool :=
  !isReserved text && !isNumeric text

end SelectionCheck.Yaml
