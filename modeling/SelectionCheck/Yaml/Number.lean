import SelectionCheck.Text.Numeral
import SelectionCheck.Time.Moment

/-!
# Numbers and dates among the plain scalars of YAML

A plain scalar that begins with a digit or a sign may be a date or a number. Underscores in a
number do not count. A whole number announces its base by its beginning and has 64 bits, with or
without a sign; a number with a point or an exponent is decimal. A scalar that begins with a point
is read as a fraction as it stands.
-/

namespace SelectionCheck.Yaml

open Text (byte isDigit)

def specialNumber? (text : Text) : Option Binary64 :=
  if ([".nan", ".NaN", ".NAN"] : List Text).contains text then some .nan
  else if ([".inf", ".Inf", ".INF", "+.inf", "+.Inf", "+.INF"] : List Text).contains text then
    some (.infinite false)
  else if (["-.inf", "-.Inf", "-.INF"] : List Text).contains text then some (.infinite true)
  else none

def absentWords : List Text :=
  (["", "~", "null", "Null", "NULL"] : List String).map Text.ofString

def read? {α : Type} : Except Text.NumeralFault α → Option α
  | .ok value => some value
  | .error _ => none

/-- The whole number of a numeral, with a sign or of 64 bits without one. -/
def whole? (base? : Option Nat) (numeral : Text) : Option Int :=
  (read? (Text.integerIn base? numeral)).or ((read? (Text.natural base? numeral)).map Int.ofNat)

def behindDigits? (text : Text) : Option Text :=
  if text.head?.any isDigit then some (text.dropWhile isDigit) else none

def isExponent : Text → Bool
  | [] => true
  | b :: rest => Text.toLower b = byte 'e' && behindDigits? (Text.splitSign rest).2 = some []

/-- Whether the text is a decimal number: digits with an optional point among, before or behind
them, and an optional exponent. -/
def isDecimal (text : Text) : Bool :=
  let magnitude := (Text.splitSign text).2
  match magnitude with
  | [] => false
  | b :: rest =>
    if b = byte '.' then (behindDigits? rest).any isExponent
    else
      match behindDigits? magnitude with
      | none => false
      | some [] => true
      | some (c :: rest) =>
        if c = byte '.' then isExponent (rest.dropWhile isDigit) else isExponent (c :: rest)

def decimal? (text : Text) : Option Binary64 :=
  if isDecimal text then read? (Text.fraction text) else none

/-- The whole number behind the mark of a base that stands at the head of a text, or behind a minus
sign and the mark. -/
def marked? (base : Nat) (mark text : Text) : Option Int :=
  if Text.startsWith mark text then whole? (some base) (text.drop mark.length)
  else if Text.startsWith (byte '-' :: mark) text then
    read? (Text.integerIn (some base) (byte '-' :: text.drop (mark.length + 1)))
  else none

inductive Number
  | whole (n : Int)
  | fraction (x : Binary64)
deriving DecidableEq, Repr

/-- The number of a plain scalar that begins with a digit or a sign. The marks are those of bases
that may stand before a numeral with its own sign. -/
def number? (marks : List (Nat × Text)) (scalar : Text) : Option Number :=
  let text := scalar.filter (· != byte '_')
  match whole? none text with
  | some n => some (.whole n)
  | none =>
    match decimal? text with
    | some x => some (.fraction x)
    | none => (marks.findSome? fun (base, mark) => marked? base mark text).map .whole

def beginsNumber (scalar : Text) : Bool :=
  scalar.head?.any fun b => isDigit b || b = byte '+' || b = byte '-'

def pointed? (scalar : Text) : Option Binary64 :=
  if scalar.head? = some (byte '.') then read? (Text.fraction scalar) else none

end SelectionCheck.Yaml
