import SelectionCheck.Number.Binary64
import SelectionCheck.Text.Numeral
import SelectionCheck.Time.Moment

/-!
# Values in configuration files

A configuration file holds values of several kinds. A setting wants a text or an integer, and takes
what the value comes closest to: numbers and truth values have a text, and a text may be a numeral.
Lists and tables are neither; they count as an empty text and as zero.
-/

namespace SelectionCheck

inductive SettingValue
  | absent
  | truth (b : Bool)
  | whole (n : Int)
  | fraction (x : Binary64)
  | moment (m : Moment)
  | text (t : Text)
  | list (items : List SettingValue)
  | table (entries : List (SettingValue × SettingValue))

namespace SettingValue

open Text (byte)

def isAbsent : SettingValue → Bool
  | .absent => true
  | _ => false

def toText : SettingValue → Text
  | .truth b => if b then "true" else "false"
  | .whole n => Text.ofInt n
  | .fraction x => x.text
  | .moment m => m.text
  | .text t => t
  | .absent | .list _ | .table _ => []

/-- The numeral, from its end, without a point and zeros behind it: points are passed over until a
zero has been seen, and anything else than points and zeros keeps the numeral as it is. -/
def zeroFractionFrom (sawZero : Bool) : (reversed : Text) → Option Text
  | [] => none
  | b :: rest =>
    if b = byte '.' then if sawZero then some rest.reverse else zeroFractionFrom sawZero rest
    else if b = byte '0' then zeroFractionFrom true rest
    else none

def dropZeroFraction (numeral : Text) : Text :=
  (zeroFractionFrom false numeral.reverse).getD numeral

/-- The integer of a text; one that is no numeral counts as zero. -/
def integerOfText (text : Text) : Int :=
  match Text.integer (dropZeroFraction text) with
  | .ok n => n
  | .error _ => 0

def wrap (n : Int) : Int :=
  if n < Nat.pow 2 63 then n else n - Nat.pow 2 64

def toInteger : SettingValue → Int
  | .truth b => if b then 1 else 0
  | .whole n => wrap n
  | .fraction x => x.truncate
  | .text t => integerOfText t
  | .absent | .moment _ | .list _ | .table _ => 0

end SettingValue

end SelectionCheck
