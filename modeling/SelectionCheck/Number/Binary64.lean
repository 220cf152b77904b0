import SelectionCheck.Text.Basic

/-!
# Binary floating-point numbers

A number is held as an exact product of an integer and a power of two, within the limits of the
binary format of 64 bits: 53 binary digits, and exponents from -1074 to 971. Arithmetic is done on
exact fractions and rounded once at the end, to the nearest number of the format and to the even
one of two that are equally near. Nothing here depends on the arithmetic of the machine.

The decimal text of a number has the fewest digits that still lead back to it: of the decimal
grids from one to seventeen digits the first that has a point between the two midpoints around the
number is taken, and on it the point nearest to the number.
-/

namespace SelectionCheck

/-- A number of the format. A finite one is `mantissa * 2 ^ exponent` with its sign; its mantissa
is below `2 ^ 53`, and not below `2 ^ 52` unless the exponent is the least one. -/
inductive Binary64
  | finite (negative : Bool) (mantissa : Nat) (exponent : Int)
  | infinite (negative : Bool)
  | nan
deriving DecidableEq, Repr

namespace Binary64

open Text (byte)

def minExponent : Int := -1074

def maxExponent : Int := 971

/-- The nearest integer to a quotient, the even one of two that are equally near. -/
def roundQuotient (numerator denominator : Nat) : Nat :=
  let quotient := numerator / denominator
  let twice := 2 * (numerator % denominator)
  if twice < denominator || (twice = denominator && quotient % 2 = 0) then quotient
  else quotient + 1

def divideByPower (base numerator denominator : Nat) (exponent : Int) : Nat × Nat :=
  if exponent < 0 then (numerator * Nat.pow base exponent.natAbs, denominator)
  else (numerator, denominator * Nat.pow base exponent.natAbs)

def roundRatio (negative : Bool) (numerator denominator : Nat) : Binary64 :=
  let estimate : Int := (numerator.log2 : Int) - denominator.log2 - 52
  let (n, d) := divideByPower 2 numerator denominator estimate
  let exponent := max minExponent (if n / d < Nat.pow 2 52 then estimate - 1 else estimate)
  let (n, d) := divideByPower 2 numerator denominator exponent
  let mantissa := roundQuotient n d
  let (mantissa, exponent) :=
    if mantissa = Nat.pow 2 53 then (Nat.pow 2 52, exponent + 1) else (mantissa, exponent)
  if maxExponent < exponent then .infinite negative else .finite negative mantissa exponent

def ofRatio (negative : Bool) (numerator denominator : Nat) : Binary64 :=
  if numerator = 0 then .finite negative 0 minExponent
  else roundRatio negative numerator denominator

def ofPower (base : Nat) (negative : Bool) (digits : Nat) (exponent : Int) : Binary64 :=
  let (n, d) := divideByPower base digits 1 (-exponent)
  ofRatio negative n d

/-- The number nearest to `digits * 10 ^ exponent`. What is far outside the range of the format is
decided by the size of the exponent alone. -/
def ofDecimal (negative : Bool) (digits : Nat) (exponent : Int) : Binary64 :=
  if digits = 0 then .finite negative 0 minExponent
  else if 400 < ((digits.log2 * 3 / 10 : Nat) : Int) + exponent then .infinite negative
  else if ((digits.log2 * 4 / 10 : Nat) : Int) + exponent < -400 then
    .finite negative 0 minExponent
  else ofPower 10 negative digits exponent

def fraction (mantissa : Nat) (exponent : Int) : Nat × Nat :=
  divideByPower 2 mantissa 1 (-exponent)

/-- The integer between zero and the number that is nearest to it, if it fits into 64 bits with a
sign; the least such integer otherwise. -/
def truncate : Binary64 → Int
  | .finite negative mantissa exponent =>
    let (n, d) := fraction mantissa exponent
    if n / d < Nat.pow 2 63 then if negative then -((n / d : Nat) : Int) else ((n / d : Nat) : Int)
    else -Nat.pow 2 63
  | .infinite _ | .nan => -Nat.pow 2 63

def mulMagnitudes : Binary64 → Binary64 → Binary64
  | .finite _ m e, .finite _ n f =>
    let (a, b) := fraction m e
    let (c, d) := fraction n f
    ofRatio false (a * c) (b * d)
  | .nan, _ | _, .nan => .nan
  | .infinite _, _ | _, .infinite _ => .infinite false

/-! ## Decimal text -/

/-- The magnitude of a number and the midpoints to its neighbours, in quarters of the unit of its
last place: least, itself, greatest. -/
def quarters (mantissa : Nat) (exponent : Int) : Nat × Nat × Nat :=
  let below := if mantissa = Nat.pow 2 52 && minExponent < exponent then 1 else 2
  (4 * mantissa - below, 4 * mantissa, 4 * mantissa + 2)

def decimalMagnitude (numerator denominator : Nat) : Int :=
  let binary : Int := (numerator.log2 : Int) - denominator.log2
  let estimate := Int.fdiv (binary * 30103) 100000
  let reaches (power : Int) : Bool :=
    let (n, d) := divideByPower 10 numerator denominator power
    d ≤ n
  if reaches (estimate + 1) then estimate + 1
  else if reaches estimate then estimate
  else estimate - 1

/-- The point of the decimal grid `10 ^ power` that is nearest to the number, if one of the two
around it lies between the midpoints; these count as well if the mantissa is even. -/
def gridPoint? (mantissa : Nat) (exponent : Int) (power : Int) : Option Nat :=
  let (low, middle, high) := quarters mantissa exponent
  let scaled (quarter : Nat) : Nat × Nat :=
    let (n, d) := divideByPower 2 quarter 1 (2 - exponent)
    divideByPower 10 n d power
  let inside (point : Nat) : Bool :=
    let (ln, ld) := scaled low
    let (hn, hd) := scaled high
    if mantissa % 2 = 0 then ln ≤ point * ld && point * hd ≤ hn
    else ln < point * ld && point * hd < hn
  let (n, d) := scaled middle
  let below := n / d
  let nearest := roundQuotient n d
  if inside nearest then some nearest
  else if inside below then some below
  else if inside (below + 1) then some (below + 1)
  else none

/-- The digits of the shortest decimal that leads back to a positive number, and the power of ten
of the last one. Grids of `count` and more digits are tried, `fuel` of them. -/
def shortestFrom (mantissa : Nat) (exponent magnitude : Int) :
    (fuel : Nat) → (count : Int) → Nat × Int
  | 0, count => ((gridPoint? mantissa exponent (magnitude - count)).getD 0, magnitude - count)
  | fuel + 1, count =>
    match gridPoint? mantissa exponent (magnitude - count) with
    | some digits => (digits, magnitude - count)
    | none => shortestFrom mantissa exponent magnitude fuel (count + 1)

def shortest (mantissa : Nat) (exponent : Int) : Nat × Int :=
  let (n, d) := fraction mantissa exponent
  shortestFrom mantissa exponent (decimalMagnitude n d) 16 0

def positional (digits : Nat) (power : Int) : Text :=
  let spelled := Text.ofNat digits
  if 0 ≤ power then spelled ++ List.replicate power.natAbs (byte '0')
  else
    let places := power.natAbs
    let padded := List.replicate (places + 1 - spelled.length) (byte '0') ++ spelled
    let whole := padded.take (padded.length - places)
    let tail := (padded.drop (padded.length - places)).reverse.dropWhile (· = byte '0')
    if tail.isEmpty then whole else whole ++ byte '.' :: tail.reverse

def text : Binary64 → Text
  | .nan => "NaN"
  | .infinite true => "-Inf"
  | .infinite false => "+Inf"
  | .finite negative mantissa exponent =>
    let magnitude : Text :=
      if mantissa = 0 then "0"
      else
        let (digits, power) := shortest mantissa exponent
        positional digits power
    if negative then byte '-' :: magnitude else magnitude

end Binary64

end SelectionCheck
