import SelectionCheck.Number.Binary64
import SelectionCheck.Text.Quoted

/-!
# Numerals

Integers are read with an optional sign, in a given base or in the one that their beginning
announces: `0x` for sixteen, `0o` or a plain zero for eight, `0b` for two, ten otherwise. Where the
numeral announces its base, an underscore may stand between digits and behind the mark of the
base. Digits are taken one after another, so a numeral that leaves the range is out of range
whatever follows, and one that has a foreign character before that is malformed.

Fractions are decimal or hexadecimal, with an optional point and exponent; a hexadecimal one needs
the exponent, which is a power of two. The words for infinity and for no number are fractions too.
-/

namespace SelectionCheck.Text

inductive NumeralFault
  | malformed
  | outOfRange
deriving DecidableEq, Repr

def NumeralFault.message : NumeralFault → Text
  | .malformed => "invalid syntax"
  | .outOfRange => "value out of range"

/-- The sign at the head of a text, as whether it is a minus, and what follows it. -/
def splitSign : Text → Bool × Text
  | [] => (false, [])
  | b :: rest =>
    if b = byte '-' then (true, rest)
    else if b = byte '+' then (false, rest)
    else (false, b :: rest)

/-! ## Underscores -/

/-- What stands before a place in a numeral. The mark of a base counts as a digit. -/
inductive Before
  | nothing
  | digit
  | underscore
  | other
deriving DecidableEq, Repr

/-- Whether each underscore stands between two digits; letters count as digits if `hex`. -/
def underscoresFit (hex : Bool) : Before → Text → Bool
  | before, [] => before ≠ .underscore
  | before, b :: rest =>
    if isDigit b || (hex && isHexDigit b) then underscoresFit hex .digit rest
    else if b = byte '_' then before = .digit && underscoresFit hex .underscore rest
    else before ≠ .underscore && underscoresFit hex .other rest

def underscoresInPlace (numeral : Text) : Bool :=
  match (splitSign numeral).2 with
  | b :: mark :: rest =>
    let letter := toLower mark
    if b = byte '0' && (letter = byte 'x' || letter = byte 'o' || letter = byte 'b') then
      underscoresFit (letter = byte 'x') .digit rest
    else underscoresFit false .nothing (b :: mark :: rest)
  | rest => underscoresFit false .nothing rest

/-! ## Integers -/

def digitValue? (b : UInt8) : Option Nat :=
  if isDigit b then some (b.toNat - 0x30)
  else if isLower (toLower b) then some ((toLower b).toNat - 0x57)
  else none

/-- The base that the beginning of a numeral announces, and the digits behind the mark. -/
def splitBase : Text → Nat × Text
  | b :: rest =>
    if b = byte '0' then
      match rest with
      | mark :: first :: digits =>
        let letter := toLower mark
        if letter = byte 'b' then (2, first :: digits)
        else if letter = byte 'o' then (8, first :: digits)
        else if letter = byte 'x' then (16, first :: digits)
        else (8, rest)
      | _ => (8, rest)
    else (10, b :: rest)
  | [] => (10, [])

/-- The value of digits of a base, of which `value` stands before, in 64 bits; underscores are
passed over where they are `allowed`. -/
def digitsFrom (base : Nat) (allowed : Bool) : (value : Nat) → Text → Except NumeralFault Nat
  | value, [] => .ok value
  | value, b :: rest =>
    if allowed && b = byte '_' then digitsFrom base allowed value rest
    else
      match digitValue? b with
      | none => .error .malformed
      | some digit =>
        if base ≤ digit then .error .malformed
        else if Nat.pow 2 64 ≤ value * base + digit then .error .outOfRange
        else digitsFrom base allowed (value * base + digit) rest

def natural (base? : Option Nat) (numeral : Text) : Except NumeralFault Nat :=
  match numeral, base? with
  | [], _ => .error .malformed
  | _, some base => digitsFrom base false 0 numeral
  | _, none =>
    let (base, digits) := splitBase numeral
    match digitsFrom base true 0 digits with
    | .error fault => .error fault
    | .ok n =>
      if digits.contains (byte '_') && !underscoresInPlace numeral then .error .malformed
      else .ok n

/-- The integer of a numeral in a base, or in the one it announces, in 64 bits with a sign. -/
def integerIn (base? : Option Nat) (numeral : Text) : Except NumeralFault Int :=
  let (negative, magnitude) := splitSign numeral
  match natural base? magnitude with
  | .error fault => .error fault
  | .ok n =>
    if negative then if n ≤ Nat.pow 2 63 then .ok (-n) else .error .outOfRange
    else if n < Nat.pow 2 63 then .ok n else .error .outOfRange

def integer (numeral : Text) : Except NumeralFault Int :=
  integerIn none numeral

/-! ## Fractions -/

/-- The digits of a fraction: their value without the point, how many stand behind the point,
whether there are a point and digits at all, and what follows. -/
structure Mantissa where
  value : Nat
  places : Nat
  point : Bool
  digits : Bool
  rest : Text
deriving DecidableEq, Repr

/-- Reads the digits of a fraction, hexadecimal ones if `hex`, of which `read` are behind.
Underscores are passed over. -/
def mantissaFrom (hex : Bool) (read : Mantissa) : Text → Mantissa
  | [] => { read with rest := [] }
  | b :: rest =>
    if b = byte '_' then mantissaFrom hex read rest
    else if b = byte '.' then
      if read.point then { read with rest := b :: rest }
      else mantissaFrom hex { read with point := true } rest
    else
      let places := if read.point then read.places + 1 else read.places
      match hexValue? b with
      | some digit =>
        if isDigit b || hex then
          let value := read.value * (if hex then 16 else 10) + digit
          mantissaFrom hex { read with value, places, digits := true } rest
        else { read with rest := b :: rest }
      | none => { read with rest := b :: rest }

def mantissa (hex : Bool) (text : Text) : Mantissa :=
  mantissaFrom hex ⟨0, 0, false, false, []⟩ text

/-- The limit beyond which the digits of an exponent no longer count. -/
def exponentLimit : Nat := 10000

def exponentFrom : (value : Nat) → Text → Nat × Text
  | value, [] => (value, [])
  | value, b :: rest =>
    if b = byte '_' then exponentFrom value rest
    else if isDigit b then
      exponentFrom (if value < exponentLimit then value * 10 + (b.toNat - 0x30) else value) rest
    else (value, b :: rest)

def exponent? (text : Text) : Option (Int × Text) :=
  let (negative, digits) := splitSign text
  if digits.head?.any isDigit then
    let (value, rest) := exponentFrom 0 digits
    some (if negative then -(value : Int) else value, rest)
  else none

/-- The fraction with the given sign and digits. The numeral has to end with it. -/
def fractionOf? (negative hex : Bool) (digits : Text) : Option Binary64 :=
  let read := mantissa hex digits
  let number (exponent : Int) : Binary64 :=
    if hex then .ofPower 2 negative read.value (exponent - 4 * read.places)
    else .ofDecimal negative read.value (exponent - read.places)
  if !read.digits then none
  else
    match read.rest with
    | [] => if hex then none else some (number 0)
    | letter :: rest =>
      if toLower letter = (if hex then byte 'p' else byte 'e') then
        match exponent? rest with
        | some (exponent, []) => some (number exponent)
        | _ => none
      else none

def specialFraction? (text : Text) : Option Binary64 :=
  let (negative, word) := splitSign text
  let word := word.map toLower
  if word = "inf" || word = "infinity" then some (.infinite negative)
  else if text.map toLower = "nan" then some .nan
  else none

def fraction (numeral : Text) : Except NumeralFault Binary64 :=
  match specialFraction? numeral with
  | some number => .ok number
  | none =>
    let (negative, magnitude) := splitSign numeral
    let read :=
      match magnitude with
      | zero :: mark :: first :: digits =>
        if zero = byte '0' && toLower mark = byte 'x' then
          fractionOf? negative true (first :: digits)
        else fractionOf? negative false magnitude
      | _ => fractionOf? negative false magnitude
    match read with
    | none => .error .malformed
    | some number =>
      if numeral.contains (byte '_') && !underscoresInPlace numeral then .error .malformed
      else if number = .infinite negative then .error .outOfRange
      else .ok number

end SelectionCheck.Text
