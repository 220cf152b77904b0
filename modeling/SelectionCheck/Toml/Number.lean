import SelectionCheck.Text.Numeral

/-!
# Numbers in TOML

An integer is decimal, or has a mark for base two, eight or sixteen before its digits. A fraction
has a point or an exponent. An underscore may stand between two digits. A decimal number has no
zeros before its first digit.
-/

namespace SelectionCheck.Toml

open Text (byte isDigit NumeralFault)

inductive NumberFault
  | underscoreFirst
  | underscoreLast
  | underscoreTwice
  | underscoreBeforeExponent
  | underscoreBehindExponent
  | underscoreBeforePoint
  | underscoreBehindPoint
  | leadingZero
  | leadingZeros
  | pointFirst
  | pointLast
  | pointTwice
  | pointBehindNoDigit
  | pointBeforeNoDigit
  | integer (base : Text) (numeral : Text) (fault : NumeralFault)
  | fraction (numeral : Text) (fault : NumeralFault)
deriving DecidableEq, Repr

def NumberFault.message : NumberFault → Text
  | .underscoreFirst => "number cannot start with underscore"
  | .underscoreLast => "number cannot end with underscore"
  | .underscoreTwice => "number must have at least one digit between underscores"
  | .underscoreBeforeExponent => "cannot have underscore before exponent"
  | .underscoreBehindExponent => "cannot have underscore after exponent"
  | .underscoreBeforePoint => "cannot have underscore before decimal point"
  | .underscoreBehindPoint => "cannot have underscore after decimal point"
  | .leadingZero => "leading zero not allowed on decimal number"
  | .leadingZeros => "float integer part cannot have leading zeroes"
  | .pointFirst => "float cannot start with a dot"
  | .pointLast => "float cannot end with a dot"
  | .pointTwice => "float can have at most one decimal point"
  | .pointBehindNoDigit => "float decimal point must be preceded by a digit"
  | .pointBeforeNoDigit => "float decimal point must be followed by a digit"
  | .integer base numeral fault =>
    "couldn't parse " ++ base ++ " number: strconv.ParseInt: parsing " ++ Text.quote numeral ++
      ": " ++ fault.message
  | .fraction numeral fault =>
    "unable to parse float: strconv.ParseFloat: parsing " ++ Text.quote numeral ++ ": " ++
      fault.message

/-! ## Integers -/

/-- The digits behind an underscore without further underscores; `before` says whether a digit
stands right before. -/
def digitsBehind : (before : Bool) → Text → Except NumberFault Text
  | _, [] => .ok []
  | before, b :: rest =>
    if b = byte '_' then if before then digitsBehind false rest else .error .underscoreTwice
    else (digitsBehind true rest).map (b :: ·)

def plainDigits (numeral : Text) : Except NumberFault Text :=
  let magnitude := (Text.splitSign numeral).2
  if magnitude.head? = some (byte '_') then .error .underscoreFirst
  else if numeral.getLast? = some (byte '_') && !magnitude.isEmpty then .error .underscoreLast
  else
    let first := numeral.takeWhile (· != byte '_')
    (digitsBehind false (numeral.drop (first.length + 1))).map (first ++ ·)

def integerIn (base : Nat) (name : Text) (numeral : Text) : Except NumberFault Int := do
  let digits ← plainDigits numeral
  let magnitude := (Text.splitSign digits).2
  if base = 10 && 1 < magnitude.length && magnitude.head? = some (byte '0') then
    .error .leadingZero
  else
    match Text.integerIn (some base) digits with
    | .ok n => return n
    | .error fault => .error (.integer name digits fault)

def integer (numeral : Text) : Except NumberFault Int :=
  match numeral with
  | zero :: mark :: first :: rest =>
    if zero != byte '0' then integerIn 10 "decimal" numeral
    else if mark = byte 'x' then integerIn 16 "hexadecimal" (first :: rest)
    else if mark = byte 'o' then integerIn 8 "octal" (first :: rest)
    else if mark = byte 'b' then integerIn 2 "binary" (first :: rest)
    else integerIn 10 "decimal" numeral
  | _ => integerIn 10 "decimal" numeral

/-! ## Fractions -/

def isExponentLetter (b : UInt8) : Bool :=
  b = byte 'e' || b = byte 'E'

/-- The characters of a fraction without underscores; `last` stands before them, and `digit` says
whether a digit has been seen since the last underscore or sign. -/
def plainFrom : (last : UInt8) → (digit : Bool) → Text → Except NumberFault Text
  | _, _, [] => .ok []
  | last, digit, b :: rest =>
    let behind (p : UInt8 → Bool) : Bool := rest.head?.any p
    if b = byte '_' then
      if !digit then .error .underscoreTwice
      else if behind isExponentLetter then .error .underscoreBeforeExponent
      else plainFrom b false rest
    else if b = byte '+' || b = byte '-' then (plainFrom b false rest).map (b :: ·)
    else if isExponentLetter b then
      if behind (· = byte '_') then .error .underscoreBehindExponent
      else (plainFrom b digit rest).map (b :: ·)
    else if b = byte '.' then
      if behind (· = byte '_') then .error .underscoreBehindPoint
      else if last = byte '_' then .error .underscoreBeforePoint
      else (plainFrom b digit rest).map (b :: ·)
    else (plainFrom b true rest).map (b :: ·)

def plainFraction (numeral : Text) : Except NumberFault Text :=
  if numeral.head? = some (byte '_') then .error .underscoreFirst
  else if numeral.getLast? = some (byte '_') then .error .underscoreLast
  else if numeral.contains (byte '_') then plainFrom 0 false numeral
  else .ok numeral

/-- What is wrong with the points of a fraction; `last` stands before what is left, and `seen` says
whether a point does. -/
def pointFault? : (last : UInt8) → (seen : Bool) → Text → Option NumberFault
  | _, _, [] => none
  | last, seen, b :: rest =>
    if b != byte '.' then pointFault? b seen rest
    else if seen then some .pointTwice
    else if !isDigit last then some .pointBehindNoDigit
    else if !rest.head?.any isDigit then some .pointBeforeNoDigit
    else pointFault? b true rest

def spellingFault? (numeral : Text) : Option NumberFault :=
  if numeral.head? = some (byte '.') then some .pointFirst
  else if numeral.getLast? = some (byte '.') then some .pointLast
  else
    (pointFault? 0 false numeral).or
      (match (Text.splitSign numeral).2 with
      | zero :: next :: _ => if zero = byte '0' && isDigit next then some .leadingZeros else none
      | _ => none)

def fraction (numeral : Text) : Except NumberFault Binary64 :=
  if numeral = "+nan" || numeral = "-nan" then .ok .nan
  else do
    let digits ← plainFraction numeral
    match spellingFault? digits with
    | some fault => .error fault
    | none =>
      match Text.fraction digits with
      | .ok x => return x
      | .error fault => .error (.fraction digits fault)

end SelectionCheck.Toml
