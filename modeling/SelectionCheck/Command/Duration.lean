import SelectionCheck.Text.Numeral

/-!
# Durations

A duration is a sequence of decimal numbers that each have a unit, such as `1h15m30.5s`, with an
optional sign before all of them; a lone zero needs no unit. It is counted in nanoseconds and has
to fit into 64 bits with a sign. The digits behind a point are taken into account as far as they
fit; what they contribute is computed in binary floating point and cut off below a nanosecond.
-/

namespace SelectionCheck

open Text (byte)

inductive DurationFault
  | malformed
  | missingUnit
  | unknownUnit (unit : Text)
deriving DecidableEq, Repr

namespace DurationFault

/-- A byte as messages about durations show it: what is no printable ASCII by its number. -/
def quotedByte (b : UInt8) : Text :=
  if b < 0x20 || 0x80 ≤ b then "\\x" ++ Text.hex 2 b.toNat
  else if b = 0x22 || b = byte '\\' then [byte '\\', b]
  else [b]

def quote (text : Text) : Text :=
  "\"" ++ text.flatMap quotedByte ++ "\""

def message (duration : Text) : DurationFault → Text
  | .malformed => "time: invalid duration " ++ quote duration
  | .missingUnit => "time: missing unit in duration " ++ quote duration
  | .unknownUnit unit => "time: unknown unit " ++ quote unit ++ " in duration " ++ quote duration

end DurationFault

namespace Duration

def unit? (name : Text) : Option Nat :=
  if name = "ns" then some 1
  else if name = "us" || name = "µs" || name = "μs" then some (Nat.pow 10 3)
  else if name = "ms" then some (Nat.pow 10 6)
  else if name = "s" then some (Nat.pow 10 9)
  else if name = "m" then some (60 * Nat.pow 10 9)
  else if name = "h" then some (3600 * Nat.pow 10 9)
  else none

/-- The number of decimal digits, unless it grows above `2 ^ 63` on the way. -/
def whole? (digits : Text) : Option Nat :=
  digits.foldlM (fun n b =>
    let next := n * 10 + (b.toNat - 0x30)
    if Nat.pow 2 63 / 10 < n || Nat.pow 2 63 < next then none else some next) 0

/-- The digits behind a point as a number and a power of ten to divide it by; digits that no
longer fit are left out. -/
def places (digits : Text) : Nat × Nat :=
  let step (acc : Nat × Nat × Bool) (b : UInt8) : Nat × Nat × Bool :=
    let (n, scale, full) := acc
    let next := n * 10 + (b.toNat - 0x30)
    if full || (Nat.pow 2 63 - 1) / 10 < n || Nat.pow 2 63 < next then (n, scale, true)
    else (next, scale * 10, false)
  let (n, scale, _) := digits.foldl step (0, 1, false)
  (n, scale)

def contribution (unit : Nat) (digits : Text) : Nat :=
  let (n, scale) := places digits
  let share := Binary64.mulMagnitudes (.ofRatio false n 1) (.ofRatio false unit scale)
  share.truncate.toNat

def isUnitByte (b : UInt8) : Bool := b != byte '.' && !Text.isDigit b

def part (text : Text) : Except DurationFault (Nat × Text) :=
  let digits := text.takeWhile Text.isDigit
  let behind := text.dropWhile Text.isDigit
  let point := behind.head? = some (byte '.')
  let decimals := if point then behind.tail.takeWhile Text.isDigit else []
  let rest := if point then behind.tail.dropWhile Text.isDigit else behind
  match whole? digits with
  | none => .error .malformed
  | some n =>
    if digits.isEmpty && decimals.isEmpty then .error .malformed
    else
      let name := rest.takeWhile isUnitByte
      if name.isEmpty then .error .missingUnit
      else
        match unit? name with
        | none => .error (.unknownUnit name)
        | some unit =>
          let total := n * unit + contribution unit decimals
          if Nat.pow 2 63 / unit < n || Nat.pow 2 63 < total then .error .malformed
          else .ok (total, rest.dropWhile isUnitByte)

/-- The sum of the parts of a duration, of which `total` is behind. Each part takes at least one
byte, so `fuel` need not exceed the length. -/
def partsFrom : (fuel : Nat) → (total : Nat) → Text → Except DurationFault Nat
  | _, total, [] => .ok total
  | 0, _, _ :: _ => .error .malformed
  | fuel + 1, total, text =>
    match part text with
    | .error fault => .error fault
    | .ok (n, rest) =>
      if Nat.pow 2 63 < total + n then .error .malformed else partsFrom fuel (total + n) rest

def ofText (text : Text) : Except DurationFault Int :=
  let (negative, parts) := Text.splitSign text
  if parts = "0" then .ok 0
  else if parts.isEmpty then .error .malformed
  else
    match partsFrom parts.length 0 parts with
    | .error fault => .error fault
    | .ok total =>
      if negative then .ok (-total)
      else if Nat.pow 2 63 ≤ total then .error .malformed
      else .ok total

end Duration

end SelectionCheck
