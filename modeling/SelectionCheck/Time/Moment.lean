import SelectionCheck.Text.Basic

/-!
# Moments

A moment is a date with a time of day. It is written as a year of four digits, a month and a day
with hyphens between them, alone or with a time of day behind: the letter `T` and a time zone, or
blanks and no time zone. Every number but the year may have one digit or two.
-/

namespace SelectionCheck

/-- A moment in a time zone whose clocks are `offset` minutes ahead of those in Greenwich. -/
structure Moment where
  year : Nat
  month : Nat
  day : Nat
  hour : Nat
  minute : Nat
  second : Nat
  nanosecond : Nat
  offset : Int
deriving DecidableEq, Repr

namespace Moment

open Text (byte isDigit)

def isLeap (year : Nat) : Bool :=
  year % 4 = 0 && (year % 100 != 0 || year % 400 = 0)

def daysIn (year month : Nat) : Nat :=
  if month = 2 then if isLeap year then 29 else 28
  else if month = 4 || month = 6 || month = 9 || month = 11 then 30
  else 31

/-! ## Reading -/

def digit (b : UInt8) : Nat := b.toNat - 0x30

def number? : Text → Option (Nat × Text)
  | [] => none
  | b :: rest =>
    if !isDigit b then none
    else
      match rest with
      | c :: more => if isDigit c then some (digit b * 10 + digit c, more) else some (digit b, rest)
      | [] => some (digit b, [])

def behind? (b : UInt8) : Text → Option Text
  | [] => none
  | c :: rest => if c = b then some rest else none

def date? (text : Text) : Option (Moment × Text) := do
  let digits := text.takeWhile isDigit
  if digits.length ≠ 4 then none
  else
    let (month, rest) ← number? (← behind? (byte '-') (text.dropWhile isDigit))
    let (day, rest) ← number? (← behind? (byte '-') rest)
    let year := digits.foldl (fun n b => n * 10 + digit b) 0
    if 1 ≤ month && month ≤ 12 && 1 ≤ day && day ≤ daysIn year month then
      some (⟨year, month, day, 0, 0, 0, 0, 0⟩, rest)
    else none

/-- The number of nanoseconds of the digits behind a point; the tenth and later ones do not
count. -/
def nanoseconds (digits : Text) : Nat :=
  ((digits ++ List.replicate 9 (byte '0')).take 9).foldl (fun n b => n * 10 + digit b) 0

def secondFraction : Text → Nat × Text
  | point :: first :: rest =>
    if (point = byte '.' || point = byte ',') && isDigit first then
      (nanoseconds (first :: rest.takeWhile isDigit), rest.dropWhile isDigit)
    else (0, point :: first :: rest)
  | text => (0, text)

def clock? (day : Moment) (text : Text) : Option (Moment × Text) := do
  let (hour, rest) ← number? text
  let (minute, rest) ← number? (← behind? (byte ':') rest)
  let (second, rest) ← number? (← behind? (byte ':') rest)
  let (nanosecond, rest) := secondFraction rest
  if hour < 24 && minute < 60 && second < 60 then
    some ({ day with hour, minute, second, nanosecond }, rest)
  else none

/-- The minutes of a time zone: the letter `Z`, or a sign, hours and minutes of two digits each
with a colon between them. -/
def zone? : Text → Option Int
  | [z] => if z = byte 'Z' then some 0 else none
  | [sign, h, hh, colon, m, mm] =>
    let hours := digit h * 10 + digit hh
    let minutes := digit m * 10 + digit mm
    if colon = byte ':' && [h, hh, m, mm].all isDigit && hours ≤ 24 && minutes ≤ 60 then
      if sign = byte '+' then some (hours * 60 + minutes : Nat)
      else if sign = byte '-' then some (-(hours * 60 + minutes : Nat))
      else none
    else none
  | _ => none

def ofText? (text : Text) : Option Moment := do
  let (day, rest) ← date? text
  match rest with
  | [] => some day
  | b :: rest =>
    if b = byte 'T' || b = byte 't' then
      let (moment, rest) ← clock? day rest
      return { moment with offset := ← zone? rest }
    else if b = byte ' ' then
      match ← clock? day (rest.dropWhile (· = byte ' ')) with
      | (moment, []) => some moment
      | _ => none
    else none

/-! ## Writing -/

def padded (width n : Nat) : Text :=
  let digits := Text.ofNat n
  List.replicate (width - digits.length) (byte '0') ++ digits

def zoneText (offset : Int) : Text :=
  let minutes := offset.natAbs
  (if offset < 0 then byte '-' else byte '+') :: padded 2 (minutes / 60) ++ padded 2 (minutes % 60)

/-- The fraction of a second behind a point, without zeros at its end. -/
def fractionText (nanosecond : Nat) : Text :=
  let digits := ((padded 9 nanosecond).reverse.dropWhile (· = byte '0')).reverse
  if digits.isEmpty then [] else byte '.' :: digits

/-- The text of a moment: date, time of day, and the time zone by its minutes and its name. -/
def text (moment : Moment) : Text :=
  let date := padded 4 moment.year ++ "-" ++ padded 2 moment.month ++ "-" ++ padded 2 moment.day
  let clock := padded 2 moment.hour ++ ":" ++ padded 2 moment.minute ++ ":" ++
    padded 2 moment.second ++ fractionText moment.nanosecond
  let zone : Text := if moment.offset = 0 then "UTC" else zoneText moment.offset
  date ++ " " ++ clock ++ " " ++ zoneText moment.offset ++ " " ++ zone

end Moment

end SelectionCheck
