import SelectionCheck.Config.Value

/-!
# Dates in TOML

A date has four digits for the year and two each for month and day; a time of day has two each for
hour, minute and second, and perhaps a fraction of a second. A date with a time of day and a time
zone is a moment; without the time zone, and likewise a date or a time of day alone, it is only
its text.
-/

namespace SelectionCheck.Toml

open Text (byte isDigit)

inductive DateFault
  | dateForm
  | digit
  | impossible
  | dateTimeForm
  | separator
  | timeForm
  | hour
  | hourColon
  | minute
  | minuteColon
  | second
  | fraction
  | fractionDigits
  | zone
  | zoneSign
  | zoneColon
  | zoneHour
  | zoneMinute
  | behindZone
  | behindTime
  | behindDateTime
deriving DecidableEq, Repr

def DateFault.message : DateFault → Text
  | .dateForm => "dates are expected to have the format YYYY-MM-DD"
  | .digit => "expected digit (0-9)"
  | .impossible => "impossible date"
  | .dateTimeForm =>
    "local datetimes are expected to have the format YYYY-MM-DDTHH:MM:SS[.NNNNNNNNN]"
  | .separator => "datetime separator is expected to be T or a space"
  | .timeForm => "times are expected to have the format HH:MM:SS[.NNNNNN]"
  | .hour => "hour cannot be greater 23"
  | .hourColon => "expecting colon between hours and minutes"
  | .minute => "minutes cannot be greater 59"
  | .minuteColon => "expecting colon between minutes and seconds"
  | .second => "seconds cannot be greater 60"
  | .fraction => "need at least one digit after fraction point"
  | .fractionDigits => "nanoseconds need at least one digit"
  | .zone => "invalid date-time timezone"
  | .zoneSign => "invalid timezone offset character"
  | .zoneColon => "expected a : separator"
  | .zoneHour => "invalid timezone offset hours"
  | .zoneMinute => "invalid timezone offset minutes"
  | .behindZone => "extra bytes at the end of the timezone"
  | .behindTime => "extra characters at the end of a local time"
  | .behindDateTime => "extra characters at the end of a local date time"

inductive DateKind
  | date
  | time
  | dateTime
  | moment
deriving DecidableEq, Repr

def digitsValue (text : Text) : Except DateFault Nat :=
  if text.all isDigit then .ok (text.foldl (fun n b => n * 10 + Moment.digit b) 0)
  else .error .digit

def slice (start length : Nat) (text : Text) : Text :=
  (text.drop start).take length

def day (text : Text) : Except DateFault Moment := do
  if text.length ≠ 10 || text[4]? ≠ some (byte '-') || text[7]? ≠ some (byte '-') then
    .error .dateForm
  else
    let year ← digitsValue (slice 0 4 text)
    let month ← digitsValue (slice 5 2 text)
    let day ← digitsValue (slice 8 2 text)
    if 1 ≤ month && month ≤ 12 && 1 ≤ day && day ≤ Moment.daysIn year month then
      return ⟨year, month, day, 0, 0, 0, 0, 0⟩
    else .error .impossible

def secondFraction (text : Text) : Except DateFault (Text × Text) :=
  match text with
  | [] => .ok ([], [])
  | point :: rest =>
    if point != byte '.' then .ok ([], text)
    else if rest.isEmpty then .error .fractionDigits
    else if !rest.head?.any isDigit then .error .fraction
    else .ok (point :: (rest.takeWhile isDigit).take 9, rest.dropWhile isDigit)

/-- The time of day at the head of a text on the given day, the spelling of the fraction of its last
second, and what follows it. -/
def clock (day : Moment) (text : Text) : Except DateFault (Moment × Text × Text) := do
  if text.length < 8 then .error .timeForm
  else
    let hour ← digitsValue (slice 0 2 text)
    if 23 < hour then .error .hour
    else if text[2]? ≠ some (byte ':') then .error .hourColon
    else
      let minute ← digitsValue (slice 3 2 text)
      if 59 < minute then .error .minute
      else if text[5]? ≠ some (byte ':') then .error .minuteColon
      else
        let second ← digitsValue (slice 6 2 text)
        if 60 < second then .error .second
        else
          let (fraction, rest) ← secondFraction (text.drop 8)
          let nanosecond := Moment.nanoseconds fraction.tail
          return ({ day with hour, minute, second, nanosecond }, fraction, rest)

/-- The date and time of day at the head of a text, the spelling of the fraction of its last second,
and what follows it. -/
def dayAndClock (text : Text) : Except DateFault (Moment × Text × Text) := do
  if text.length < 11 then .error .dateTimeForm
  else
    let day ← day (text.take 10)
    if text[10]?.any fun b => b = byte 'T' || b = byte 't' || b = byte ' ' then
      clock day (text.drop 11)
    else .error .separator

def zone (text : Text) : Except DateFault Int := do
  if text.head?.any fun b => b = byte 'Z' || b = byte 'z' then
    if text.length = 1 then return 0 else .error .behindZone
  else if text.length ≠ 6 then .error .zone
  else if !text.head?.any fun b => b = byte '+' || b = byte '-' then .error .zoneSign
  else if text[3]? ≠ some (byte ':') then .error .zoneColon
  else
    let hours ← digitsValue (slice 1 2 text)
    if 23 < hours then .error .zoneHour
    else
      let minutes ← digitsValue (slice 4 2 text)
      if 59 < minutes then .error .zoneMinute
      else
        let offset : Int := (hours * 60 + minutes : Nat)
        return if text.head? = some (byte '-') then -offset else offset

def nextDay (m : Moment) : Moment :=
  if m.day < Moment.daysIn m.year m.month then { m with hour := 0, day := m.day + 1 }
  else if m.month < 12 then { m with hour := 0, day := 1, month := m.month + 1 }
  else { m with hour := 0, day := 1, month := 1, year := m.year + 1 }

def withoutLeapSecond (m : Moment) : Moment :=
  if m.second < 60 then m
  else if m.minute < 59 then { m with second := 0, minute := m.minute + 1 }
  else if m.hour < 23 then { m with second := 0, minute := 0, hour := m.hour + 1 }
  else nextDay { m with second := 0, minute := 0 }

def dateText (m : Moment) : Text :=
  Moment.padded 4 m.year ++ "-" ++ Moment.padded 2 m.month ++ "-" ++ Moment.padded 2 m.day

def clockText (m : Moment) (fraction : Text) : Text :=
  Moment.padded 2 m.hour ++ ":" ++ Moment.padded 2 m.minute ++ ":" ++ Moment.padded 2 m.second ++
    fraction

def dateValue (kind : DateKind) (text : Text) : Except DateFault SettingValue :=
  match kind with
  | .date => return .text (dateText (← day text))
  | .time => do
    let (m, fraction, rest) ← clock ⟨0, 1, 1, 0, 0, 0, 0, 0⟩ text
    if rest.isEmpty then return .text (clockText m fraction) else .error .behindTime
  | .dateTime => do
    let (m, fraction, rest) ← dayAndClock text
    if rest.isEmpty then return .text (dateText m ++ "T" ++ clockText m fraction)
    else .error .behindDateTime
  | .moment => do
    let (m, _, rest) ← dayAndClock text
    return .moment (withoutLeapSecond { m with offset := ← zone rest })

end SelectionCheck.Toml
