import SelectionCheck.Json.Decode
import SelectionCheck.Text.Quoted

/-!
# Faults of JSON texts

A text is followed byte by byte, with a stack of open brackets. The first byte that cannot stand in
its place is the fault, and the message says what it stands behind or what was looked for. At its
end a text is followed by one more blank, so that an unfinished word or number shows as such; only
if that blank could stand there the text is called unfinished.
-/

namespace SelectionCheck.Json

open Text (byte)

inductive Expectation
  | value
  | objectKey
  | afterKey
  | afterMember
  | afterItem
  | afterTop
  | stringLiteral
  | stringEscape
  | codePoint
  | number
  | decimals
  | exponent
  | word (whole : Text) (expected : UInt8)
  | depth
deriving DecidableEq, Repr

inductive JsonFault
  | unexpected (b : UInt8) (expectation : Expectation)
  | unfinished
deriving DecidableEq, Repr

def Expectation.message : Expectation → Text
  | .value => "looking for beginning of value"
  | .objectKey => "looking for beginning of object key string"
  | .afterKey => "after object key"
  | .afterMember => "after object key:value pair"
  | .afterItem => "after array element"
  | .afterTop => "after top-level value"
  | .stringLiteral => "in string literal"
  | .stringEscape => "in string escape code"
  | .codePoint => "in \\u hexadecimal character escape"
  | .number => "in numeric literal"
  | .decimals => "after decimal point in numeric literal"
  | .exponent => "in exponent of numeric literal"
  | .word whole expected => "in literal " ++ whole ++ " (expecting '" ++ [expected] ++ "')"
  | .depth => "exceeded max depth"

def JsonFault.message : JsonFault → Text
  | .unexpected b expectation =>
    "invalid character " ++ Text.quoteByte b ++ " " ++ expectation.message
  | .unfinished => "unexpected end of JSON input"

/-- What has been read of a number: its sign, a leading zero, other digits, the point, digits behind
it, the letter of the exponent, its sign, and its digits. -/
inductive NumberPart
  | sign
  | zero
  | digits
  | point
  | decimals
  | exponent
  | exponentSign
  | exponentDigits
deriving DecidableEq, Repr

/-- Where the follower of a text is. -/
inductive Station
  | value
  | itemOrClose
  | keyOrClose
  | key
  | colon
  | behindValue
  | string
  | escape
  | codePoint (left : Nat)
  | number (part : NumberPart)
  | word (whole rest : Text)
deriving DecidableEq, Repr

/-- The follower of a text: its station, the open brackets, and whether a string is a key. -/
structure Follower where
  station : Station
  frames : List Frame
  inKey : Bool
deriving DecidableEq, Repr

namespace Follower

def start : Follower := ⟨.value, [], false⟩

def goto (follower : Follower) (station : Station) : Except JsonFault Follower :=
  .ok { follower with station }

def refuse (b : UInt8) (expectation : Expectation) : Except JsonFault Follower :=
  .error (.unexpected b expectation)

def opened (follower : Follower) (b : UInt8) (frame : Frame) (station : Station) :
    Except JsonFault Follower :=
  if follower.frames.length < nestingLimit then .ok ⟨station, frame :: follower.frames, false⟩
  else refuse b .depth

def beginValue (follower : Follower) (b : UInt8) : Except JsonFault Follower :=
  if b = 0x7B then follower.opened b .object .keyOrClose
  else if b = byte '[' then follower.opened b .array .itemOrClose
  else if b = 0x22 then .ok { follower with station := .string, inKey := false }
  else if b = byte '-' then follower.goto (.number .sign)
  else if b = byte '0' then follower.goto (.number .zero)
  else if Text.isDigit b then follower.goto (.number .digits)
  else if b = byte 't' then follower.goto (.word "true" "rue")
  else if b = byte 'f' then follower.goto (.word "false" "alse")
  else if b = byte 'n' then follower.goto (.word "null" "ull")
  else refuse b .value

def beginKey (follower : Follower) (b : UInt8) : Except JsonFault Follower :=
  if b = 0x22 then .ok { follower with station := .string, inKey := true }
  else refuse b .objectKey

def closed (follower : Follower) : Except JsonFault Follower :=
  .ok { follower with station := .behindValue, frames := follower.frames.tail, inKey := false }

def behindValue (follower : Follower) (b : UInt8) : Except JsonFault Follower :=
  if isBlank b then follower.goto .behindValue
  else
    match follower.frames with
    | [] => refuse b .afterTop
    | .object :: _ =>
      if b = byte ',' then follower.goto .key
      else if b = 0x7D then follower.closed
      else refuse b .afterMember
    | .array :: _ =>
      if b = byte ',' then follower.goto .value
      else if b = byte ']' then follower.closed
      else refuse b .afterItem

/-- A byte behind a number that may end there, or go on with a point, if `point`, or with an
exponent. -/
def numberEnd (follower : Follower) (b : UInt8) (point : Bool) : Except JsonFault Follower :=
  if point && b = byte '.' then follower.goto (.number .point)
  else if Text.toLower b = byte 'e' then follower.goto (.number .exponent)
  else follower.behindValue b

def inNumber (follower : Follower) (b : UInt8) : NumberPart → Except JsonFault Follower
  | .sign =>
    if b = byte '0' then follower.goto (.number .zero)
    else if Text.isDigit b then follower.goto (.number .digits)
    else refuse b .number
  | .zero => follower.numberEnd b true
  | .digits =>
    if Text.isDigit b then follower.goto (.number .digits) else follower.numberEnd b true
  | .point => if Text.isDigit b then follower.goto (.number .decimals) else refuse b .decimals
  | .decimals =>
    if Text.isDigit b then follower.goto (.number .decimals) else follower.numberEnd b false
  | .exponent =>
    if b = byte '+' || b = byte '-' then follower.goto (.number .exponentSign)
    else if Text.isDigit b then follower.goto (.number .exponentDigits)
    else refuse b .exponent
  | .exponentSign =>
    if Text.isDigit b then follower.goto (.number .exponentDigits) else refuse b .exponent
  | .exponentDigits =>
    if Text.isDigit b then follower.goto (.number .exponentDigits) else follower.behindValue b

def inString (follower : Follower) (b : UInt8) : Except JsonFault Follower :=
  if b = 0x22 then follower.goto (if follower.inKey then .colon else .behindValue)
  else if b = byte '\\' then follower.goto .escape
  else if b < 0x20 then refuse b .stringLiteral
  else follower.goto .string

def step (follower : Follower) (b : UInt8) : Except JsonFault Follower :=
  match follower.station with
  | .value => if isBlank b then .ok follower else follower.beginValue b
  | .itemOrClose =>
    if isBlank b then .ok follower
    else if b = byte ']' then follower.closed
    else follower.beginValue b
  | .keyOrClose =>
    if isBlank b then .ok follower
    else if b = 0x7D then follower.closed
    else follower.beginKey b
  | .key => if isBlank b then .ok follower else follower.beginKey b
  | .colon =>
    if isBlank b then .ok follower
    else if b = byte ':' then follower.goto .value
    else refuse b .afterKey
  | .behindValue => follower.behindValue b
  | .string => follower.inString b
  | .escape =>
    if b = byte 'u' then follower.goto (.codePoint 4)
    else if isEscapeLetter b then follower.goto .string
    else refuse b .stringEscape
  | .codePoint left =>
    if Text.isHexDigit b then
      follower.goto (if left ≤ 1 then .string else .codePoint (left - 1))
    else refuse b .codePoint
  | .number part => follower.inNumber b part
  | .word _ [] => follower.behindValue b
  | .word whole (expected :: rest) =>
    if b = expected then follower.goto (if rest.isEmpty then .behindValue else .word whole rest)
    else refuse b (.word whole expected)

end Follower

def faultFrom? : Follower → Text → Option JsonFault
  | follower, [] =>
    match follower.step 0x20 with
    | .error fault => some fault
    | .ok ⟨.behindValue, [], _⟩ => none
    | .ok _ => some .unfinished
  | follower, b :: rest =>
    match follower.step b with
    | .error fault => some fault
    | .ok follower => faultFrom? follower rest

def byteFault? (text : Text) : Option JsonFault :=
  match text.foldlM Follower.step Follower.start with
  | .error fault => some fault
  | .ok _ => none

def fault? (text : Text) : Option JsonFault :=
  faultFrom? Follower.start text

end SelectionCheck.Json
