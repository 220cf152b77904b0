import SelectionCheck.Yaml.Cursor
import SelectionCheck.Yaml.Token

/-!
# Quoted scalars

A quoted scalar may run over several lines. Blanks around the end of a line do not count; one end of
a line stands for a blank, and of several ends of lines all but the first are kept. Between double
quotes a backslash begins an escape, and hides the end of a line.
-/

namespace SelectionCheck.Yaml

open Character

/-- What stands in a value for ends of lines: the first one and those that follow it. -/
def foldedBreaks (first rest : List Char) : List Char :=
  if first = ['\n'] then if rest.isEmpty then [' '] else rest else first ++ rest

/-- Blanks and ends of lines that were read: blanks, the first end of a line and the further ones,
all in reverse, and whether a line has ended. -/
structure Gap where
  blanks : List Char
  first : List Char
  rest : List Char
  broken : Bool

def Gap.none : Gap := ⟨[], [], [], false⟩

def Gap.folded (gap : Gap) : List Char :=
  if gap.broken then (foldedBreaks gap.first gap.rest.reverse).reverse else gap.blanks

namespace Reading

/-- Reads blanks and ends of lines that follow `gap`. A tab before the column `indent` is a fault if
a line has ended. -/
def gapFrom (start : Mark) (indent : Int) : (fuel : Nat) → Gap → Reading Gap
  | 0, gap => return gap
  | fuel + 1, gap => do
    let c ← next
    if isBlank c then
      if gap.broken && c = '\t' && (← here).column < indent then fail start .plainTab
      else
        skip
        need 1
        gapFrom start indent fuel
          (if gap.broken then gap else { gap with blanks := c :: gap.blanks })
    else if isBreak c then
      need 2
      let line ← takeLine
      need 1
      gapFrom start indent fuel <|
        if gap.broken then { gap with rest := line ++ gap.rest }
        else { gap with blanks := [], first := line, broken := true }
    else return gap

/-- What the character behind a backslash stands for: a character, or one with a number of so many
hexadecimal digits. -/
inductive Escape
  | character (c : Char)
  | numbered (digits : Nat)

def escape? : Char → Option Escape
  | '0' => some (.character '\x00')
  | 'a' => some (.character '\x07')
  | 'b' => some (.character '\x08')
  | 't' | '\t' => some (.character '\t')
  | 'n' => some (.character '\n')
  | 'v' => some (.character '\x0b')
  | 'f' => some (.character '\x0c')
  | 'r' => some (.character '\r')
  | 'e' => some (.character '\x1b')
  | ' ' => some (.character ' ')
  | '"' => some (.character '"')
  | '\'' => some (.character '\'')
  | '\\' => some (.character '\\')
  | 'N' => some (.character '\u0085')
  | '_' => some (.character '\u00a0')
  | 'L' => some (.character '\u2028')
  | 'P' => some (.character '\u2029')
  | 'x' => some (.numbered 2)
  | 'u' => some (.numbered 4)
  | 'U' => some (.numbered 8)
  | _ => none

/-- The number of the next `count` hexadecimal digits, of which the first lies `offset` characters
ahead, behind digits of the given value. -/
def hexNumber (start : Mark) : (count offset value : Nat) → Reading Nat
  | 0, _, value => return value
  | count + 1, offset, value => do
    match hexDigit? (← peek offset) with
    | some digit => hexNumber start count (offset + 1) (value * 16 + digit)
    | none => fail start .hexDigits

def skipMany : (count : Nat) → Reading Unit
  | 0 => return ()
  | count + 1 => do
    skip
    skipMany count

def escaped (start : Mark) : Reading Char := do
  match escape? (← peek 1) with
  | none => fail start .unknownEscape
  | some (.character c) =>
    skipMany 2
    return c
  | some (.numbered digits) =>
    skipMany 2
    need digits
    let code ← hexNumber start digits 0 0
    if 0xD800 ≤ code && code ≤ 0xDFFF || 0x10FFFF < code then fail start .escapedCharacter
    else
      skipMany digits
      return Char.ofNat code

/-- Reads the characters of a quoted scalar up to a blank, the end of a line or its closing quote,
behind `read` in reverse. The second result says that an end of a line was hidden. -/
def quotedRun (single : Bool) (start : Mark) :
    (fuel : Nat) → (read : List Char) → Reading (List Char × Bool)
  | 0, read => return (read, false)
  | fuel + 1, read => do
    let c ← next
    if isWordEnd c then return (read, false)
    else if single && c = '\'' then
      if (← peek 1) = '\'' then
        skipMany 2
        need 2
        quotedRun single start fuel ('\'' :: read)
      else return (read, false)
    else if !single && c = '"' then return (read, false)
    else if !single && c = '\\' then
      if isBreak (← peek 1) then
        need 3
        skip
        skipLine
        return (read, true)
      else
        let c ← escaped start
        need 2
        quotedRun single start fuel (c :: read)
    else
      skip
      need 2
      quotedRun single start fuel (c :: read)

/-- Reads a quoted scalar up to its closing quote, behind `read` in reverse. -/
def quotedFrom (single : Bool) (start : Mark) :
    (fuel : Nat) → (read : List Char) → Reading (List Char)
  | 0, read => return read
  | fuel + 1, read => do
    need 4
    if ← atDocumentMark then fail start .documentMark
    else if (← next) = endMark then fail start .endOfStream
    else
      let (read, hidden) ← quotedRun single start (← get).size read
      need 1
      if (← next) = (if single then '\'' else '"') then return read
      else
        let gap ← gapFrom start 0 (← get).size { Gap.none with broken := hidden }
        quotedFrom single start fuel (gap.folded ++ read)

def quotedScalar (single : Bool) : Reading Token := do
  let start ← here
  skip
  let value ← quotedFrom single start ((← get).size + 1) []
  skip
  return ⟨.scalar false (spell value.reverse), start, ← here⟩

end Reading

end SelectionCheck.Yaml
