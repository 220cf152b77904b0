import SelectionCheck.Text.Utf8
import SelectionCheck.Yaml.Plain

/-!
# Scalars in YAML

A text is written in the lightest style that reads back as the same text: plain, else between
single quotes, else between double quotes with escapes; a text of several lines is written as a
literal block where that is possible. Long scalars are folded: a lone space becomes a line break
when it would stand behind the last column of the line.
-/

namespace SelectionCheck.Yaml

inductive Style
  | plain
  | singleQuoted
  | doubleQuoted
  | literal
deriving DecidableEq, Repr

def lineWidth : Nat := 80

def codes (text : Text) : List Nat :=
  (Text.runes text).map fun
    | .char code => code
    | .stray _ => Text.replacement

def isPrintable (code : Nat) : Bool :=
  code = 0x0A || (0x20 ≤ code && code ≤ 0x7E) || (0xA0 ≤ code && code ≤ 0xD7FF) ||
    (0xE000 ≤ code && code ≤ 0xFFFD && code != 0xFEFF)

def isBreakCode (code : Nat) : Bool :=
  code = 0x0A || code = 0x0D || code = 0x85 || code = 0x2028 || code = 0x2029

def isBlankCode (code : Nat) : Bool :=
  code = 0x20 || code = 0x09

/-- Whether some character satisfies `p` together with its neighbours; `previous` stands before
the text. -/
def anyInContext (p : (previous : Option Nat) → (code : Nat) → (next : Option Nat) → Bool) :
    (previous : Option Nat) → List Nat → Bool
  | _, [] => false
  | previous, code :: rest => p previous code rest.head? || anyInContext p (some code) rest

def isOneOf (characters : String) (code : Nat) : Bool :=
  characters.toList.any (·.toNat = code)

/-- Whether a mark begins a comment or ends a key at this place, which no plain scalar may
contain. -/
def isBlockIndicator (previous : Option Nat) (code : Nat) (next : Option Nat) : Bool :=
  match previous with
  | none =>
    isOneOf "#,[]\x7b\x7d&*!|>'\"%@\x60" code || (isOneOf "?:-" code && next.all isBlankCode)
  | some before =>
    (isOneOf ":" code && next.all isBlankCode) ||
      (isOneOf "#" code && (isBlankCode before || isBreakCode before || before = 0))

def isFlowIndicator (previous : Option Nat) (code : Nat) (next : Option Nat) : Bool :=
  isBlockIndicator previous code next ||
    match previous with
    | none => isOneOf "?:" code
    | some _ => isOneOf ",?[]\x7b\x7d:" code

def startsLikeMarker (text : Text) : Bool :=
  Text.startsWith "---" text || Text.startsWith "..." text

structure Admitted where
  plain : Bool
  plainInBrackets : Bool
  singleQuoted : Bool
  literal : Bool

def Admitted.ofText (text : Text) : Admitted :=
  let cs := codes text
  let has (p : Option Nat → Nat → Option Nat → Bool) : Bool := anyInContext p none cs
  let special := cs.any (!isPrintable ·)
  let lineBreaks := cs.any isBreakCode
  let atEnds (p : Nat → Bool) : Bool := cs.head?.any p || cs.getLast?.any p
  let breakThenSpace := has fun previous code _ => previous.any isBreakCode && code = 0x20
  let spaceThenBreak := has fun previous code _ => previous.any (· = 0x20) && isBreakCode code
  let oneLine := !special && !lineBreaks && !atEnds (· = 0x20)
  { plain := oneLine && !startsLikeMarker text && !has isBlockIndicator
    plainInBrackets := oneLine && !cs.isEmpty && !startsLikeMarker text && !has isFlowIndicator
    singleQuoted := !special && !breakThenSpace && !spaceThenBreak
    literal := !cs.isEmpty && !special && !spaceThenBreak && !cs.getLast?.any (· = 0x20) }

def Style.ofText (inBrackets : Bool) (text : Text) : Style :=
  let admitted := Admitted.ofText text
  if text.contains 0x0A then
    if admitted.literal && !inBrackets then .literal else .doubleQuoted
  else if !readsAsText text then .doubleQuoted
  else if (if inBrackets then admitted.plainInBrackets else admitted.plain) then .plain
  else if admitted.singleQuoted then .singleQuoted
  else .doubleQuoted

/-! ## Writing -/

def newLine (indent : Nat) : Text :=
  0x0A :: List.replicate indent 0x20

/-- Whether the space before `rest` is replaced by a line break: it stands behind the last column,
and no space is beside it. -/
def isFold (column : Nat) (afterSpace : Bool) (rest : List Nat) : Bool :=
  !afterSpace && lineWidth < column && rest.head?.any (· != 0x20)

def plainFrom (indent : Nat) : (column : Nat) → (afterSpace : Bool) → List Nat → Text
  | _, _, [] => []
  | column, afterSpace, code :: rest =>
    if code = 0x20 then
      if isFold column afterSpace rest then newLine indent ++ plainFrom indent indent true rest
      else 0x20 :: plainFrom indent (column + 1) true rest
    else Text.encode code ++ plainFrom indent (column + 1) false rest

/-- What stands between single quotes, from the given column on: a single quote is doubled. A
space is never folded at the `start`. -/
def singleQuotedFrom (indent : Nat) :
    (column : Nat) → (start afterSpace afterBreak : Bool) → List Nat → Text
  | _, _, _, _, [] => []
  | column, start, afterSpace, afterBreak, code :: rest =>
    if code = 0x20 then
      if !start && isFold column afterSpace rest then
        newLine indent ++ singleQuotedFrom indent indent false true afterBreak rest
      else 0x20 :: singleQuotedFrom indent (column + 1) false true afterBreak rest
    else if isBreakCode code then
      Text.encode code ++ singleQuotedFrom indent 0 false afterSpace true rest
    else
      let margin := if afterBreak then indent - column else 0
      let spelling := if code = 0x27 then Text.ofString "\x27\x27" else Text.encode code
      let width := if code = 0x27 then 2 else 1
      List.replicate margin 0x20 ++ spelling ++
        singleQuotedFrom indent (column + margin + width) false false false rest

def escapeLetter? (code : Nat) : Option Char :=
  match code with
  | 0x00 => some '0'
  | 0x07 => some 'a'
  | 0x08 => some 'b'
  | 0x09 => some 't'
  | 0x0A => some 'n'
  | 0x0B => some 'v'
  | 0x0C => some 'f'
  | 0x0D => some 'r'
  | 0x1B => some 'e'
  | 0x22 => some '"'
  | 0x5C => some '\\'
  | 0x85 => some 'N'
  | 0xA0 => some '_'
  | 0x2028 => some 'L'
  | 0x2029 => some 'P'
  | _ => none

def escape (code : Nat) : Text :=
  match escapeLetter? code with
  | some letter => [Text.byte '\\', Text.byte letter]
  | none =>
    if code ≤ 0xFF then "\\x" ++ Text.upperHex 2 code
    else if code ≤ 0xFFFF then "\\u" ++ Text.upperHex 4 code
    else "\\U" ++ Text.upperHex 8 code

def needsEscape (code : Nat) : Bool :=
  !isPrintable code || isBreakCode code || code = 0x22 || code = 0x5C

/-- What stands between double quotes, from the given column on. A space is never folded at the
`start` or the end; behind a fold a further space is marked by a backslash. -/
def doubleQuotedFrom (indent : Nat) : (column : Nat) → (start afterSpace : Bool) → List Nat → Text
  | _, _, _, [] => []
  | column, start, afterSpace, code :: rest =>
    if needsEscape code then
      escape code ++ doubleQuotedFrom indent (column + (escape code).length) false false rest
    else if code = 0x20 then
      if !start && !afterSpace && lineWidth < column && !rest.isEmpty then
        let mark : Text := if rest.head? = some 0x20 then "\\" else []
        newLine indent ++ mark ++ doubleQuotedFrom indent (indent + mark.length) false true rest
      else 0x20 :: doubleQuotedFrom indent (column + 1) false true rest
    else Text.encode code ++ doubleQuotedFrom indent (column + 1) false false rest

/-- The lines of a literal block; each line that is not empty is indented. -/
def literalFrom (indent : Nat) : (afterBreak : Bool) → List Nat → Text
  | _, [] => []
  | afterBreak, code :: rest =>
    if isBreakCode code then Text.encode code ++ literalFrom indent true rest
    else
      List.replicate (if afterBreak then indent else 0) 0x20 ++ Text.encode code ++
        literalFrom indent false rest

/-- The hints behind the bar of a literal block: an explicit indentation if the text begins with a
blank or a break, and how the breaks at the end are kept. -/
def literalHints (cs : List Nat) : Text :=
  let indentation : Text := if cs.head?.any (fun c => c = 0x20 || isBreakCode c) then "2" else []
  let chomping : Text :=
    match cs.reverse with
    | [] => "-"
    | [last] => if isBreakCode last then "+" else "-"
    | last :: previous :: _ =>
      if !isBreakCode last then "-" else if isBreakCode previous then "+" else []
  indentation ++ chomping

/-- A text as a scalar that begins at the given column; further lines have the given indentation. -/
def scalar (inBrackets : Bool) (indent column : Nat) (text : Text) : Text :=
  let cs := codes text
  match Style.ofText inBrackets text with
  | .plain => plainFrom indent column false cs
  | .singleQuoted => "\x27" ++ singleQuotedFrom indent (column + 1) true false false cs ++ "\x27"
  | .doubleQuoted => "\"" ++ doubleQuotedFrom indent (column + 1) true false cs ++ "\""
  | .literal => "|" ++ literalHints cs ++ "\n" ++ literalFrom indent true cs

end SelectionCheck.Yaml
