import SelectionCheck.Text.Case

/-!
# Configurations as variables

Each line gives a value to a variable, as `NAME=value` or `NAME: value`, with the word `export`
before it or not. A value may stand between quotes; in double quotes a backslash keeps the next
character as it is, and a value may go on in further lines until its quote is closed. Outside
single quotes a dollar sign and a name stand for a variable of the environment, or else for one
given before.
-/

namespace SelectionCheck.Dotenv

open Text (byte)

inductive DotenvFault
  | unclosedQuote
  | longLine
  | unset (line : Text)
  | malformed (line : Text)
deriving DecidableEq, Repr

def DotenvFault.message : DotenvFault → Text
  | .unclosedQuote => "missing quotes"
  | .longLine => "bufio.Scanner: token too long"
  | .unset line => "line \x60" ++ line ++ "\x60 has an unset variable"
  | .malformed line => "line \x60" ++ line ++ "\x60 doesn't match format"

/-! ## Lines -/

/-- The text without a byte order mark, behind which there are characters only. -/
def withoutMark (text : Text) : Text :=
  if Text.startsWith Text.byteOrderMark text then Text.toValid (text.drop 3) else text

/-- The lines of a text, of which `line` has been read, latest byte first. A line ends with a
carriage return, a line feed, or both. -/
def linesFrom : (line : Text) → Text → List Text
  | line, [] => if line.isEmpty then [] else [line.reverse]
  | line, b :: rest =>
    if b = 0x0A then line.reverse :: linesFrom [] rest
    else if b = 0x0D then
      match rest with
      | 0x0A :: rest => line.reverse :: linesFrom [] rest
      | rest => line.reverse :: linesFrom [] rest
    else linesFrom (b :: line) rest

def longLineLength : Nat := 65536

def lastIndex? (b : UInt8) (text : Text) : Option Nat :=
  (text.reverse.idxOf? b).map fun i => text.length - 1 - i

def openQuote? (line : Text) : Option UInt8 :=
  let equals := line.dropWhile (· != byte '=')
  let behind := if equals.isEmpty then line.dropWhile (· != byte ':') else equals
  match Text.trim behind.tail with
  | quote :: rest =>
    if behind.length = line.length || !(quote = 0x22 || quote = 0x27) then none
    else
      match lastIndex? quote (Text.trim rest) with
      | some i => if (quote :: rest)[i]? = some (byte '\\') then some quote else none
      | none => some quote
  | [] => none

def closes (quote : UInt8) (further : Text) : Bool :=
  match lastIndex? quote further with
  | some 0 => true
  | some (i + 1) => further[i]? != some (byte '\\')
  | none => false

/-- The lines that belong together, if the last of them is whole: `started` is a line whose quote is
still open. Empty lines and comments are left out. -/
def statements : (started : Option (UInt8 × Text)) → List Text → List (Except DotenvFault Text)
  | none, [] => []
  | some _, [] => [.error .unclosedQuote]
  | none, line :: rest =>
    let trimmed := Text.trim line
    if longLineLength ≤ line.length then [.error .longLine]
    else if trimmed.isEmpty || trimmed.head? = some (byte '#') then statements none rest
    else
      match openQuote? trimmed with
      | some quote => statements (some (quote, trimmed)) rest
      | none => .ok trimmed :: statements none rest
  | some (quote, text), line :: rest =>
    let text := text ++ "\n" ++ line
    if longLineLength ≤ line.length then [.error .unclosedQuote]
    else if closes quote line then .ok text :: statements none rest
    else statements (some (quote, text)) rest

/-! ## Assignments -/

def isBlank (b : UInt8) : Bool :=
  b = 0x20 || b = 0x09 || b = 0x0A || b = 0x0C || b = 0x0D

def isNameByte (b : UInt8) : Bool :=
  Text.isDigit b || Text.isLower (Text.toLower b) || b = byte '_' || b = byte '.'

def isEnding (text : Text) : Bool :=
  match text.dropWhile isBlank with
  | [] => true
  | b :: rest => b = byte '#' && !rest.contains 0x0A

/-- The longest part of a text up to a quote behind which the line may end. `read` is what stands
before, latest first, and `best` what was found there. -/
def quotedFrom (quote : UInt8) : (read : Text) → (best : Option Text) → Text → Option Text
  | _, best, [] => best
  | read, best, b :: rest =>
    let best := if b = quote && isEnding rest then some (b :: read).reverse else best
    quotedFrom quote (b :: read) best rest

def value? (text : Text) : Option Text :=
  let quoted :=
    match text with
    | b :: rest => if b = 0x22 || b = 0x27 then quotedFrom b [b] none rest else none
    | [] => none
  let isPlain (b : UInt8) : Bool := b != byte '#' && b != 0x0A
  quoted.or (if isEnding (text.dropWhile isPlain) then some (text.takeWhile isPlain) else none)

def valueBehindBlank? : Text → Option Text
  | [] => none
  | b :: rest =>
    if isBlank b then (value? rest).or (valueBehindBlank? rest) else none

def pair? (line : Text) : Option (Text × Text) :=
  let name := line.takeWhile isNameByte
  let rest := line.dropWhile isNameByte
  if name.isEmpty then none
  else
    match rest.dropWhile isBlank with
    | b :: behind =>
      if b = byte '=' then (value? (behind.dropWhile isBlank)).map fun value => (name, value)
      else if rest.head? = some (byte ':') then
        (valueBehindBlank? rest.tail).map fun value => (name, value)
      else none
    | [] => none

/-- The name in a line and the spelling of its value; the word `export` may stand before them. -/
def assignment? (line : Text) : Option (Text × Text) :=
  let start := line.dropWhile isBlank
  let behind := start.drop 6
  let exported :=
    if Text.startsWith "export" start && behind.head?.any isBlank then
      pair? (behind.dropWhile isBlank)
    else none
  exported.or (pair? start)

/-! ## Values -/

def replaceEscape (letter new : UInt8) : Text → Text
  | a :: b :: rest =>
    if a = byte '\\' && b = letter then new :: replaceEscape letter new rest
    else a :: replaceEscape letter new (b :: rest)
  | text => text

/-- The text without the backslashes before other bytes than a dollar sign. -/
def dropEscapes : Text → Text
  | a :: b :: rest =>
    if a = byte '\\' && b != byte '$' then b :: dropEscapes rest else a :: dropEscapes (b :: rest)
  | text => text

/-- What stands behind a dollar sign: its spelling, and the name in it, with braces or without. -/
def reference (text : Text) : Text × Text :=
  let opening := text.takeWhile (· = byte '\x7b') |>.take 1
  let rest := text.drop opening.length
  let name := rest.takeWhile fun b => Text.isDigit b || Text.isUpper b || b = byte '_'
  let closing := (rest.drop name.length).takeWhile (· = byte '\x7d') |>.take 1
  (opening ++ name ++ closing, name)

/-- The text with the values of the variables that it refers to, after `skip` bytes of a reference
already read. A backslash before a dollar sign takes away its meaning. -/
def expandFrom (lookup : Text → Text) : (skip : Nat) → Text → Text
  | _, [] => []
  | skip + 1, _ :: rest => expandFrom lookup skip rest
  | 0, b :: rest =>
    if b = byte '\\' && rest.head? = some (byte '$') then
      let spelling := (reference rest.tail).1
      byte '$' :: spelling ++ expandFrom lookup (spelling.length + 1) rest
    else if b = byte '$' then
      let (spelling, name) := reference rest
      (if name.isEmpty then b :: spelling else lookup name) ++
        expandFrom lookup spelling.length rest
    else b :: expandFrom lookup 0 rest

def isBetween (quote : UInt8) (text : Text) : Bool :=
  2 ≤ text.length && text.head? = some quote && text.getLast? = some quote

def meaning (lookup : Text → Text) (spelling : Text) : Text :=
  let text := Text.trim spelling
  let inner := text.tail.dropLast
  if isBetween (0x27) text then inner
  else if isBetween (0x22) text then
    let lines := replaceEscape (byte 'r') 0x0D (replaceEscape (byte 'n') 0x0A inner)
    expandFrom lookup 0 (dropEscapes lines)
  else expandFrom lookup 0 text

/-! ## Configurations -/

/-- The fault of a statement that is no assignment, where `found` has been given before. -/
def faultOf (found : List (Text × Text)) (statement : Text) : DotenvFault :=
  let trimmed := Text.trim statement
  match trimmed.dropWhile (· != byte ' ') with
  | _ :: name =>
    if Text.startsWith "export" trimmed && (found.lookup name).isNone then .unset trimmed
    else .malformed statement
  | [] => .malformed statement

/-- The variables that statements give, those of `found` being given before, latest first. -/
def assignmentsFrom (environment : Text → Option Text) :
    (found : List (Text × Text)) → List (Except DotenvFault Text) →
      Except DotenvFault (List (Text × Text))
  | found, [] => .ok found
  | _, .error fault :: _ => .error fault
  | found, .ok statement :: rest =>
    match assignment? statement with
    | none => .error (faultOf found statement)
    | some (name, spelling) =>
      let lookup (name : Text) : Text := ((environment name).or (found.lookup name)).getD []
      assignmentsFrom environment ((name, meaning lookup spelling) :: found) rest

def assignments (environment : Text → Option Text) (text : Text) :
    Except DotenvFault (List (Text × Text)) :=
  (assignmentsFrom environment [] (statements none (linesFrom [] (withoutMark text)))).map
    List.reverse

end SelectionCheck.Dotenv
