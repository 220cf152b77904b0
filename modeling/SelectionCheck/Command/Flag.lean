import SelectionCheck.Command.Duration

/-!
# Flags of a command line

A flag is given as `--name value` or `--name=value`, anywhere among the operands; behind `--`
everything is an operand. A switch needs no value, and a letter may stand for it; several letters
can share one hyphen. Each flag takes a value of its own kind, which is checked when the command
line is read. What begins with `-test.` is passed over.
-/

namespace SelectionCheck

open Text (byte)

/-- What a flag takes. A switch takes a truth value, which may be left out. -/
inductive FlagKind
  | text
  | integer
  | fraction
  | duration
  | switch
deriving DecidableEq, Repr

/-- A flag of a command: its name, the letter that abbreviates it, and what it takes. -/
structure Flag where
  name : Text
  letter : Option UInt8
  kind : FlagKind
deriving DecidableEq, Repr

inductive FlagFault
  | malformed (argument : Text)
  | unknown (name : Text)
  | unknownLetter (letter : UInt8) (letters : Text)
  | missingValue (argument : Text)
  | badValue (flag : Text) (value : Text) (reason : Text)
deriving DecidableEq, Repr

def FlagFault.message : FlagFault → Text
  | .malformed argument => "bad flag syntax: " ++ argument
  | .unknown name => "unknown flag: --" ++ name
  | .unknownLetter letter letters =>
    "unknown shorthand flag: " ++ Text.quoteByte letter ++ " in -" ++ letters
  | .missingValue argument => "flag needs an argument: " ++ argument
  | .badValue flag value reason =>
    "invalid argument " ++ Text.quote value ++ " for " ++ Text.quote flag ++ " flag: " ++ reason

/-! ## Values -/

def truth? (word : Text) : Option Bool :=
  if (["1", "t", "T", "TRUE", "true", "True"] : List Text).contains word then some true
  else if (["0", "f", "F", "FALSE", "false", "False"] : List Text).contains word then some false
  else none

def FlagKind.fault? (kind : FlagKind) (value : Text) : Option Text :=
  let reading (what : Text) (reason : Text) : Text :=
    "strconv." ++ what ++ ": parsing " ++ Text.quote value ++ ": " ++ reason
  match kind with
  | .text => none
  | .switch =>
    if (truth? value).isSome then none else some (reading "ParseBool" "invalid syntax")
  | .integer =>
    match Text.integer value with
    | .ok _ => none
    | .error fault => some (reading "ParseInt" fault.message)
  | .fraction =>
    match Text.fraction value with
    | .ok _ => none
    | .error fault => some (reading "ParseFloat" fault.message)
  | .duration =>
    match Duration.ofText value with
    | .ok _ => none
    | .error fault => some (fault.message value)

def Flag.title (flag : Flag) : Text :=
  match flag.letter with
  | some letter => byte '-' :: letter :: ", --" ++ flag.name
  | none => "--" ++ flag.name

/-! ## Command lines -/

/-- A command line taken apart: the values given to flags, the latest first, and the operands. -/
structure CommandLine where
  given : List (Text × Text)
  operands : List Text
deriving DecidableEq, Repr

namespace CommandLine

def value? (line : CommandLine) (name : Text) : Option Text :=
  line.given.lookup name

def isOn (line : CommandLine) (name : Text) : Bool :=
  ((line.value? name).bind truth?).getD false

/-- The command line with a further value, if the flag takes it. -/
def give (line : CommandLine) (flag : Flag) (value : Text) : Except FlagFault CommandLine :=
  match flag.kind.fault? value with
  | none => .ok { line with given := (flag.name, value) :: line.given }
  | some reason => .error (.badValue flag.title value reason)

def splitLong (argument : Text) : Text × Option Text :=
  let body := argument.drop 2
  let name := body.takeWhile (· != byte '=')
  match body.dropWhile (· != byte '=') with
  | [] => (name, none)
  | _ :: value => (name, some value)

/-- Whether the argument is a flag: a hyphen with something behind it. -/
def isFlag (argument : Text) : Bool :=
  Text.startsWith "-" argument && 1 < argument.length

/-- What a letter gives to its switch, and the letters behind it: an equals sign and something
behind it are the value. -/
def letterValue (rest : Text) : Text × Text :=
  match rest with
  | b :: value :: more => if b = byte '=' then (value :: more, []) else ("true", rest)
  | _ => ("true", rest)

/-- Gives the switches that are abbreviated by letters. Each letter takes at least one byte, so
`fuel` need not exceed the length. -/
def giveLetters (flags : List Flag) :
    (fuel : Nat) → CommandLine → Text → Except FlagFault CommandLine
  | _, line, [] => .ok line
  | 0, line, _ :: _ => .ok line
  | fuel + 1, line, b :: rest =>
    if Text.startsWith "test." (b :: rest) then .ok line
    else
      match flags.find? (·.letter = some b) with
      | none => .error (.unknownLetter b (b :: rest))
      | some flag =>
        match line.give flag (letterValue rest).1 with
        | .error fault => .error fault
        | .ok line => giveLetters flags fuel line (letterValue rest).2

def longFlag (flags : List Flag) (argument : Text) : Except FlagFault Flag :=
  let name := (splitLong argument).1
  if name.isEmpty || name.head? = some (byte '-') then .error (.malformed argument)
  else
    match flags.find? (·.name = name) with
    | some flag => .ok flag
    | none => .error (.unknown name)

/-- Takes the arguments apart that follow a command line already read. Operands are collected
latest first. -/
def readFrom (flags : List Flag) : CommandLine → List Text → Except FlagFault CommandLine
  | line, [] => .ok { line with operands := line.operands.reverse }
  | line, argument :: rest =>
    if !isFlag argument then readFrom flags { line with operands := argument :: line.operands } rest
    else if argument = "--" then .ok { line with operands := line.operands.reverse ++ rest }
    else if Text.startsWith "--" argument then
      match longFlag flags argument with
      | .error fault => .error fault
      | .ok flag =>
        match (splitLong argument).2, rest with
        | some value, rest =>
          match line.give flag value with
          | .error fault => .error fault
          | .ok line => readFrom flags line rest
        | none, rest =>
          if flag.kind = .switch then
            readFrom flags { line with given := (flag.name, "true") :: line.given } rest
          else
            match rest with
            | [] => .error (.missingValue argument)
            | value :: rest =>
              match line.give flag value with
              | .error fault => .error fault
              | .ok line => readFrom flags line rest
    else
      match giveLetters flags argument.length line argument.tail with
      | .error fault => .error fault
      | .ok line => readFrom flags line rest

def ofArguments (flags : List Flag) (arguments : List Text) : Except FlagFault CommandLine :=
  readFrom flags ⟨[], []⟩ arguments

end CommandLine

end SelectionCheck
