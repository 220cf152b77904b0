import SelectionCheck.Yaml.Fault
import SelectionCheck.Yaml.Number

/-!
# The meaning of plain scalars

A scalar without quotes and without a tag is nothing, a truth value, a number, a date or a text, by
its spelling. A tag says which of these it has to be.
-/

namespace SelectionCheck.Yaml

namespace Tag

def null : Text := "!!null"

def bool : Text := "!!bool"

def str : Text := "!!str"

def int : Text := "!!int"

def float : Text := "!!float"

def timestamp : Text := "!!timestamp"

def seq : Text := "!!seq"

def map : Text := "!!map"

def binary : Text := "!!binary"

def merge : Text := "!!merge"

def namespaceName : Text := "tag:yaml.org,2002:"

def short (tag : Text) : Text :=
  if Text.startsWith namespaceName tag then "!!" ++ tag.drop namespaceName.length else tag

def isResolvable (tag : Text) : Bool :=
  [[], str, bool, int, float, null, timestamp].contains tag

end Tag

inductive Meaning
  | absent
  | truth (b : Bool)
  | whole (n : Int)
  | fraction (x : Binary64)
  | moment (m : Moment)
  | text
deriving DecidableEq, Repr

namespace Meaning

def tag : Meaning → Text
  | .absent => Tag.null
  | .truth _ => Tag.bool
  | .whole _ => Tag.int
  | .fraction _ => Tag.float
  | .moment _ => Tag.timestamp
  | .text => Tag.str

def truth? (scalar : Text) : Option Bool :=
  if (["true", "True", "TRUE"] : List Text).contains scalar then some true
  else if (["false", "False", "FALSE"] : List Text).contains scalar then some false
  else none

/-- The meaning of a scalar that begins like a number; it is a date only if `dates`. -/
def ofNumber (dates : Bool) (scalar : Text) : Meaning :=
  match if dates then Moment.ofText? scalar else none with
  | some m => .moment m
  | none =>
    match number? [(2, "0b"), (8, "0o")] scalar with
    | some (.whole n) => .whole n
    | some (.fraction x) => .fraction x
    | none => .text

/-- The meaning of a scalar by its spelling; it is a date only if `dates`. -/
def ofScalar (dates : Bool) (scalar : Text) : Meaning :=
  if absentWords.contains scalar then .absent
  else
    match truth? scalar, specialNumber? scalar, pointed? scalar with
    | some b, _, _ => .truth b
    | none, some x, _ | none, none, some x => .fraction x
    | none, none, none => if beginsNumber scalar then ofNumber dates scalar else .text

/-- The meaning that a tag wants of a scalar, if its spelling allows it. A whole number with a sign
is a fraction too. -/
def convert (wanted scalar : Text) (meaning : Meaning) : Except Fault Meaning :=
  let wrong : Except Fault Meaning := .error (.wrongTag meaning.tag scalar wanted)
  if wanted.isEmpty || wanted = meaning.tag then .ok meaning
  else if wanted = Tag.float then
    match meaning with
    | .whole n =>
      if n < Nat.pow 2 63 then .ok (.fraction (.ofRatio (n < 0) n.natAbs 1)) else wrong
    | _ => wrong
  else wrong

def resolve (tag scalar : Text) : Except Fault Meaning :=
  if tag = Tag.str then .ok .text
  else (ofScalar (tag.isEmpty || tag = Tag.timestamp) scalar).convert tag scalar

end Meaning

end SelectionCheck.Yaml
