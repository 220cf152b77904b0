import SelectionCheck.Text.Basic

/-!
# Numbered enumerations

Some enumerations are written by number in exchanged data. An `Enumeration` lists the labels of
consecutive numbers; a number without a label is written as the name of the enumeration with the
number behind it.
-/

namespace SelectionCheck

/-- The labels of consecutive numbers, the first of which is `first`. -/
structure Enumeration where
  name : String
  first : Int
  labels : List String

namespace Enumeration

def label? (e : Enumeration) (n : Int) : Option String :=
  if n < e.first then none else e.labels[(n - e.first).toNat]?

def render (e : Enumeration) (n : Int) : Text :=
  match e.label? n with
  | some label => label
  | none => e.name ++ "(" ++ Text.ofInt n ++ ")"

end Enumeration

end SelectionCheck
