import SelectionCheck.Log.Level

/-!
# Log entries

An entry has a level, a message and named fields. Of two fields with one name the later counts.
-/

namespace SelectionCheck.Log

/-- The value of a field. A decimal is its digits as an integer, divided by a power of ten. -/
inductive Value
  | text (value : Text)
  | integer (value : Int)
  | flag (value : Bool)
  | decimal (digits : Int) (places : Nat)
deriving DecidableEq, Repr

structure Entry where
  level : Level
  message : Text
  fields : List (Text × Value)
deriving DecidableEq, Repr

def Entry.withFields (fields : List (Text × Value)) (entry : Entry) : Entry :=
  { entry with fields := fields ++ entry.fields }

end SelectionCheck.Log
