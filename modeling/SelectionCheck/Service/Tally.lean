import SelectionCheck.Text.Basic

/-!
# The tally of checked requests

Each checked request is measured by its number of findings. The tally keeps requests with and
without findings apart and tells for each kind how many there were, the extremes, and how the
numbers spread over fixed intervals.
-/

namespace SelectionCheck

/-- The row of a tally for requests that were all valid or all invalid. -/
structure TallyRow where
  valid : Bool
  count : Nat
  least : Nat
  greatest : Nat
  buckets : List Nat
deriving DecidableEq, Repr

namespace TallyRow

/-- The bounds between the intervals: a number on a bound belongs to the interval above it. -/
def bounds : List Nat := [1, 2, 4, 8, 16, 32, 64]

def bucketOf (n : Nat) : Nat :=
  bounds.countP (· ≤ n)

def bucketCounts (numbers : List Nat) : List Nat :=
  (List.range (bounds.length + 1)).map fun i => numbers.countP (bucketOf · = i)

def tags (row : TallyRow) : Text :=
  if row.valid then "graphql_valid=true" else "graphql_valid=false"

def ofNumbers? (valid : Bool) : List Nat → Option TallyRow
  | [] => none
  | first :: rest =>
    some ⟨valid, rest.length + 1, rest.foldl min first, rest.foldl max first,
      bucketCounts (first :: rest)⟩

end TallyRow

/-- The rows for requests with the given numbers of findings, in the order of their tags. -/
def tally (numbers : List Nat) : List TallyRow :=
  (TallyRow.ofNumbers? false (numbers.filter (· ≠ 0))).toList ++
    (TallyRow.ofNumbers? true (numbers.filter (· = 0))).toList

end SelectionCheck
