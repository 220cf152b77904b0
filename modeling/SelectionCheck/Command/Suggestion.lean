import SelectionCheck.Text.Case

/-!
# Suggestions for mistyped commands

A mistyped name is answered with the commands that it is close to: those that it begins, and those
that differ from it by at most two edits. Letter case does not count.
-/

namespace SelectionCheck

/-- One row of the table of edit distances: `diagonal` is the entry to the upper left of the next
one, `left` the one before it, and `above` the rest of the previous row. -/
def editRowFrom (c : UInt8) : (diagonal left : Nat) → Text → (above : List Nat) → List Nat
  | diagonal, left, d :: rest, up :: above =>
    let here := if c = d then diagonal else 1 + min diagonal (min left up)
    here :: editRowFrom c up here rest above
  | _, _, _, _ => []

def editRow (target : Text) (above : List Nat) (c : UInt8) : List Nat :=
  match above with
  | first :: rest => (first + 1) :: editRowFrom c first (first + 1) target rest
  | [] => []

/-- The number of insertions, deletions and replacements that lead from one text to the other. -/
def editDistance (source target : Text) : Nat :=
  (source.foldl (editRow target) (List.range (target.length + 1))).getLast?.getD 0

def suggestions (names : List Text) (typed : Text) : List Text :=
  names.filter fun name =>
    editDistance (Text.lower typed) (Text.lower name) ≤ 2 ||
      Text.startsWith (Text.lower typed) (Text.lower name)

end SelectionCheck
