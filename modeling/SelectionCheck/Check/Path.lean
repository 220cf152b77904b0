import SelectionCheck.Text.Basic

/-!
# Paths of response keys

A path grows by one key on the way down a document and is cut back on the way up. It is kept
innermost key first, so both moves are constant time and a path that was listed earlier is not
touched by later moves.
-/

namespace SelectionCheck

/-- A path of keys, innermost first. -/
structure FieldPath where
  reversed : List Text
deriving DecidableEq, Repr

namespace FieldPath

def root : FieldPath := ⟨[]⟩

def push (path : FieldPath) (key : Text) : FieldPath := ⟨key :: path.reversed⟩

def pop (path : FieldPath) : FieldPath := ⟨path.reversed.tail⟩

def toList (path : FieldPath) : List Text := path.reversed.reverse

@[simp]
theorem toList_root : root.toList = [] := rfl

@[simp]
theorem toList_push (path : FieldPath) (key : Text) :
    (path.push key).toList = path.toList ++ [key] := by
  simp [toList, push]

end FieldPath

end SelectionCheck
