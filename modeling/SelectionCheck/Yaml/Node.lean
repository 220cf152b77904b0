import SelectionCheck.Yaml.Meaning
import SelectionCheck.Yaml.Token

/-!
# Nodes of YAML

A document is a tree of scalars, sequences and mappings. A node that has an anchor can be referred
to; the anchored nodes are numbered in the order of their beginnings, and a reference holds the
number of the node that it stands for.
-/

namespace SelectionCheck.Yaml

/-- A node: each has the line where it begins, counted from one, and all but references a tag. The
`place` of a reference tells it from the others. -/
inductive Node
  | scalar (line : Nat) (tag : Text) (value : Text)
  | sequence (line : Nat) (tag : Text) (items : List Node)
  | mapping (line : Nat) (tag : Text) (entries : List (Node × Node))
  | reference (line place : Nat) (anchor : Text) (target : Nat)

structure Tree where
  root : Node
  anchored : List (Nat × Node)

namespace Node

def line : Node → Nat
  | .scalar line _ _ | .sequence line _ _ | .mapping line _ _ | .reference line _ _ _ => line

/-- The text by which keys are compared: that of a scalar, and the anchor of a reference. -/
def keyText : Node → Text
  | .scalar _ _ value => value
  | .reference _ _ anchor _ => anchor
  | .sequence _ _ _ | .mapping _ _ _ => []

def sameKind : Node → Node → Bool
  | .scalar _ _ _, .scalar _ _ _ | .sequence _ _ _, .sequence _ _ _
  | .mapping _ _ _, .mapping _ _ _ | .reference _ _ _ _, .reference _ _ _ _ => true
  | _, _ => false

def isMapping : Node → Bool
  | .mapping _ _ _ => true
  | _ => false

def isMerge : Node → Bool
  | .scalar _ tag value => tag = Tag.merge && value = "<<"
  | _ => false

/-- The tag of a scalar: the one it has, unless that is a lone exclamation mark, or the one of its
spelling. -/
def scalarTag (tag : Text) (plain : Bool) (value : Text) : Text :=
  if !tag.isEmpty && tag ≠ "!" then Tag.short tag
  else if !plain then Tag.str
  else if value = "<<" then Tag.merge
  else (Meaning.ofScalar true value).tag

/-- The tag of a collection: the one it has, unless that is a lone exclamation mark, or `usual`. -/
def collectionTag (tag usual : Text) : Text :=
  if !tag.isEmpty && tag ≠ "!" then Tag.short tag else usual

def absent (place : Mark) : Node :=
  .scalar (place.line + 1) Tag.null []

end Node

end SelectionCheck.Yaml
