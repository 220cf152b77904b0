import SelectionCheck.Command.Script

/-!
# Directories as values

A directory that is given by the files in it can stand for the file system: a path is walked step by
step from there, and each step needs a directory to start from. Of what lies outside of the
directory only other directories and the empty device are known.
-/

namespace SelectionCheck

structure Directory where
  files : List (List Text × Text)

namespace Directory

open Text (byte)

def ofFiles (files : List (Text × Text)) : Directory :=
  ⟨files.map fun (path, content) =>
    ((path.splitOn (byte '/')).filter fun name => !name.isEmpty && name ≠ ".", content)⟩

def nameLimit : Nat := 255

def pathLimit : Nat := 4096

/-- What a walk has come to: how many directories above the given one it is, and the steps from
there. -/
structure Place where
  above : Nat
  steps : List Text

def isDirectory (directory : Directory) (place : Place) : Bool :=
  place.steps.isEmpty || (place.above = 0 && directory.files.any fun (path, _) =>
    place.steps.length < path.length && place.steps.isPrefixOf path)

def content (directory : Directory) (place : Place) : Except ReadFault Text :=
  if directory.isDirectory place then .error .isDirectory
  else
    match place.above, directory.files.lookup place.steps with
    | 0, some text => .ok text
    | _, _ => .error .notFound

def step (place : Place) (name : Text) : Except ReadFault Place :=
  if name.isEmpty || name = "." then .ok place
  else if name = ".." then
    .ok (if place.steps.isEmpty then ⟨place.above + 1, []⟩ else ⟨place.above, place.steps.dropLast⟩)
  else if nameLimit < name.length then .error .longName
  else .ok ⟨place.above, place.steps ++ [name]⟩

def walk (directory : Directory) : Place → List Text → Except ReadFault Place
  | place, [] => .ok place
  | place, name :: names =>
    match directory.content place with
    | .error .isDirectory =>
      match step place name with
      | .error fault => .error fault
      | .ok place => walk directory place names
    | .error fault => .error fault
    | .ok _ => .error .notDirectory

def emptyDevice : Text := "/dev/null"

def read (directory : Directory) (path : Text) : Except ReadFault Text :=
  if path = emptyDevice then .ok []
  else if path.contains 0 then .error .invalidName
  else if path.isEmpty then .error .notFound
  else if pathLimit ≤ path.length then .error .longName
  else
    let start : Place := if path.head? = some (byte '/') then ⟨1, []⟩ else ⟨0, []⟩
    match directory.walk start (path.splitOn (byte '/')) with
    | .error fault => .error fault
    | .ok place => directory.content place

end Directory

end SelectionCheck
