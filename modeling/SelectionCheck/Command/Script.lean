import SelectionCheck.Text.Basic

/-!
# Scripts

What a command does with its surroundings is described by a script: it asks for files and writes
to the output, and goes on depending on the answers. A script is a value, so it can be carried out
on the real file system or be followed in a given world, and both follow the same script.
-/

namespace SelectionCheck

inductive ReadFault
  | notFound
  | isDirectory
  | notDirectory
  | longName
  | invalidName
deriving DecidableEq, Repr

def ReadFault.message (path : Text) : ReadFault → Text
  | .notFound => "open " ++ path ++ ": no such file or directory"
  | .isDirectory => "read " ++ path ++ ": is a directory"
  | .notDirectory => "open " ++ path ++ ": not a directory"
  | .longName => "open " ++ path ++ ": file name too long"
  | .invalidName => "open " ++ path ++ ": invalid argument"

/-- A description of a run that ends with a result: it reads files and writes to the output. The
answer to a write says whether the output took it. -/
inductive Script (α : Type)
  | done (result : α)
  | read (path : Text) (next : Except ReadFault Text → Script α)
  | write (text : Text) (next : Bool → Script α)

namespace Script

variable {α β : Type}

def bind : Script α → (α → Script β) → Script β
  | .done result, next => next result
  | .read path answer, next => .read path fun a => (answer a).bind next
  | .write text answer, next => .write text fun a => (answer a).bind next

@[simp]
theorem done_bind (result : α) (next : α → Script β) :
    (Script.done result).bind next = next result := rfl

@[simp]
theorem read_bind (path : Text) (answer : Except ReadFault Text → Script α) (next : α → Script β) :
    (Script.read path answer).bind next = .read path fun a => (answer a).bind next := rfl

@[simp]
theorem write_bind (text : Text) (answer : Bool → Script α) (next : α → Script β) :
    (Script.write text answer).bind next = .write text fun a => (answer a).bind next := rfl

instance : Monad Script where
  pure := .done
  bind := bind

def readFile (path : Text) : Script (Except ReadFault Text) :=
  .read path .done

/-- Writes to the output; an empty text is not written at all. -/
def put (text : Text) : Script Bool :=
  if text.isEmpty then .done true else .write text .done

end Script

/-- The surroundings in which a script is followed: its files, and whether the output takes what
is written. -/
structure World where
  files : Text → Except ReadFault Text
  writable : Bool

/-- Follows a script in a world: what the output took, and the result. -/
def World.follow {α : Type} (world : World) : Script α → Text × α
  | .done result => ([], result)
  | .read path next => world.follow (next (world.files path))
  | .write text next =>
    if world.writable then
      let (output, result) := world.follow (next true)
      (text ++ output, result)
    else world.follow (next false)

end SelectionCheck
