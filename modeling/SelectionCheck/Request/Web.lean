import SelectionCheck.Text.Basic

/-!
# HTTP requests

A body is read through a limit: what is behind the limit cannot be read, and reaching it is a
fault of its own.
-/

namespace SelectionCheck

/-- A body as far as it can be read; `cut` says that more of it exists than may be read. -/
structure Body where
  bytes : Text
  cut : Bool
deriving DecidableEq, Repr

namespace Body

def whole (bytes : Text) : Body := ⟨bytes, false⟩

/-- A body of which at most `limit` bytes may be read. -/
def limited (limit : Nat) (bytes : Text) : Body :=
  if limit < bytes.length then ⟨bytes.take limit, true⟩ else whole bytes

end Body

/-- An HTTP request to the query endpoint: its method, the part of the address behind the question
mark, its headers and its body. -/
structure WebRequest where
  method : Text
  addressQuery : Text
  headers : List (Text × Text)
  body : Body
deriving Repr

namespace WebRequest

/-- The value of a header, whose name is compared without regard to case; without one the empty
text. -/
def header (request : WebRequest) (name : Text) : Text :=
  ((request.headers.find? fun h => h.1.map Text.toLower = name.map Text.toLower).map (·.2)).getD []

end WebRequest

end SelectionCheck
