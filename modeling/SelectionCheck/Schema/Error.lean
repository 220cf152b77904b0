import SelectionCheck.Document.Parse

/-!
# Why a document is no schema

Each error names the offending part of the document; its wording begins with the position of that
part. The errors of the reading of the document are reported together, one on each line.
-/

namespace SelectionCheck

inductive SchemaError
  | unreadable (errors : List SourceError)
  | operation (start : Nat)
  | fragment (start : Nat)
  | secondSchema (start : Nat)
  | reservedName (name : Name)
  | duplicateType (name : Name)
  | duplicateEnumValue (name : Name)
  | duplicateField (name : Name) (owner : Text)
  | duplicateArgument (name : Name) (owner field : Text)
  | undefinedName (name : Name)
  | undefinedType (type : TypeRef)
  | notOutput (type : TypeRef)
  | notInput (type : TypeRef)
  | notInterface (name : Name) (owner : Text)
  | duplicateInterface (name : Name) (owner : Text)
  | missingField (owner : Name) (field interface : Text)
  | notMember (name : Name) (owner : Text)
  | duplicateMember (name : Name) (owner : Text)
  | duplicateRoot (start : Nat) (type : OperationType)
  | noQuery
  | rootNotObject (type : OperationType) (name : Text)
deriving DecidableEq, Repr

namespace SchemaError

def offset? : SchemaError → Option Nat
  | .operation start | .fragment start | .secondSchema start | .duplicateRoot start _ => some start
  | .reservedName name | .duplicateType name | .duplicateEnumValue name | .duplicateField name _
  | .duplicateArgument name _ _ | .undefinedName name | .notInterface name _
  | .duplicateInterface name _ | .missingField name _ _ | .notMember name _
  | .duplicateMember name _ => some name.start
  | .undefinedType type | .notOutput type | .notInput type => type.start?
  | .unreadable _ | .noQuery | .rootNotObject _ _ => none

def reason : SchemaError → Text
  | .unreadable _ => ""
  | .operation _ => "operations not allowed"
  | .fragment _ => "fragments not allowed"
  | .secondSchema _ => "multiple schema definitions"
  | .reservedName name => "use of reserved name " ++ Text.quote name.value
  | .duplicateType name => "multiple types with name " ++ Text.quote name.value
  | .duplicateEnumValue name => "multiple enum values with name " ++ Text.quote name.value
  | .duplicateField name owner =>
    "multiple fields named " ++ Text.quote name.value ++ " in " ++ owner
  | .duplicateArgument name owner field =>
    "multiple arguments named " ++ Text.quote name.value ++ " for field " ++ owner ++ "." ++ field
  | .undefinedName name => "undefined type " ++ name.value
  | .undefinedType type => "undefined type " ++ type.render
  | .notOutput type => type.render ++ " is not an output type"
  | .notInput type => type.render ++ " is not an input type"
  | .notInterface name owner =>
    owner ++ " implements " ++ name.value ++ ", which is not an interface"
  | .duplicateInterface name owner => owner ++ " implements " ++ name.value ++ " multiple times"
  | .missingField owner field interface =>
    owner.value ++ " is missing field " ++ Text.quote field ++ " from interface " ++ interface
  | .notMember name owner =>
    "union " ++ owner ++ " member " ++ name.value ++ " is not an object type"
  | .duplicateMember name owner =>
    "union " ++ owner ++ " includes " ++ name.value ++ " multiple times"
  | .duplicateRoot _ type => "multiple " ++ (type.keyword : Text) ++ " root types"
  | .noQuery => "could not find Query type"
  | .rootNotObject type name => (type.keyword : Text) ++ " type " ++ name ++ " must be an object"

def sourceLine (source : Text) (e : SourceError) : Text :=
  match e.position? source with
  | some position => "\n" ++ position.render ++ ": " ++ e.message
  | none => "\n" ++ e.message

def message (source : Text) (e : SchemaError) : Text :=
  match e with
  | .unreadable errors => "parse schema:" ++ errors.flatMap (sourceLine source)
  | e =>
    match e.offset? with
    | some offset =>
      "parse schema: " ++ (Position.ofOffset source offset).render ++ ": " ++ e.reason
    | none => "parse schema: " ++ e.reason

end SchemaError

end SelectionCheck
