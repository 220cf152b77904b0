import SelectionCheck.Failure
import SelectionCheck.Json.Fault
import SelectionCheck.Request.Multipart

/-!
# Query requests over HTTP

A query comes in the address of a GET or HEAD request, or in the body of a POST request as JSON,
as a form or as the bare document. `QueryRequest.ofWeb` takes it out of a request or says why the
request is rejected. A query in the address counts until the body names another one.

The name of the operation and the variables of a GET or HEAD request are looked for in the address
and behind it in the body, if that is announced as one of several parts. How such bodies are read
is left open in `QueryRequest.ofWebWith`; the library reads them with `Multipart.pairs`.
-/

namespace SelectionCheck

/-- What a client asks to be checked. Values of variables keep their spelling; of two with one
name the later counts. -/
structure QueryRequest where
  query : Text
  operationName : Text
  bindings : Option (List (Text × Text))
deriving DecidableEq, Repr

inductive JsonTarget
  | request
  | query
  | operationName
  | bindings
  | addressBindings
deriving DecidableEq, Repr

def JsonTarget.label : JsonTarget → Text
  | .request => "Go value of type graphqlhttp.Request"
  | .query => "Go struct field Request.query of type string"
  | .operationName => "Go struct field Request.operationName of type string"
  | .bindings => "Go struct field Request.variables of type map[string]json.RawMessage"
  | .addressBindings => "Go value of type map[string]json.RawMessage"

/-- Why the content of a request could not be read: it is no JSON, it ends before a value does, a
value is of the wrong kind, or there is more of it than may be read. -/
inductive BodyFault
  | text (fault : Json.JsonFault)
  | ended (blank : Bool)
  | kind (found : Text) (target : JsonTarget)
  | tooLarge
deriving DecidableEq, Repr

def BodyFault.message : BodyFault → Text
  | .text fault => fault.message
  | .ended blank => if blank then "EOF" else "unexpected EOF"
  | .kind found target => "json: cannot unmarshal " ++ found ++ " into " ++ target.label
  | .tooLarge => "http: request body too large"

inductive Rejection
  | method (method : Text)
  | invalidType (header : Text)
  | unknownType (type : Text)
  | unreadable (fault : BodyFault)
  | missingQuery
deriving DecidableEq, Repr

namespace Rejection

def status : Rejection → Nat
  | .method _ => 405
  | .invalidType _ | .unknownType _ => 415
  | .unreadable _ | .missingQuery => 400

def message : Rejection → Text
  | .method name => "parse graphql request: method " ++ name ++ " not allowed"
  | .invalidType header => "parse graphql request: invalid content type: " ++ header
  | .unknownType type => "parse graphql request: unrecognized content type: " ++ type
  | .unreadable _ => "parse graphql request: "
  | .missingQuery => "parse graphql request: missing query"

def cause? : Rejection → Option BodyFault
  | .unreadable fault => some fault
  | _ => none

def toFailure (r : Rejection) : Failure :=
  .refusal r.message r.status (r.cause?.map BodyFault.message)

end Rejection

namespace QueryRequest

def variablesOf (members : List (Text × List Json.Lexeme)) : List (Text × Text) :=
  members.map fun m => (m.1, Json.spelling m.2)

/-- Why a text is not what variables in the address have to be: one JSON value, an object or null.
-/
def addressFault (text : Text) : BodyFault :=
  match Json.fault? text with
  | some fault => .text fault
  | none => .kind (Json.kindName ((Json.onlyValue text).getD [])) .addressBindings

def addressVariables? (text : Text) : Option (Option (List (Text × Text))) :=
  if text.isEmpty then some none
  else do
    let value ← Json.onlyValue text
    if Json.isNull value then return none
    let members ← Json.members? value
    return some (variablesOf members)

/-! ## JSON bodies -/

/-- The character as which one counts in a name: a letter without regard to case. Two characters
outside ASCII are other forms of a letter in it, the long s and the kelvin sign. -/
def foldCode (code : Nat) : Nat :=
  if code = 0x17F then 0x73
  else if code = 0x212A then 0x6B
  else if 0x41 ≤ code && code ≤ 0x5A then code + 0x20
  else code

def foldName (name : Text) : Text :=
  (Text.runes name).flatMap fun
    | .char code => Text.encode (foldCode code)
    | .stray b => [b]

/-- A text member: a string replaces the text before, null leaves it. -/
def textMember (target : JsonTarget) (before : Text) (value : List Json.Lexeme) :
    Except BodyFault Text :=
  if Json.isNull value then .ok before
  else
    match Json.string? value with
    | some text => .ok text
    | none => .error (.kind (Json.kindName value) target)

/-- The variables member: null takes all variables away, an object adds to them. -/
def variablesMember (before : Option (List (Text × Text))) (value : List Json.Lexeme) :
    Except BodyFault (Option (List (Text × Text))) :=
  if Json.isNull value then .ok none
  else
    match Json.members? value with
    | some members => .ok (some (before.getD [] ++ variablesOf members))
    | none => .error (.kind (Json.kindName value) .bindings)

/-- Takes over one member of a JSON body. Members of other names are ignored. -/
def withMember (request : QueryRequest) (m : Text × List Json.Lexeme) :
    Except BodyFault QueryRequest := do
  let name := foldName m.1
  if name = "query" then
    return { request with query := ← textMember .query request.query m.2 }
  else if name = "operationname" then
    return { request with
      operationName := ← textMember .operationName request.operationName m.2 }
  else if name = "variables" then
    return { request with bindings := ← variablesMember request.bindings m.2 }
  else return request

/-- Whether a value ends by itself. A word or a number ends only with what follows it. -/
def endsItself (value : List Json.Lexeme) : Bool :=
  value.getLast?.any fun l => l.kind = .mark .closeBrace || l.kind = .mark .closeBracket

/-- Why a body has no first value: a byte that cannot stand in its place, or else the end of what
can be read. -/
def bodyFault (body : Body) : BodyFault :=
  match Json.byteFault? body.bytes with
  | some fault => .text fault
  | none => if body.cut then .tooLarge else .ended (body.bytes.all Json.isBlank)

/-- Takes over a JSON body: its first value, an object or null. A value that a cut body leaves
open to go on is not read. -/
def withJson (request : QueryRequest) (body : Body) : Except BodyFault QueryRequest :=
  match Json.firstValue (Json.lexemes body.bytes) with
  | none => .error (bodyFault body)
  | some (value, rest) =>
    if body.cut && rest.isEmpty && !endsItself value &&
        body.bytes.getLast?.any (!Json.isBlank ·) then
      .error .tooLarge
    else if Json.isNull value then .ok request
    else
      match Json.members? value with
      | some members => members.foldlM withMember request
      | none => .error (.kind (Json.kindName value) .request)

/-! ## Requests -/

def formLimit : Nat := 10 * Nat.pow 2 20

/-- The pairs of a form body; a body that cannot be read to its end has none. -/
def formOf (body : Body) : FormData :=
  if body.cut || formLimit < body.bytes.length then [] else FormData.ofText body.bytes

def partsOf (parts : PartReader) (request : WebRequest) : FormData :=
  let announced := request.header "Content-Type"
  if MediaType.ofText? announced = some ("multipart/form-data" : Text) then
    parts announced request.body
  else []

/-- A GET or HEAD request: the query is in the address, all else may also be in the parts of its
body, where it counts if the address does not name it. -/
def ofAddress (address parts : FormData) : Except Rejection QueryRequest :=
  let data := address ++ parts
  match addressVariables? (data.value "variables") with
  | none => .error (.unreadable (addressFault (data.value "variables")))
  | some bindings => .ok ⟨address.value "query", data.value "operationName", bindings⟩

def ofJson (address : FormData) (body : Body) : Except Rejection QueryRequest :=
  match withJson ⟨address.value "query", [], none⟩ body with
  | .error fault => .error (.unreadable fault)
  | .ok request => .ok request

/-- A POST request with a form body: the pairs of the body come before those of the address. -/
def ofForm (address : FormData) (body : Body) : QueryRequest :=
  let data := formOf body ++ address
  ⟨data.value "query", data.value "operationName", none⟩

/-- A POST request whose body is the document itself; an empty body leaves the query of the
address. -/
def ofDocument (address : FormData) (body : Body) : Except Rejection QueryRequest :=
  if body.cut then .error (.unreadable .tooLarge)
  else .ok ⟨if body.bytes.isEmpty then address.value "query" else body.bytes, [], none⟩

def ofPost (address : FormData) (request : WebRequest) : Except Rejection QueryRequest :=
  let announced := request.header "Content-Type"
  match MediaType.ofText? announced with
  | none => .error (.invalidType announced)
  | some type =>
    if type = "application/json" then ofJson address request.body
    else if type = "application/x-www-form-urlencoded" then .ok (ofForm address request.body)
    else if type = "application/graphql" then ofDocument address request.body
    else .error (.unknownType type)

def ofWebUnchecked (parts : PartReader) (request : WebRequest) : Except Rejection QueryRequest :=
  let address := FormData.ofText request.addressQuery
  if request.method = "GET" || request.method = "HEAD" then
    ofAddress address (partsOf parts request)
  else if request.method = "POST" then ofPost address request
  else .error (.method request.method)

/-- What a request asks for, or why it is rejected, with `parts` to read bodies of several parts. -/
def ofWebWith (parts : PartReader) (request : WebRequest) : Except Rejection QueryRequest :=
  match ofWebUnchecked parts request with
  | .error rejection => .error rejection
  | .ok asked => if asked.query.isEmpty then .error .missingQuery else .ok asked

def ofWeb (request : WebRequest) : Except Rejection QueryRequest :=
  ofWebWith Multipart.pairs request

end QueryRequest

end SelectionCheck
