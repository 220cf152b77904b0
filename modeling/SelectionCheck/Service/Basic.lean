import SelectionCheck.Check.Query
import SelectionCheck.Log.Entry
import SelectionCheck.Report.Basic
import SelectionCheck.Request.Basic
import SelectionCheck.Service.Cache
import SelectionCheck.Service.Digest

/-!
# The checking service

The service answers query requests with the findings about the query. It remembers results under a
digest of the query; an entry counts only if it belongs to the very same query, so two queries
with one digest never get each other's result.

Everything that a request causes besides the answer is part of the result: what is logged, what
the trace of the check says, and the store afterwards.
-/

namespace SelectionCheck

structure Remembered where
  query : Text
  findings : List Finding
deriving Repr

def Remembered.findingsFor? (entry : Remembered) (query : Text) : Option (List Finding) :=
  if entry.query = query then some entry.findings else none

/-- A service for one schema. A store of capacity zero remembers nothing. -/
structure Service where
  schema : Schema
  digest : Text → UInt64
  parts : PartReader
  cache : Cache UInt64 Remembered

structure CheckSpan where
  operationName : Text
  findingCount : Nat
  cacheHit : Bool
  code : Nat
  message : Text
deriving DecidableEq, Repr

structure Verdict where
  findings : List Finding
  span : CheckSpan
  logs : List Log.Entry

structure WebResponse where
  status : Nat
  headers : List (Text × Text)
  body : Text
deriving DecidableEq, Repr

/-- The result of serving a request: the verdict unless it was rejected, the answer and the log. -/
structure Served where
  verdict : Except Rejection Verdict
  response : WebResponse
  logs : List Log.Entry

namespace Service

def defaultCacheSize : Int := 1024

def bodyLimit : Nat := Nat.pow 2 20

/-- A service that remembers up to `cacheSize` results and reads bodies of several parts with
`parts`. -/
def createWith (parts : PartReader) (schema : Schema) (cacheSize : Int) : Except Text Service :=
  if cacheSize < 0 then .error ("new graphql handler: negative cache size " ++ Text.ofInt cacheSize)
  else .ok ⟨schema, Digest.ofText, parts, .empty cacheSize.toNat⟩

def create (schema : Schema) (cacheSize : Int) : Except Text Service :=
  createWith Multipart.pairs schema cacheSize

def remembers (service : Service) : Bool :=
  0 < service.cache.capacity

def remembered? (service : Service) (query : Text) : Option (List Finding) :=
  (service.cache.find? (service.digest query)).bind (·.findingsFor? query)

def touch (service : Service) (query : Text) : Service :=
  { service with cache := service.cache.touch (service.digest query) }

def remember (service : Service) (key : Text) (entry : Remembered) : Service :=
  { service with cache := service.cache.add (service.digest key) entry }

def check (service : Service) (query : Text) : List Finding × Bool × Service :=
  if service.remembers then
    match service.remembered? query with
    | some findings => (findings, true, service.touch query)
    | none =>
      let findings := service.schema.check query
      (findings, false, (service.touch query).remember query ⟨query, findings⟩)
  else (service.schema.check query, false, service)

/-- The verdict on a request with the given findings; `hit` says whether they were remembered. A
request with findings is logged. -/
def verdict (request : QueryRequest) (findings : List Finding) (hit : Bool) : Verdict :=
  let count := findings.length
  match findings with
  | [] => ⟨[], ⟨request.operationName, 0, hit, 0, []⟩, []⟩
  | first :: _ =>
    let entry : Log.Entry := ⟨.debug, "GraphQL request has errors",
      [("operation_name", .text request.operationName), ("error_count", .integer count)]⟩
    ⟨findings, ⟨request.operationName, count, hit, 3, first.message⟩, [entry]⟩

def validate (service : Service) (request : QueryRequest) : Verdict × Service :=
  let (findings, hit, service) := service.check request.query
  (verdict request findings hit, service)

def responseBody (findings : List Finding) : Text :=
  (Json.object (("valid", .bool findings.isEmpty) ::
    Json.unlessEmpty "errors" findings Finding.toJson)).render

def requestIdHeader : Text := "X-Request-Id"

def rejected (requestId method : Text) (rejection : Rejection) : WebResponse × Log.Entry :=
  let message := rejection.toFailure.message
  let allowed : List (Text × Text) :=
    if rejection.status = 405 then [("Allow", "GET, HEAD, POST")] else []
  let headers : List (Text × Text) := [(requestIdHeader, requestId),
    ("Content-Type", "text/plain; charset=utf-8"), ("X-Content-Type-Options", "nosniff")]
  (⟨rejection.status, headers ++ allowed, message ++ "\n"⟩,
    ⟨.debug, "Rejected GraphQL request",
      [("method", .text method), ("status", .integer rejection.status), ("error", .text message)]⟩)

def accepted (requestId : Text) (findings : List Finding) : WebResponse :=
  let body := responseBody findings
  ⟨200, [(requestIdHeader, requestId), ("Content-Type", "application/json; charset=utf-8"),
    ("Content-Length", Text.ofNat body.length)], body⟩

def writeFailed (request : QueryRequest) : Log.Entry :=
  ⟨.error, "graphqlhttp.Handler.ServeHTTP",
    [("operation_name", .text request.operationName),
      ("error", .text "write graphql response: broken pipe")]⟩

/-- A request as it is read: of its body no more than `bodyLimit`. -/
def bounded (request : WebRequest) : WebRequest :=
  { request with body := .limited bodyLimit request.body.bytes }

/-- The identifier of a request. A request without one gets the `fresh` one. -/
def requestId (fresh : Text) (request : WebRequest) : Text :=
  let given := request.header requestIdHeader
  if given.isEmpty then fresh else given

/-- The result of serving a request that was rejected, or for which there is a verdict. `writable`
says whether the connection takes the body of the answer. -/
def served (fresh : Text) (writable : Bool) (request : WebRequest)
    (outcome : Except Rejection (QueryRequest × Verdict)) : Served :=
  let requestId := requestId fresh request
  let sent (response : WebResponse) : WebResponse :=
    if writable then response else { response with body := [] }
  let identified (entry : Log.Entry) : Log.Entry :=
    entry.withFields [("request_id", .text requestId)]
  match outcome with
  | .error rejection =>
    let (response, entry) := rejected requestId request.method rejection
    ⟨.error rejection, sent response, [identified entry]⟩
  | .ok (asked, verdict) =>
    let logs := verdict.logs ++ if writable then [] else [writeFailed asked]
    ⟨.ok verdict, sent (accepted requestId verdict.findings), logs.map identified⟩

def serve (service : Service) (fresh : Text) (writable : Bool) (request : WebRequest) :
    Served × Service :=
  match QueryRequest.ofWebWith service.parts (bounded request) with
  | .error rejection => (served fresh writable request (.error rejection), service)
  | .ok asked =>
    let (verdict, service) := service.validate asked
    (served fresh writable request (.ok (asked, verdict)), service)

end Service

end SelectionCheck
