import Mathlib.Data.List.Forall2
import SelectionCheck.Proofs.Service.Concurrent

/-!
# Requests that are rejected

A service answers exchanges one after the other, and what it remembers of one may show in the
answer to a later one. The main statement is that rejected requests leave no trace: without them
all other requests are answered as before, whether their results were remembered included. It also
says which requests are rejected, and how. `Decodes` states what a request asks for by its method
and the type of its body; a request is accepted exactly if it decodes to a query that is not empty.
-/

namespace SelectionCheck

/-! ## What a request asks for -/

namespace WebRequest

def address (request : WebRequest) : FormData :=
  FormData.ofText request.addressQuery

def mediaType? (request : WebRequest) : Option Text :=
  MediaType.ofText? (request.header "Content-Type")

def pairs (parts : PartReader) (request : WebRequest) : FormData :=
  request.address ++
    if request.mediaType? = some ("multipart/form-data" : Text) then
      parts (request.header "Content-Type") request.body
    else []

def mediaTypes : List Text :=
  ["application/json", "application/x-www-form-urlencoded", "application/graphql"]

def ForeignMethod (request : WebRequest) : Prop :=
  request.method ∉ [("GET" : Text), "HEAD", "POST"]

/-- The body is announced as none of the types that are read, or in a way that cannot be read. -/
def ForeignType (request : WebRequest) : Prop :=
  request.method = "POST" ∧
    (request.mediaType? = none ∨ ∃ type, request.mediaType? = some type ∧ type ∉ mediaTypes)

/-- What a request asks for. A query in the address counts until the body names another one; only
in a GET or HEAD request it cannot. There the parts of a body may name the operation and give the
variables, if the address does not. -/
inductive Decodes (parts : PartReader) (request : WebRequest) : QueryRequest → Prop
  | address {bindings : Option (List (Text × Text))}
      (hmethod : request.method = "GET" ∨ request.method = "HEAD")
      (hvariables : QueryRequest.addressVariables? ((request.pairs parts).value "variables") =
        some bindings) :
      Decodes parts request
        ⟨request.address.value "query", (request.pairs parts).value "operationName", bindings⟩
  | json {asked : QueryRequest} (hmethod : request.method = "POST")
      (htype : request.mediaType? = some ("application/json" : Text))
      (hbody : QueryRequest.withJson ⟨request.address.value "query", [], none⟩ request.body =
        .ok asked) :
      Decodes parts request asked
  | form (hmethod : request.method = "POST")
      (htype : request.mediaType? = some ("application/x-www-form-urlencoded" : Text)) :
      Decodes parts request
        ⟨FormData.value (QueryRequest.formOf request.body ++ request.address) "query",
          FormData.value (QueryRequest.formOf request.body ++ request.address) "operationName",
          none⟩
  | document (hmethod : request.method = "POST")
      (htype : request.mediaType? = some ("application/graphql" : Text))
      (hbody : request.body.cut = false) :
      Decodes parts request
        ⟨if request.body.bytes.isEmpty then request.address.value "query" else request.body.bytes,
          [], none⟩

end WebRequest

namespace QueryRequest

variable {parts : PartReader} {request : WebRequest} {asked : QueryRequest}

open WebRequest (Decodes)

/-! The branches of the reader. -/

theorem ofWebUnchecked_of_address (h : request.method = "GET" ∨ request.method = "HEAD") :
    ofWebUnchecked parts request =
      match addressVariables? ((request.pairs parts).value "variables") with
      | none => .error (.unreadable (addressFault ((request.pairs parts).value "variables")))
      | some bindings =>
        .ok ⟨request.address.value "query", (request.pairs parts).value "operationName",
          bindings⟩ := by
  rw [ofWebUnchecked, if_pos (by simpa using h)]
  rfl

theorem ofWebUnchecked_of_post (h : request.method = "POST") :
    ofWebUnchecked parts request = ofPost request.address request := by
  rw [ofWebUnchecked, if_neg (by rw [h]; decide), if_pos h]
  rfl

theorem ofWebUnchecked_of_foreign (h : request.ForeignMethod) :
    ofWebUnchecked parts request = .error (.method request.method) := by
  simp only [WebRequest.ForeignMethod, List.mem_cons, List.not_mem_nil, or_false, not_or] at h
  rw [ofWebUnchecked, if_neg (by simp [h.1, h.2.1]), if_neg h.2.2]

theorem ofPost_of_json (h : request.mediaType? = some ("application/json" : Text))
    (address : FormData) : ofPost address request = ofJson address request.body := by
  rw [WebRequest.mediaType?] at h
  rw [ofPost, h]
  rfl

theorem ofPost_of_form
    (h : request.mediaType? = some ("application/x-www-form-urlencoded" : Text))
    (address : FormData) : ofPost address request = .ok (ofForm address request.body) := by
  rw [WebRequest.mediaType?] at h
  rw [ofPost, h]
  rfl

theorem ofPost_of_document (h : request.mediaType? = some ("application/graphql" : Text))
    (address : FormData) : ofPost address request = ofDocument address request.body := by
  rw [WebRequest.mediaType?] at h
  rw [ofPost, h]
  rfl

/-- A body of a type that is not read is rejected for its type. -/
theorem ofPost_of_foreign
    (h : request.mediaType? = none ∨
      ∃ type, request.mediaType? = some type ∧ type ∉ WebRequest.mediaTypes)
    (address : FormData) :
    ∃ rejection, ofPost address request = .error rejection ∧ rejection.status = 415 := by
  rw [WebRequest.mediaType?] at h
  rcases h with hnone | ⟨type, htype, hforeign⟩
  · exact ⟨.invalidType _, by rw [ofPost, hnone], rfl⟩
  · simp only [WebRequest.mediaTypes, List.mem_cons, List.not_mem_nil, or_false,
      not_or] at hforeign
    refine ⟨.unknownType type, ?_, rfl⟩
    rw [ofPost, htype]
    simp only [hforeign, if_false]

/-- The ways in which a request comes: in the address, with a body of a type that is read, with a
body of another type, or with a method that is not served. -/
theorem request_cases (request : WebRequest) :
    (request.method = "GET" ∨ request.method = "HEAD") ∨
    (request.method = "POST" ∧ ∃ type ∈ WebRequest.mediaTypes, request.mediaType? = some type) ∨
    request.ForeignType ∨ request.ForeignMethod := by
  by_cases haddress : request.method = "GET" ∨ request.method = "HEAD"
  · exact .inl haddress
  · by_cases hpost : request.method = "POST"
    · cases htype : request.mediaType? with
      | none => exact .inr (.inr (.inl ⟨hpost, .inl htype⟩))
      | some type =>
          by_cases hmem : type ∈ WebRequest.mediaTypes
          · exact .inr (.inl ⟨hpost, type, hmem, rfl⟩)
          · exact .inr (.inr (.inl ⟨hpost, .inr ⟨type, htype, hmem⟩⟩))
    · refine .inr (.inr (.inr ?_))
      rw [not_or] at haddress
      simp [WebRequest.ForeignMethod, haddress, hpost]

/-- What a request decodes to is what is read. -/
theorem ofWebUnchecked_of_decodes (h : Decodes parts request asked) :
    ofWebUnchecked parts request = .ok asked := by
  cases h with
  | address hmethod hvariables =>
      rw [ofWebUnchecked_of_address hmethod, hvariables]
  | json hmethod htype hbody =>
      rw [ofWebUnchecked_of_post hmethod, ofPost_of_json htype, ofJson, hbody]
  | form hmethod htype => rw [ofWebUnchecked_of_post hmethod, ofPost_of_form htype, ofForm]
  | document hmethod htype hbody =>
      rw [ofWebUnchecked_of_post hmethod, ofPost_of_document htype, ofDocument, hbody,
        if_neg (by decide)]

theorem not_foreign_of_decodes (h : Decodes parts request asked) :
    ¬ request.ForeignMethod ∧ ¬ request.ForeignType := by
  have hread := ofWebUnchecked_of_decodes h
  constructor
  · intro hmethod
    rw [ofWebUnchecked_of_foreign hmethod] at hread
    cases hread
  · rintro ⟨hpost, htype⟩
    obtain ⟨rejection, hrejected, -⟩ := ofPost_of_foreign htype request.address
    rw [ofWebUnchecked_of_post hpost, hrejected] at hread
    cases hread

/-- A request with a method that is served and a type that is read is read, or its content cannot
be decoded. -/
theorem ofWebUnchecked_cases (hmethod : ¬ request.ForeignMethod) (htype : ¬ request.ForeignType) :
    (∃ asked, Decodes parts request asked ∧ ofWebUnchecked parts request = .ok asked) ∨
      ∃ fault, ofWebUnchecked parts request = .error (.unreadable fault) := by
  have hread : ∀ {asked}, Decodes parts request asked →
      ∃ asked, Decodes parts request asked ∧ ofWebUnchecked parts request = .ok asked :=
    fun h => ⟨_, h, ofWebUnchecked_of_decodes h⟩
  rcases request_cases request with haddress | ⟨hpost, type, hmem, hmedia⟩ | hforeign | hforeign
  · cases hvariables : addressVariables? ((request.pairs parts).value "variables") with
    | some bindings => exact .inl (hread (.address haddress hvariables))
    | none =>
        rw [ofWebUnchecked_of_address haddress, hvariables]
        exact .inr ⟨_, rfl⟩
  · rw [WebRequest.mediaTypes] at hmem
    simp only [List.mem_cons, List.not_mem_nil, or_false] at hmem
    rcases hmem with rfl | rfl | rfl
    · cases hbody : withJson ⟨request.address.value "query", [], none⟩ request.body with
      | ok asked => exact .inl (hread (.json hpost hmedia hbody))
      | error fault =>
          refine .inr ⟨fault, ?_⟩
          rw [ofWebUnchecked_of_post hpost, ofPost_of_json hmedia, ofJson, hbody]
    · exact .inl (hread (.form hpost hmedia))
    · cases hbody : request.body.cut with
      | false => exact .inl (hread (.document hpost hmedia hbody))
      | true =>
          refine .inr ⟨.tooLarge, ?_⟩
          rw [ofWebUnchecked_of_post hpost, ofPost_of_document hmedia, ofDocument, hbody,
            if_pos rfl]
  · exact absurd hforeign htype
  · exact absurd hforeign hmethod

end QueryRequest

/-- The content of a request cannot be decoded, or gives no query. -/
def WebRequest.Unreadable (parts : PartReader) (request : WebRequest) : Prop :=
  (¬ ∃ asked, request.Decodes parts asked) ∨ ∃ asked, request.Decodes parts asked ∧ asked.query = []

/-- The status with which a request is rejected, by what is wrong with it. -/
inductive WebRequest.RejectedWith (parts : PartReader) (request : WebRequest) : Nat → Prop
  | method (h : request.ForeignMethod) : RejectedWith parts request 405
  | type (h : request.ForeignType) : RejectedWith parts request 415
  | content (hmethod : ¬ request.ForeignMethod) (htype : ¬ request.ForeignType)
      (h : request.Unreadable parts) : RejectedWith parts request 400

section

variable {parts : PartReader} {request : WebRequest} {asked : QueryRequest}

theorem WebRequest.Decodes.unique {asked' : QueryRequest} (h : request.Decodes parts asked)
    (h' : request.Decodes parts asked') : asked = asked' :=
  Except.ok.inj ((QueryRequest.ofWebUnchecked_of_decodes h).symm.trans
    (QueryRequest.ofWebUnchecked_of_decodes h'))

theorem WebRequest.Decodes.unreadable_iff (h : request.Decodes parts asked) :
    request.Unreadable parts ↔ asked.query = [] := by
  constructor
  · rintro (hnone | ⟨asked', h', hempty⟩)
    · exact absurd ⟨asked, h⟩ hnone
    · rwa [h.unique h']
  · intro hempty
    exact .inr ⟨asked, h, hempty⟩

theorem WebRequest.ForeignMethod.not_foreignType (h : request.ForeignMethod) :
    ¬ request.ForeignType := by
  rintro ⟨hpost, -⟩
  exact h (by simp [hpost])

/-- The reasons for a rejection exclude each other. -/
theorem WebRequest.RejectedWith.status_iff {status : Nat} (h : request.RejectedWith parts status) :
    (status = 405 ↔ request.ForeignMethod) ∧ (status = 415 ↔ request.ForeignType) ∧
      (status = 400 ↔
        ¬ request.ForeignMethod ∧ ¬ request.ForeignType ∧ request.Unreadable parts) ∧
      status ≠ 200 := by
  cases h with
  | method h =>
      exact ⟨iff_of_true rfl h, iff_of_false (by decide) h.not_foreignType,
        iff_of_false (by decide) fun hnot => hnot.1 h, by decide⟩
  | type h =>
      exact ⟨iff_of_false (by decide) fun hmethod => hmethod.not_foreignType h,
        iff_of_true rfl h, iff_of_false (by decide) fun hnot => hnot.2.1 h, by decide⟩
  | content hmethod htype h =>
      exact ⟨iff_of_false (by decide) hmethod, iff_of_false (by decide) htype,
        iff_of_true rfl ⟨hmethod, htype, h⟩, by decide⟩

/-- A request is accepted if it decodes to a query, and otherwise rejected with the status that
tells why. -/
theorem QueryRequest.ofWebWith_cases (parts : PartReader) (request : WebRequest) :
    (∃ asked, request.Decodes parts asked ∧ asked.query ≠ [] ∧
      ofWebWith parts request = .ok asked) ∨
    ∃ rejection, ofWebWith parts request = .error rejection ∧
      request.RejectedWith parts rejection.status := by
  rw [ofWebWith]
  by_cases hmethod : request.ForeignMethod
  · rw [ofWebUnchecked_of_foreign hmethod]
    exact .inr ⟨_, rfl, .method hmethod⟩
  · by_cases htype : request.ForeignType
    · obtain ⟨rejection, hrejected, hstatus⟩ := ofPost_of_foreign htype.2 request.address
      rw [ofWebUnchecked_of_post htype.1, hrejected]
      exact .inr ⟨rejection, rfl, hstatus ▸ .type htype⟩
    · rcases ofWebUnchecked_cases hmethod htype with ⟨asked, hdecodes, hread⟩ | ⟨fault, hread⟩
      · rw [hread]
        by_cases hempty : asked.query = []
        · have hunreadable := hdecodes.unreadable_iff.2 hempty
          refine .inr ⟨.missingQuery, ?_, .content hmethod htype hunreadable⟩
          simp [hempty]
        · refine .inl ⟨asked, hdecodes, hempty, ?_⟩
          simp [hempty]
      · rw [hread]
        refine .inr ⟨.unreadable fault, rfl, .content hmethod htype (.inl ?_)⟩
        rintro ⟨asked, hdecodes⟩
        rw [ofWebUnchecked_of_decodes hdecodes] at hread
        cases hread

end

/-! ## The answer to one request -/

def Exchange.isAccepted (parts : PartReader) (x : Exchange) : Bool :=
  (QueryRequest.ofWebWith parts (Service.bounded x.request)).isOk

/-- A request is accepted exactly if it decodes to a query that is not empty. -/
theorem Exchange.isAccepted_iff_decodes {parts : PartReader} {x : Exchange} :
    x.isAccepted parts = true ↔
      ∃ asked, (Service.bounded x.request).Decodes parts asked ∧ asked.query ≠ [] := by
  rw [isAccepted]
  constructor
  · intro haccepted
    rcases QueryRequest.ofWebWith_cases parts (Service.bounded x.request) with
      ⟨asked, hdecodes, hquery, -⟩ | ⟨rejection, hread, -⟩
    · exact ⟨asked, hdecodes, hquery⟩
    · rw [hread] at haccepted
      cases haccepted
  · rintro ⟨asked, hdecodes, hquery⟩
    rw [QueryRequest.ofWebWith, QueryRequest.ofWebUnchecked_of_decodes hdecodes]
    simp [hquery, Except.isOk, Except.toBool]

theorem Exchange.isAccepted_iff {parts : PartReader} {x : Exchange} :
    x.isAccepted parts = true ↔ ¬ x.request.ForeignMethod ∧ ¬ x.request.ForeignType ∧
      ¬ (Service.bounded x.request).Unreadable parts := by
  rw [isAccepted_iff_decodes]
  constructor
  · rintro ⟨asked, hdecodes, hquery⟩
    obtain ⟨hmethod, htype⟩ := QueryRequest.not_foreign_of_decodes hdecodes
    exact ⟨hmethod, htype, fun hunreadable => hquery (hdecodes.unreadable_iff.1 hunreadable)⟩
  · rintro ⟨-, -, hreadable⟩
    obtain ⟨hdecoded, hnonempty⟩ := not_or.1 hreadable
    obtain ⟨asked, hdecodes⟩ := not_not.1 hdecoded
    exact ⟨asked, hdecodes, fun hempty => hnonempty ⟨asked, hdecodes, hempty⟩⟩

namespace Service

variable {service : Service} {parts : PartReader} {schema : Schema}

/-- The service is one for the schema, and what it remembers are results of the schema. -/
structure Genuine (parts : PartReader) (schema : Schema) (service : Service) : Prop where
  parts_eq : service.parts = parts
  schema_eq : service.schema = schema
  remembered : ∀ key, ∀ entry ∈ service.cache.find? key, entry.findings = schema.check entry.query

theorem genuine_of_createWith {cacheSize : Int}
    (h : createWith parts schema cacheSize = .ok service) : service.Genuine parts schema := by
  rw [createWith] at h
  split at h <;> cases h
  exact ⟨rfl, rfl, fun key entry hentry => by cases hentry⟩

/-- A check gives the findings of the schema and remembers nothing else. -/
theorem Genuine.check (h : service.Genuine parts schema) (query : Text) :
    (service.check query).1 = schema.check query ∧
      (service.check query).2.2.Genuine parts schema := by
  have htouch : (service.touch query).Genuine parts schema := by
    refine ⟨h.parts_eq, h.schema_eq, fun key entry hentry => h.remembered key entry ?_⟩
    rwa [touch, Cache.find?_touch] at hentry
  rw [Service.check]
  split
  · cases hfound : service.remembered? query with
    | some findings =>
        obtain ⟨entry, hentry, hfor⟩ := Option.bind_eq_some_iff.1 hfound
        rw [Remembered.findingsFor?] at hfor
        split at hfor <;> cases hfor
        next hquery => exact ⟨by rw [h.remembered _ entry hentry, hquery], htouch⟩
    | none =>
        have hfindings : service.schema.check query = schema.check query := by rw [h.schema_eq]
        refine ⟨hfindings, h.parts_eq, h.schema_eq, fun key entry hentry => ?_⟩
        change ((service.touch query).cache.add (service.digest query)
          ⟨query, service.schema.check query⟩).find? key = some entry at hentry
        rcases Cache.find?_add (service.touch query).cache (service.digest query) key
          ⟨query, service.schema.check query⟩ with hnone | hadd
        · rw [hnone] at hentry
          cases hentry
        · rw [hadd] at hentry
          split at hentry
          · cases hentry
            exact hfindings
          · exact htouch.remembered key entry hentry
  · exact ⟨by rw [h.schema_eq], h⟩

theorem status_served_error (fresh : Text) (writable : Bool) (request : WebRequest)
    (rejection : Rejection) :
    (served fresh writable request (.error rejection)).response.status = rejection.status := by
  cases writable <;> rfl

theorem status_served_ok (fresh : Text) (writable : Bool) (request : WebRequest)
    (outcome : QueryRequest × Verdict) :
    (served fresh writable request (.ok outcome)).response.status = 200 := by
  cases writable <;> rfl

def validBody : Text := "\x7b\"valid\":true\x7d"

def invalidStart : Text := "\x7b\"valid\":false,\"errors\":["

theorem responseBody_nil : responseBody [] = validBody := by decide

theorem responseBody_cons (finding : Finding) (findings : List Finding) :
    invalidStart <+: responseBody (finding :: findings) := by
  have hstart : invalidStart = ("\x7b" : Text) ++ (Json.quote "valid" ++ ":" ++ "false") ++ "," ++
      Json.quote "errors" ++ ":" ++ "[" := by
    decide
  rw [hstart, responseBody]
  simp only [Json.unlessEmpty, Json.render, Json.renderMembers, List.isEmpty_cons,
    Bool.false_eq_true, if_false, Text.join_cons_cons, Text.join_singleton, List.append_assoc,
    List.prefix_append_right_inj, List.prefix_append]

/-- The body tells whether there are findings. -/
theorem responseBody_iff (findings : List Finding) :
    (responseBody findings = validBody ↔ findings = []) ∧
      (invalidStart <+: responseBody findings ↔ findings ≠ []) := by
  have hapart : ¬ invalidStart <+: validBody := by decide
  cases findings with
  | nil =>
      rw [responseBody_nil]
      exact ⟨iff_of_true rfl rfl, iff_of_false hapart (absurd rfl)⟩
  | cons finding findings =>
      have hstart := responseBody_cons finding findings
      refine ⟨iff_of_false (fun hvalid => ?_) (List.cons_ne_nil _ _),
        iff_of_true hstart (List.cons_ne_nil _ _)⟩
      rw [hvalid] at hstart
      exact hapart hstart

end Service

/-- How a service for the schema has to answer: with the status that tells why a request is
rejected, and otherwise with 200 and what the schema says about the query. -/
structure Served.Answers (parts : PartReader) (schema : Schema) (x : Exchange) (s : Served) :
    Prop where
  method : s.response.status = 405 ↔ x.request.ForeignMethod
  type : s.response.status = 415 ↔ x.request.ForeignType
  content : s.response.status = 400 ↔
    ¬ x.request.ForeignMethod ∧ ¬ x.request.ForeignType ∧
      (Service.bounded x.request).Unreadable parts
  accepted : s.response.status = 200 ↔ x.isAccepted parts = true
  otherwise : x.isAccepted parts = true ↔
    ¬ x.request.ForeignMethod ∧ ¬ x.request.ForeignType ∧
      ¬ (Service.bounded x.request).Unreadable parts
  findings : ∀ asked, (Service.bounded x.request).Decodes parts asked → asked.query ≠ [] →
    s.verdict.map Verdict.findings = .ok (schema.check asked.query)
  valid : ∀ asked, (Service.bounded x.request).Decodes parts asked → asked.query ≠ [] →
    x.writable = true →
    (s.response.body = Service.validBody ↔ schema.check asked.query = []) ∧
      (Service.invalidStart <+: s.response.body ↔ schema.check asked.query ≠ [])

namespace Service

variable {service : Service} {parts : PartReader} {schema : Schema} {x : Exchange}

theorem serve_of_error {rejection : Rejection}
    (h : QueryRequest.ofWebWith service.parts (bounded x.request) = .error rejection) :
    service.serve x.fresh x.writable x.request =
      (served x.fresh x.writable x.request (.error rejection), service) := by
  rw [serve, h]

theorem serve_of_ok {asked : QueryRequest}
    (h : QueryRequest.ofWebWith service.parts (bounded x.request) = .ok asked) :
    service.serve x.fresh x.writable x.request =
      (served x.fresh x.writable x.request (.ok (asked, verdict asked
        (service.check asked.query).1 (service.check asked.query).2.1)),
        (service.check asked.query).2.2) := by
  rw [serve, h]
  rfl

theorem answers_of_rejectedWith {s : Served} (schema : Schema)
    (haccepted : ¬ x.isAccepted parts = true)
    (h : (bounded x.request).RejectedWith parts s.response.status) : s.Answers parts schema x := by
  have hnone : ∀ asked, (bounded x.request).Decodes parts asked → asked.query ≠ [] → False :=
    fun asked hdecodes hquery =>
      haccepted (Exchange.isAccepted_iff_decodes.2 ⟨asked, hdecodes, hquery⟩)
  obtain ⟨hmethod, htype, hcontent, hok⟩ := h.status_iff
  exact ⟨hmethod, htype, hcontent, iff_of_false hok haccepted, Exchange.isAccepted_iff,
    fun asked hdecodes hquery => (hnone asked hdecodes hquery).elim,
    fun asked hdecodes hquery => (hnone asked hdecodes hquery).elim⟩

theorem answers_of_decodes {asked : QueryRequest}
    (hdecodes : (bounded x.request).Decodes parts asked)
    (hquery : asked.query ≠ []) (hit : Bool) :
    (served x.fresh x.writable x.request
      (.ok (asked, verdict asked (schema.check asked.query) hit))).Answers parts schema x := by
  have haccepted := Exchange.isAccepted_iff_decodes.2 ⟨asked, hdecodes, hquery⟩
  obtain ⟨hmethod, htype, hreadable⟩ := Exchange.isAccepted_iff.1 haccepted
  have hstatus := status_served_ok x.fresh x.writable x.request
    (asked, verdict asked (schema.check asked.query) hit)
  refine ⟨?_, ?_, ?_, iff_of_true hstatus haccepted, Exchange.isAccepted_iff, ?_, ?_⟩
  · exact iff_of_false (by rw [hstatus]; decide) hmethod
  · exact iff_of_false (by rw [hstatus]; decide) htype
  · exact iff_of_false (by rw [hstatus]; decide) fun h => hreadable h.2.2
  · intro asked' hdecodes' _
    rw [hdecodes'.unique hdecodes]
    exact congrArg Except.ok (findings_verdict asked _ hit)
  · intro asked' hdecodes' _ hwritable
    rw [hdecodes'.unique hdecodes, served, hwritable]
    simp only [findings_verdict, accepted, if_true]
    exact responseBody_iff (schema.check asked.query)

/-- A request is answered as it has to be, and the service stays one for the schema. -/
theorem Genuine.serve (h : service.Genuine parts schema) (x : Exchange) :
    (service.serve x.fresh x.writable x.request).1.Answers parts schema x ∧
      (service.serve x.fresh x.writable x.request).2.Genuine parts schema := by
  obtain rfl := h.parts_eq
  rcases QueryRequest.ofWebWith_cases service.parts (bounded x.request) with
    ⟨asked, hdecodes, hquery, hread⟩ | ⟨rejection, hread, hstatus⟩
  · obtain ⟨hfindings, hgenuine⟩ := h.check asked.query
    rw [serve_of_ok hread, hfindings]
    exact ⟨answers_of_decodes hdecodes hquery _, hgenuine⟩
  · rw [serve_of_error hread]
    refine ⟨answers_of_rejectedWith schema ?_ ?_, h⟩
    · rw [Exchange.isAccepted, hread]
      exact Bool.false_ne_true
    · rwa [status_served_error]

/-! ## Requests one after the other -/

def serveAll (service : Service) : List Exchange → List Served
  | [] => []
  | x :: xs =>
    let (served, after) := service.serve x.fresh x.writable x.request
    served :: after.serveAll xs

/-- A rejected request leaves the service as it was. -/
theorem serve_of_not_isAccepted (h : x.isAccepted service.parts = false) :
    (service.serve x.fresh x.writable x.request).2 = service := by
  rw [Exchange.isAccepted] at h
  cases hread : QueryRequest.ofWebWith service.parts (bounded x.request) with
  | error rejection => rw [serve_of_error hread]
  | ok asked =>
      rw [hread] at h
      cases h

/-- Without the rejected requests the others are answered as before. -/
theorem Genuine.filter_zip_serveAll (h : service.Genuine parts schema) (xs : List Exchange) :
    (xs.zip (service.serveAll xs)).filter (·.1.isAccepted parts) =
      (xs.filter (Exchange.isAccepted parts)).zip
        (service.serveAll (xs.filter (Exchange.isAccepted parts))) := by
  induction xs generalizing service with
  | nil => rfl
  | cons x xs ih =>
      cases haccepted : x.isAccepted parts with
      | true =>
          simp only [serveAll, List.zip_cons_cons, List.filter_cons, haccepted, if_true,
            ih (h.serve x).2]
      | false =>
          have hsame := serve_of_not_isAccepted (h.parts_eq ▸ haccepted)
          simp only [serveAll, List.zip_cons_cons, List.filter_cons, haccepted,
            Bool.false_eq_true, if_false, hsame, ih h]

/-- Every request is answered as it has to be. -/
theorem Genuine.serveAll (h : service.Genuine parts schema) (xs : List Exchange) :
    List.Forall₂ (fun x s => s.Answers parts schema x) xs (service.serveAll xs) := by
  induction xs generalizing service with
  | nil => exact .nil
  | cons x xs ih => exact .cons (h.serve x).1 (ih (h.serve x).2)

/-- Rejected requests leave no trace: a service answers the others as if they had not come, the
mark of a remembered result included. Which requests are rejected, with which status, and how the
others are answered is decided by the request and the schema alone, however bodies of several parts
are read. -/
theorem serveAll_without_rejected {cacheSize : Int}
    (h : createWith parts schema cacheSize = .ok service) (exchanges : List Exchange) :
    (exchanges.zip (service.serveAll exchanges)).filter (·.1.isAccepted parts) =
        (exchanges.filter (Exchange.isAccepted parts)).zip
          (service.serveAll (exchanges.filter (Exchange.isAccepted parts))) ∧
      List.Forall₂ (fun x s => s.Answers parts schema x) exchanges (service.serveAll exchanges) :=
  have hgenuine := genuine_of_createWith h
  ⟨hgenuine.filter_zip_serveAll exchanges, hgenuine.serveAll exchanges⟩

def addressedWithPart (value : Text) : Exchange :=
  ⟨"id", true, ⟨"GET", ("query=" : Text) ++ typeNameQuery,
    [("Content-Type", "multipart/form-data; boundary=b")],
    .whole ("--b\r\nContent-Disposition: form-data; name=variables\r\n\r\n" ++ value ++
      "\r\n--b--")⟩⟩

/-- Two queries that push each other out of a store for one result, and between them requests that
are rejected for each of the reasons. -/
def mixedExchanges : List Exchange :=
  [addressed leafQuery, ⟨"id", true, ⟨"PUT", ("query=" : Text) ++ typeNameQuery, [], .whole []⟩⟩,
    addressed leafQuery, ⟨"id", true, ⟨"POST", [], [("Content-Type", "text/plain")], .whole []⟩⟩,
    addressed [], addressed typeNameQuery, addressedWithPart "\x7b", addressedWithPart "null",
    ⟨"id", true, ⟨"POST", [], [("content-type", "application/json")], .whole "\x7b"⟩⟩,
    ⟨"id", true, ⟨"POST", [], [("content-type", "application/graphql")], .whole typeNameQuery⟩⟩]

theorem serveAll_without_rejected_mixedExchanges :
    ∃ service, createWith Multipart.pairs collidingService.schema 1 = .ok service ∧
      (service.serveAll mixedExchanges).map (fun s =>
        (s.response.status, s.verdict.toOption.map (·.span.cacheHit))) =
        [(200, some false), (405, none), (200, some true), (415, none), (400, none),
          (200, some false), (400, none), (200, some true), (400, none), (200, some true)] ∧
      (mixedExchanges.zip (service.serveAll mixedExchanges)).filter
          (·.1.isAccepted Multipart.pairs) =
        (mixedExchanges.filter (Exchange.isAccepted Multipart.pairs)).zip
          (service.serveAll (mixedExchanges.filter (Exchange.isAccepted Multipart.pairs))) ∧
      List.Forall₂ (fun x s => s.Answers Multipart.pairs collidingService.schema x) mixedExchanges
        (service.serveAll mixedExchanges) := by
  have hcreate : createWith Multipart.pairs collidingService.schema 1 =
      .ok ⟨collidingService.schema, Digest.ofText, Multipart.pairs, .empty 1⟩ := rfl
  exact ⟨_, hcreate, by decide +kernel, serveAll_without_rejected hcreate mixedExchanges⟩

end Service

end SelectionCheck
