import Mathlib.Logic.Function.Basic
import SelectionCheck.Service.Basic

/-!
# Requests that share a store

Requests are served at the same time. Each of them looks its query up, checks it if nothing usable
was found, and puts the result into the store; between these steps any number of steps of other
requests may come. `Traffic` is the state of such a service: what is stored, the requests in
progress, and what happened so far. A `Move` is one step of one request, or the loss of entries; a
move that does not apply changes nothing, so every list of moves is a schedule. The store keeps the
entry that was added last under a digest, until it loses it. Nothing else is assumed of it: entries
may go at any time and for any reason, and digests may collide.

The main statement is that nobody can tell that there is a store. Every check gives the findings of
the schema about its query, and every response is the one of a service that remembers nothing. The
invariant is that every entry and every result on its way into the store is the result of a check
that was made before (`Traffic.Sound`).

`Traffic.Mirrors.run_call` ties the moves to `Service.serve`, which is the schedule in which a
request is not interrupted.
-/

namespace SelectionCheck

structure Exchange where
  fresh : Text
  writable : Bool
  request : WebRequest

/-- How far a request has come: before its look at the store, without a usable entry, with a result
that is not stored yet, or answered. -/
inductive Phase
  | waiting
  | missed
  | checked (findings : List Finding)
  | answered

structure Call where
  exchange : Exchange
  asked : QueryRequest
  phase : Phase

/-- What can be seen of a service: that the schema was asked about a query, what a check gave and
whether it was remembered, and how a request was answered. -/
inductive Event
  | checked (query : Text)
  | returned (query : Text) (findings : List Finding) (cached : Bool)
  | responded (exchange : Exchange) (served : Served)

/-- The entries under each digest, the requests in progress, and what happened so far. -/
structure Traffic where
  stored : UInt64 → Option Remembered
  calls : List Call
  events : List Event

/-- A step of one request, given by its number, or the loss of entries. -/
inductive Move
  | arrive (exchange : Exchange)
  | get (i : Nat)
  | check (i : Nat)
  | add (i : Nat)
  | evict (kept : UInt64 → Bool)

namespace Traffic

def start : Traffic := ⟨fun _ => none, [], []⟩

def put (t : Traffic) (i : Nat) (call : Call) : Traffic :=
  { t with calls := t.calls.set i call }

def record (t : Traffic) (events : List Event) : Traffic :=
  { t with events := t.events ++ events }

/-- The check of a request gives findings, and the request is answered with them. -/
def answer (t : Traffic) (i : Nat) (call : Call) (findings : List Finding) (cached : Bool) :
    Traffic :=
  let ⟨fresh, writable, request⟩ := call.exchange
  let verdict := Service.verdict call.asked findings cached
  (t.put i { call with phase := .answered }).record
    [.returned call.asked.query findings cached,
      .responded call.exchange (Service.served fresh writable request (.ok (call.asked, verdict)))]

/-- The findings that a request with this query may take from the store. -/
def found? (service : Service) (t : Traffic) (query : Text) : Option (List Finding) :=
  if service.remembers then (t.stored (service.digest query)).bind (·.findingsFor? query) else none

def stepArrive (service : Service) (t : Traffic) (exchange : Exchange) : Traffic :=
  let ⟨fresh, writable, request⟩ := exchange
  match QueryRequest.ofWebWith service.parts (Service.bounded request) with
  | .error rejection =>
    t.record [.responded exchange (Service.served fresh writable request (.error rejection))]
  | .ok asked => { t with calls := t.calls ++ [⟨exchange, asked, .waiting⟩] }

def stepGet (service : Service) (t : Traffic) (i : Nat) (call : Call) : Traffic :=
  match t.found? service call.asked.query with
  | some findings => t.answer i call findings true
  | none => t.put i { call with phase := .missed }

def stepCheck (service : Service) (t : Traffic) (i : Nat) (call : Call) : Traffic :=
  let query := call.asked.query
  let findings := service.schema.check query
  let t := t.record [.checked query]
  if service.remembers then t.put i { call with phase := .checked findings }
  else t.answer i call findings false

def stepAdd (service : Service) (t : Traffic) (i : Nat) (call : Call) (findings : List Finding) :
    Traffic :=
  let query := call.asked.query
  let stored := Function.update t.stored (service.digest query) (some ⟨query, findings⟩)
  { t with stored }.answer i call findings false

def step (service : Service) (t : Traffic) : Move → Traffic
  | .arrive exchange => t.stepArrive service exchange
  | .get i =>
    match t.calls[i]? with
    | some ⟨exchange, asked, .waiting⟩ => t.stepGet service i ⟨exchange, asked, .waiting⟩
    | _ => t
  | .check i =>
    match t.calls[i]? with
    | some ⟨exchange, asked, .missed⟩ => t.stepCheck service i ⟨exchange, asked, .missed⟩
    | _ => t
  | .add i =>
    match t.calls[i]? with
    | some ⟨exchange, asked, .checked findings⟩ =>
      t.stepAdd service i ⟨exchange, asked, .checked findings⟩ findings
    | _ => t
  | .evict kept => { t with stored := fun key => if kept key then t.stored key else none }

def run (service : Service) (t : Traffic) (moves : List Move) : Traffic :=
  moves.foldl (step service) t

end Traffic

/-! ## A service that remembers nothing -/

namespace Service

def forgetful (service : Service) : Service := { service with cache := .empty 0 }

theorem parts_forgetful (service : Service) : service.forgetful.parts = service.parts := rfl

theorem findings_verdict (request : QueryRequest) (findings : List Finding) (hit : Bool) :
    (verdict request findings hit).findings = findings := by
  cases findings <;> rfl

/-- The response to a request depends on the findings and not on where they come from. -/
theorem response_served_of_check (service : Service) (fresh : Text) (writable : Bool)
    {request : WebRequest} {asked : QueryRequest}
    (hread : QueryRequest.ofWebWith service.parts (bounded request) = .ok asked) (cached : Bool) :
    (served fresh writable request
      (.ok (asked, verdict asked (service.schema.check asked.query) cached))).response =
      (service.forgetful.serve fresh writable request).1.response := by
  rw [serve, parts_forgetful, hread]
  simp only [served, validate, findings_verdict]
  rfl

end Service

/-! ## The invariant -/

section Invariant

variable {service : Service} {t : Traffic}

/-- The findings are those of the schema, which was asked about the query. -/
structure Vouched (service : Service) (events : List Event) (query : Text)
    (findings : List Finding) : Prop where
  eq_check : findings = service.schema.check query
  mem_events : .checked query ∈ events

/-- What has to hold of an event, given the events before it. -/
def Event.Genuine (service : Service) (before : List Event) : Event → Prop
  | .checked _ => True
  | .returned query findings cached =>
    findings = service.schema.check query ∧ (cached = true → .checked query ∈ before)
  | .responded exchange served =>
    served.response =
      (service.forgetful.serve exchange.fresh exchange.writable exchange.request).1.response

/-- A request in progress asks for what it was read as, and a result that it has is a genuine
one. -/
structure Call.Sound (service : Service) (events : List Event) (call : Call) : Prop where
  read : QueryRequest.ofWebWith service.parts (Service.bounded call.exchange.request) = .ok call.asked
  vouched : ∀ findings, call.phase = .checked findings →
    Vouched service events call.asked.query findings

/-- The invariant: what is stored was checked before, and what happened is genuine. -/
structure Traffic.Sound (service : Service) (t : Traffic) : Prop where
  stored : ∀ key entry, t.stored key = some entry →
    Vouched service t.events entry.query entry.findings
  calls : ∀ call ∈ t.calls, call.Sound service t.events
  genuine : ∀ before event after, t.events = before ++ event :: after →
    event.Genuine service before

theorem Vouched.append {events : List Event} {query : Text} {findings : List Finding}
    (h : Vouched service events query findings) (more : List Event) :
    Vouched service (events ++ more) query findings :=
  ⟨h.eq_check, List.mem_append_left more h.mem_events⟩

theorem Call.Sound.append {events : List Event} {call : Call} (h : call.Sound service events)
    (more : List Event) : call.Sound service (events ++ more) :=
  ⟨h.read, fun findings hphase => (h.vouched findings hphase).append more⟩

namespace Traffic.Sound

theorem start (service : Service) : Traffic.start.Sound service where
  stored _ _ h := by cases h
  calls _ h := by cases h
  genuine before event after h := by simp [Traffic.start] at h

theorem record (h : t.Sound service) (event : Event) (hevent : event.Genuine service t.events) :
    (t.record [event]).Sound service where
  stored key entry hentry := (h.stored key entry hentry).append _
  calls call hcall := (h.calls call hcall).append _
  genuine before event' after heq := by
    rw [Traffic.record] at heq
    -- the new event is the last one, so an event with others after it was there before
    rcases List.eq_nil_or_concat after with rfl | ⟨after, last, rfl⟩
    · obtain ⟨hbefore, hlast⟩ := List.append_inj' heq rfl
      rw [← hbefore, ← List.singleton_inj.1 hlast]
      exact hevent
    · rw [List.concat_eq_append, ← List.cons_append, ← List.append_assoc] at heq
      obtain ⟨hevents, -⟩ := List.append_inj' heq rfl
      exact h.genuine before event' after hevents

theorem put (h : t.Sound service) (i : Nat) {call : Call} (hcall : call.Sound service t.events) :
    (t.put i call).Sound service where
  stored := h.stored
  calls call' hcall' := by
    rcases List.mem_or_eq_of_mem_set hcall' with hmem | rfl
    · exact h.calls call' hmem
    · exact hcall
  genuine := h.genuine

theorem answer (h : t.Sound service) (i : Nat) {call : Call}
    (hcall : call.Sound service t.events) {findings : List Finding} {cached : Bool}
    (hfindings : findings = service.schema.check call.asked.query)
    (hcached : cached = true → .checked call.asked.query ∈ t.events) :
    (t.answer i call findings cached).Sound service := by
  have hput : (t.put i { call with phase := .answered }).Sound service :=
    h.put i ⟨hcall.read, nofun⟩
  have hreturned := hput.record (.returned call.asked.query findings cached) ⟨hfindings, hcached⟩
  have hresponse := service.response_served_of_check call.exchange.fresh call.exchange.writable
    hcall.read cached
  rw [← hfindings] at hresponse
  have hresponded := hreturned.record (.responded call.exchange _) hresponse
  rw [Traffic.record, Traffic.record, List.append_assoc] at hresponded
  exact hresponded

theorem store (h : t.Sound service) (key : UInt64) {query : Text} {findings : List Finding}
    (hvouched : Vouched service t.events query findings) :
    { t with stored := Function.update t.stored key (some ⟨query, findings⟩) }.Sound service where
  stored key' entry hentry := by
    change Function.update t.stored key _ key' = some entry at hentry
    by_cases hkey : key' = key
    · rw [hkey, Function.update_self] at hentry
      cases hentry
      exact hvouched
    · rw [Function.update_of_ne hkey] at hentry
      exact h.stored key' entry hentry
  calls := h.calls
  genuine := h.genuine

theorem evict (h : t.Sound service) (kept : UInt64 → Bool) :
    { t with stored := fun key => if kept key then t.stored key else none }.Sound service where
  stored key entry hentry := by
    change (if kept key then t.stored key else none) = some entry at hentry
    split at hentry
    · exact h.stored key entry hentry
    · cases hentry
  calls := h.calls
  genuine := h.genuine

theorem stepArrive (h : t.Sound service) (exchange : Exchange) :
    (t.stepArrive service exchange).Sound service := by
  rw [Traffic.stepArrive]
  split
  · next rejection hread =>
      apply h.record (.responded _ _)
      rw [Event.Genuine, Service.serve, Service.parts_forgetful, hread]
  · next asked hread =>
      refine ⟨h.stored, fun call hcall => ?_, h.genuine⟩
      rcases List.mem_append.1 hcall with hmem | hnew
      · exact h.calls call hmem
      · cases List.mem_singleton.1 hnew
        exact ⟨hread, nofun⟩

/-- An entry counts only for its own query, so a collision of digests is a miss. -/
theorem stepGet (h : t.Sound service) (i : Nat) {call : Call}
    (hcall : call.Sound service t.events) : (t.stepGet service i call).Sound service := by
  rw [Traffic.stepGet]
  split
  · next findings hfound =>
      rw [found?] at hfound
      split at hfound
      · obtain ⟨entry, hentry, hfindings⟩ := Option.bind_eq_some_iff.1 hfound
        rw [Remembered.findingsFor?] at hfindings
        split at hfindings
        · next hquery =>
            cases hfindings
            have hvouched := h.stored _ entry hentry
            rw [hquery] at hvouched
            exact h.answer i hcall hvouched.eq_check fun _ => hvouched.mem_events
        · cases hfindings
      · cases hfound
  · exact h.put i ⟨hcall.read, nofun⟩

theorem stepCheck (h : t.Sound service) (i : Nat) {call : Call}
    (hcall : call.Sound service t.events) : (t.stepCheck service i call).Sound service := by
  have hrecord := h.record (.checked call.asked.query) trivial
  rw [Traffic.stepCheck]
  split
  · apply hrecord.put i
    refine ⟨hcall.read, fun findings hphase => ?_⟩
    cases hphase
    exact ⟨rfl, by simp [Traffic.record]⟩
  · exact hrecord.answer i (hcall.append _) rfl nofun

theorem stepAdd (h : t.Sound service) (i : Nat) {call : Call}
    (hcall : call.Sound service t.events) {findings : List Finding}
    (hphase : call.phase = .checked findings) :
    (t.stepAdd service i call findings).Sound service := by
  have hvouched := hcall.vouched findings hphase
  exact (h.store _ hvouched).answer i hcall hvouched.eq_check nofun

/-- A move preserves the invariant. -/
theorem step (h : t.Sound service) (move : Move) : (t.step service move).Sound service := by
  have hcalls {i : Nat} {call : Call} (hi : t.calls[i]? = some call) :
      call.Sound service t.events :=
    h.calls call (List.mem_of_getElem? hi)
  cases move with
  | arrive exchange => exact h.stepArrive exchange
  | get i =>
      rw [Traffic.step]
      split
      · next hi => exact h.stepGet i (hcalls hi)
      · exact h
  | check i =>
      rw [Traffic.step]
      split
      · next hi => exact h.stepCheck i (hcalls hi)
      · exact h
  | add i =>
      rw [Traffic.step]
      split
      · next hi => exact h.stepAdd i (hcalls hi) rfl
      · exact h
  | evict kept => exact h.evict kept

/-- A run preserves the invariant. -/
theorem run (h : t.Sound service) (moves : List Move) : (t.run service moves).Sound service := by
  induction moves generalizing t with
  | nil => exact h
  | cons move moves ih => exact ih (h.step move)

end Traffic.Sound

end Invariant

/-- A service that remembers one result and takes all queries for the same. -/
def collidingService : Service :=
  ⟨⟨"Query", none, none, [("Query", .object [] []), ("String", .scalar)]⟩, fun _ => 0,
    Multipart.pairs, .empty 1⟩

def typeNameQuery : Text := "\x7b__typename\x7d"

def leafQuery : Text := "\x7b__typename\x7bx\x7d\x7d"

def addressed (query : Text) : Exchange :=
  ⟨"id", true, ⟨"GET", ("query=" : Text) ++ query, [], .whole []⟩⟩

namespace Traffic

variable {service : Service} {t : Traffic}

def responses (t : Traffic) : List (Exchange × Served) :=
  t.events.filterMap fun
    | .responded exchange served => some (exchange, served)
    | _ => none

theorem responses_answer (t : Traffic) (i : Nat) (call : Call) (findings : List Finding)
    (cached : Bool) :
    (t.answer i call findings cached).responses = t.responses ++ [(call.exchange,
      Service.served call.exchange.fresh call.exchange.writable call.exchange.request
        (.ok (call.asked, Service.verdict call.asked findings cached)))] := by
  simp [responses, answer, record, put]

/-- What is stored is what the store of the service holds. -/
def Mirrors (t : Traffic) (service : Service) : Prop :=
  ∀ key, t.stored key = service.cache.find? key

/-- What the store of the service holds is stored, but more may be. -/
def Covers (t : Traffic) (service : Service) : Prop :=
  ∀ key, service.cache.find? key = none ∨ service.cache.find? key = t.stored key

theorem Mirrors.covers (h : t.Mirrors service) : t.Covers service :=
  fun key => .inr (h key).symm

/-- Nothing more is stored after the loss of what the service does not hold. -/
theorem Covers.mirrors_evict {after : Service} (h : t.Covers after) :
    (t.step service (.evict fun key => (after.cache.find? key).isSome)).Mirrors after := by
  intro key
  change (if (after.cache.find? key).isSome then t.stored key else none) = _
  rcases h key with hnone | hstored
  · simp [hnone]
  · rw [← hstored]
    cases after.cache.find? key <;> rfl

theorem Mirrors.found?_eq (h : t.Mirrors service) (query : Text) :
    t.found? service query = if service.remembers then service.remembered? query else none := by
  rw [found?, h, Service.remembered?]

def checkMoves (i : Nat) : List Move := [.get i, .check i, .add i]

section Uninterrupted

variable {i : Nat} {exchange : Exchange} {asked : QueryRequest}

theorem getElem?_put {old : Call} (hi : t.calls[i]? = some old) (call : Call) :
    (t.put i call).calls[i]? = some call := by
  obtain ⟨hlt, -⟩ := List.getElem?_eq_some_iff.1 hi
  simp [put, hlt]

theorem step_get (hi : t.calls[i]? = some ⟨exchange, asked, .waiting⟩) :
    t.step service (.get i) = t.stepGet service i ⟨exchange, asked, .waiting⟩ := by
  simp only [step, hi]

theorem step_check (hi : t.calls[i]? = some ⟨exchange, asked, .missed⟩) :
    t.step service (.check i) = t.stepCheck service i ⟨exchange, asked, .missed⟩ := by
  simp only [step, hi]

theorem step_add {findings : List Finding}
    (hi : t.calls[i]? = some ⟨exchange, asked, .checked findings⟩) :
    t.step service (.add i) =
      t.stepAdd service i ⟨exchange, asked, .checked findings⟩ findings := by
  simp only [step, hi]

/-- A request that was answered takes no more steps. -/
theorem step_answer {old : Call} (hi : t.calls[i]? = some old) (call : Call)
    (findings : List Finding) (cached : Bool) (move : Move) (hmove : move ∈ checkMoves i) :
    (t.answer i call findings cached).step service move = t.answer i call findings cached := by
  have hdone : (t.answer i call findings cached).calls[i]? =
      some { call with phase := .answered } := getElem?_put hi _
  simp only [checkMoves, List.mem_cons, List.not_mem_nil, or_false] at hmove
  rcases hmove with rfl | rfl | rfl <;> simp only [step, hdone]

theorem run_checkMoves_eq (service : Service) (t : Traffic) (i : Nat) :
    t.run service (checkMoves i) =
      ((t.step service (.get i)).step service (.check i)).step service (.add i) := rfl

theorem run_checkMoves_of_found (hi : t.calls[i]? = some ⟨exchange, asked, .waiting⟩)
    {findings : List Finding} (hfound : t.found? service asked.query = some findings) :
    t.run service (checkMoves i) = t.answer i ⟨exchange, asked, .waiting⟩ findings true := by
  rw [run_checkMoves_eq, step_get hi, stepGet, hfound]
  simp only
  rw [step_answer hi _ _ _ (.check i) (by simp [checkMoves]),
    step_answer hi _ _ _ (.add i) (by simp [checkMoves])]

def asking (t : Traffic) (i : Nat) (exchange : Exchange) (asked : QueryRequest) : Traffic :=
  (t.put i ⟨exchange, asked, .missed⟩).record [.checked asked.query]

theorem responses_asking (t : Traffic) (i : Nat) (exchange : Exchange) (asked : QueryRequest) :
    (t.asking i exchange asked).responses = t.responses := by
  simp [asking, responses, record, put]

theorem run_checkMoves_of_forgetful (hi : t.calls[i]? = some ⟨exchange, asked, .waiting⟩)
    (hremembers : service.remembers = false) :
    t.run service (checkMoves i) = (t.asking i exchange asked).answer i
      ⟨exchange, asked, .missed⟩ (service.schema.check asked.query) false := by
  have hmissed := getElem?_put hi ⟨exchange, asked, .missed⟩
  rw [run_checkMoves_eq, step_get hi, stepGet, found?, hremembers, if_neg (by simp)]
  simp only
  rw [step_check hmissed, stepCheck, hremembers, if_neg (by simp)]
  have hasking : (t.asking i exchange asked).calls[i]? = _ := hmissed
  exact step_answer hasking _ _ _ (.add i) (by simp [checkMoves])

theorem run_checkMoves_of_missed (hi : t.calls[i]? = some ⟨exchange, asked, .waiting⟩)
    (hremembers : service.remembers = true) (hfound : t.found? service asked.query = none) :
    let call : Call := ⟨exchange, asked, .checked (service.schema.check asked.query)⟩
    t.run service (checkMoves i) = ((t.asking i exchange asked).put i call).stepAdd service i call
      (service.schema.check asked.query) := by
  have hmissed := getElem?_put hi ⟨exchange, asked, .missed⟩
  rw [run_checkMoves_eq, step_get hi, stepGet, hfound]
  simp only
  rw [step_check hmissed, stepCheck, if_pos hremembers]
  exact step_add (getElem?_put hmissed _)

/-- A check that is not interrupted is a check of the service. -/
theorem Mirrors.run_checkMoves (h : t.Mirrors service)
    (hi : t.calls[i]? = some ⟨exchange, asked, .waiting⟩) :
    let result := service.check asked.query
    (t.run service (checkMoves i)).Covers result.2.2 ∧
      (t.run service (checkMoves i)).responses = t.responses ++ [(exchange,
        Service.served exchange.fresh exchange.writable exchange.request
          (.ok (asked, Service.verdict asked result.1 result.2.1)))] := by
  have hfound := h.found?_eq asked.query
  rw [Service.check]
  cases hremembers : service.remembers with
  | false =>
      rw [run_checkMoves_of_forgetful hi hremembers, responses_answer, responses_asking]
      exact ⟨h.covers, rfl⟩
  | true =>
      rw [hremembers, if_pos rfl] at hfound
      rw [if_pos rfl]
      cases hremembered : service.remembered? asked.query with
      | some findings =>
          rw [run_checkMoves_of_found hi (hfound.trans hremembered), responses_answer]
          refine ⟨fun key => .inr ?_, rfl⟩
          exact (Cache.find?_touch _ _ _).trans (h key).symm
      | none =>
          rw [run_checkMoves_of_missed hi hremembers (hfound.trans hremembered), stepAdd,
            responses_answer]
          refine ⟨fun key => ?_, congrArg (· ++ _) (responses_asking ..)⟩
          have hadd := Cache.find?_add (service.touch asked.query).cache
            (service.digest asked.query) key ⟨asked.query, service.schema.check asked.query⟩
          rw [Service.touch, Cache.find?_touch, ← h key, ← Function.update_apply] at hadd
          exact hadd

end Uninterrupted

/-- The moves of a request that is not interrupted; `after` is the service with the store that it
leaves behind. -/
def callMoves (t : Traffic) (exchange : Exchange) (after : Service) : List Move :=
  .arrive exchange :: checkMoves t.calls.length ++
    [.evict fun key => (after.cache.find? key).isSome]

/-- A request that is not interrupted is served as the service alone serves it. -/
theorem Mirrors.run_call (h : t.Mirrors service) (exchange : Exchange) :
    let result := service.serve exchange.fresh exchange.writable exchange.request
    let t' := t.run service (t.callMoves exchange result.2)
    t'.Mirrors result.2 ∧ t'.responses = t.responses ++ [(exchange, result.1)] := by
  intro result t'
  let arrived := t.stepArrive service exchange
  have ht' : t' = (arrived.run service (checkMoves t.calls.length)).step service
      (.evict fun key => (result.2.cache.find? key).isSome) := by
    simp only [t', callMoves, run, List.foldl_append, List.foldl_cons, List.foldl_nil]
    rfl
  suffices hcovers : (arrived.run service (checkMoves t.calls.length)).Covers result.2 ∧
      (arrived.run service (checkMoves t.calls.length)).responses =
        t.responses ++ [(exchange, result.1)] by
    rw [ht']
    exact ⟨hcovers.1.mirrors_evict, hcovers.2⟩
  cases hread : QueryRequest.ofWebWith service.parts (Service.bounded exchange.request) with
  | error rejection =>
      have hresult : result = (Service.served exchange.fresh exchange.writable exchange.request
          (.error rejection), service) := by
        simp only [result, Service.serve, hread]
      have harrived : arrived.run service (checkMoves t.calls.length) = arrived := by
        simp [arrived, run_checkMoves_eq, step, stepArrive, hread, record]
      rw [hresult, harrived]
      simp only [arrived, stepArrive, hread]
      exact ⟨h.covers, by simp [responses, record]⟩
  | ok asked =>
      have harrived : arrived = { t with calls := t.calls ++ [⟨exchange, asked, .waiting⟩] } := by
        simp only [arrived, stepArrive, hread]
      have hmirrors : arrived.Mirrors service := by
        rw [harrived]
        exact h
      have hi : arrived.calls[t.calls.length]? = some ⟨exchange, asked, .waiting⟩ := by
        simp [harrived]
      have hcheck := hmirrors.run_checkMoves hi
      have hresponses : arrived.responses = t.responses := by
        rw [harrived]
        rfl
      rw [hresponses] at hcheck
      simp only [result, Service.serve, hread]
      exact hcheck

end Traffic

end SelectionCheck
