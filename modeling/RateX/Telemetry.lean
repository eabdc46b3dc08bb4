import RateX.Events
import RateX.Outbox
import RateX.FailClosed
import RateX.Steps

/-!
# Telemetry

The counters and the events of a server over a whole run. A request moves the
counters and sends its event off to a goroutine of its own, which inserts it at
any later time; an `Insert` that fails is forgotten. A panic of the handler goes
through the middleware to `Recovery`, past the event of an allowed request.

Every decision then has its one row exactly if every decided request is
`Recordable` (`telemetry_exact_iff`): the handler of an allowed one returns,
and the columns take the texts of the request, the numbers of the limiter's
answer, the status and the duration.
-/

namespace RateX

open Steps

/-- `Recovery`: a panic is answered, what it left behind stays. -/
def recovery (served : Served) : Served :=
  if served.panicked then
    { served with
      panicked := false
      aborted := some ⟨500, [("error", .text "internal_server_error")]⟩ }
  else served

/-! ## Counters -/

def Metric.isRequest : Metric → Bool
  | .requestsTotal .. => true
  | _ => false

def Metric.isAllowed : Metric → Bool
  | .allowedRequestsTotal _ => true
  | _ => false

def Metric.isRejected : Metric → Bool
  | .rejectedRequestsTotal _ => true
  | _ => false

structure Overview where
  requests : ℕ
  allowed : ℕ
  rejected : ℕ
deriving DecidableEq

/-- `StatsHandler.Overview`: each counter, over all its labels. -/
def overview (counters : List Metric) : Overview :=
  ⟨counters.countP Metric.isRequest, counters.countP Metric.isAllowed,
    counters.countP Metric.isRejected⟩

/-! ## Runs -/

/-- A server with the requests it has served, each with what it left behind. -/
structure Telemetry where
  world : World
  served : List (Attempt × Served)
  counters : List Metric
  events : Outbox RequestEvent StoredEvent

inductive Activity where
  | request (a : Attempt)
  /-- The goroutine at place `k` of those that wait runs its `Insert`. -/
  | insert (k id : ℕ) (now : ℚ)

namespace Telemetry

def start (srv : Server) : Telemetry :=
  { world := srv.start.2, served := [], counters := [], events := Outbox.empty }

def request (s : Telemetry) (srv : Server) (a : Attempt) : Telemetry :=
  let served := recovery (srv.serve s.world a).1
  { world := (srv.serve s.world a).2
    served := s.served ++ [(a, served)]
    counters := s.counters ++ served.metrics
    events := s.events.send served.events }

def step (srv : Server) (s : Telemetry) : Activity → Option Telemetry
  | .request a => some (s.request srv a)
  | .insert k id now =>
      (s.events.deliver k fun event =>
        (RequestEventRepository.insert id now event).toOption).map fun events => { s with events }

/-- The middleware has an event repository, and the policies are such as the
service accepts. -/
def Proper (_ : Telemetry) : Activity → Prop
  | .request a => a.situation.recording = true ∧ a.situation.db.Conforms
  | .insert .. => True

end Telemetry

/-- The decision of the limiter on a request, if it comes to one. -/
def Server.decision (srv : Server) (a : Attempt) : Option Result :=
  match srv.identify a.situation a.request, a.answer with
  | .ok _, .ok r => some r
  | _, _ => none

/-- A request decided by `r` whose event can be stored. -/
structure Recordable (a : Attempt) (r : Result) : Prop where
  returns : r.allowed = true → ∃ status, a.situation.handler = .returns status ∧ status < 2 ^ 31
  method : Fits 12 a.request.method
  route : Fits 255 (routeOf a.request)
  address : extractAPIKey a.request = "" → Fits 255 (clientAddress a.request)
  limit : Fits32 r.limit
  remaining : Fits32 r.remaining
  retryAfter : Fits32 r.retryAfter
  duration : Fits32 a.situation.durationMS

/-! ## One request -/

theorem recovery_metrics (served : Served) : (recovery served).metrics = served.metrics := by
  unfold recovery
  split <;> rfl

theorem recovery_events (served : Served) : (recovery served).events = served.events := by
  unfold recovery
  split <;> rfl

/-- The status in the event that a decided request sends, if it sends one. -/
def recordedStatus (handler : Handler) (r : Result) : Option ℕ :=
  if r.allowed then
    match handler with
    | .returns status => some status
    | .panics => none
  else some 429

theorem respond_ok {σ L : Type} (env : Env σ L) (req : Request) (id : Identity)
    (policyName : String) (r : Result) :
    (env.respond req id policyName (.ok r)).metrics =
        [if r.allowed then .allowedRequestsTotal (routeOf req)
          else .rejectedRequestsTotal (routeOf req)] ∧
      (env.respond req id policyName (.ok r)).events =
        (recordedStatus env.handler r).toList.flatMap (env.event req id policyName r) := by
  cases hr : r.allowed with
  | true => cases hh : env.handler <;> simp [Env.respond, recordedStatus, hr, hh]
  | false => simp [Env.respond, recordedStatus, hr]

/-- A limiter that fails moves no counter of decisions and sends no event. -/
theorem respond_error {σ L : Type} (env : Env σ L) (req : Request) (id : Identity)
    (policyName : String) (e : AllowError) :
    (env.respond req id policyName (.error e)).metrics.countP Metric.isAllowed = 0 ∧
      (env.respond req id policyName (.error e)).metrics.countP Metric.isRejected = 0 ∧
      (env.respond req id policyName (.error e)).events = [] := by
  cases e with
  | panic => exact ⟨rfl, rfl, rfl⟩
  | _ =>
      unfold Env.respond
      split_ifs <;> exact ⟨rfl, rfl, rfl⟩

/-- The event of a request of this identity, under a policy of this name. -/
def eventOf (req : Request) (id : Identity) (name : String) (r : Result) (durationMS : Int)
    (statusCode : ℕ) : RequestEvent :=
  { method := req.method, route := routeOf req, identityType := id.identityType,
    identityValue := id.identityValue, policyName := name, allowed := r.allowed, statusCode,
    requestLimit := r.limit, remaining := r.remaining, retryAfter := r.retryAfter, durationMS }

/-- Where the texts of the tables fit, the rest is up to the request, the answer and the handler. -/
theorem recordable_iff_fits {a : Attempt} {r : Result} {id : Identity} {name : String}
    (htype : Fits 24 id.identityType) (hname : Fits 100 name)
    (hvalue : Fits 255 id.identityValue ↔
      (extractAPIKey a.request = "" → Fits 255 (clientAddress a.request))) :
    Recordable a r ↔ ∃ status, recordedStatus a.situation.handler r = some status ∧
      EventFits (eventOf a.request id name r a.situation.durationMS status) := by
  constructor
  · intro h
    have hstatus : ∃ status, recordedStatus a.situation.handler r = some status ∧
        status < 2 ^ 31 := by
      unfold recordedStatus
      cases hr : r.allowed with
      | true =>
          obtain ⟨status, hhandler, hlt⟩ := h.returns hr
          exact ⟨status, by rw [hhandler]; rfl, hlt⟩
      | false => exact ⟨429, rfl, by norm_num⟩
    obtain ⟨status, hsome, hlt⟩ := hstatus
    exact ⟨status, hsome, ⟨h.method, h.route, htype, hvalue.mpr h.address, hname, hlt, h.limit,
      h.remaining, h.retryAfter, h.duration⟩⟩
  · rintro ⟨status, hsome, h⟩
    refine ⟨fun hr => ?_, h.method, h.route, hvalue.mp h.identityValue, h.requestLimit,
      h.remaining, h.retryAfter, h.durationMS⟩
    unfold recordedStatus at hsome
    rw [if_pos hr] at hsome
    cases hhandler : a.situation.handler with
    | returns status' =>
        rw [hhandler] at hsome
        obtain rfl := Option.some.inj hsome
        exact ⟨status', rfl, h.statusCode⟩
    | panics =>
        rw [hhandler] at hsome
        cases hsome

namespace Server

variable {srv : Server} {w : World} {a : Attempt} {r : Result} {id : Identity}

theorem decision_eq_some : srv.decision a = some r ↔
    (∃ id, srv.identify a.situation a.request = .ok id) ∧ a.answer = .ok r := by
  unfold decision
  cases srv.identify a.situation a.request with
  | error e => simp
  | ok id => cases a.answer <;> simp

def event (srv : Server) (a : Attempt) (id : Identity) (r : Result) (statusCode : ℕ) :
    RequestEvent :=
  { method := a.request.method
    route := routeOf a.request
    identityType := id.identityType
    identityValue := id.identityValue
    policyName :=
      policyName (((srv.env a.situation a.answer).routePolicy a.request).or id.policy)
    allowed := r.allowed, statusCode
    requestLimit := r.limit, remaining := r.remaining, retryAfter := r.retryAfter
    durationMS := a.situation.durationMS }

/-- A decided request moves one counter of decisions, and sends its event if
the handler lets it. -/
theorem Wired.serve_decided (h : Wired srv w) (hrec : a.situation.recording = true)
    (hid : srv.identify a.situation a.request = .ok id) (hanswer : a.answer = .ok r) :
    (srv.serve w a).1.metrics = [.requestsTotal (routeOf a.request) a.request.method,
        if r.allowed then .allowedRequestsTotal (routeOf a.request)
        else .rejectedRequestsTotal (routeOf a.request)] ∧
      (srv.serve w a).1.events =
        (recordedStatus a.situation.handler r).toList.map (srv.event a id r) := by
  obtain ⟨hmetrics, hevents⟩ := respond_ok (srv.env a.situation a.answer) a.request id
    (policyName (((srv.env a.situation a.answer).routePolicy a.request).or id.policy)) r
  rw [(h.serve_of_ok hid).1, hanswer]
  rw [hanswer] at hmetrics hevents
  refine ⟨congrArg (List.cons _) hmetrics, hevents.trans ?_⟩
  have hevent (status : ℕ) : (srv.env a.situation a.answer).event a.request id
      (policyName (((srv.env a.situation a.answer).routePolicy a.request).or id.policy)) r status =
        [srv.event a id r status] := if_pos hrec
  rw [hanswer] at hevent
  rw [List.map_eq_flatMap, funext hevent]
  rfl

/-- A request that is not decided moves no counter of decisions and sends no event. -/
theorem Wired.serve_undecided (h : Wired srv w) (hnone : srv.decision a = none) :
    (srv.serve w a).1.metrics.countP Metric.isAllowed = 0 ∧
      (srv.serve w a).1.metrics.countP Metric.isRejected = 0 ∧
      (srv.serve w a).1.events = [] := by
  cases hid : srv.identify a.situation a.request with
  | error e =>
      have hid' : RateX.identify _ _ _ _ _ = .error e := hid
      simp only [Server.serve, rateLimitWithTelemetry, env, hid']
      exact ⟨rfl, rfl, rfl⟩
  | ok id =>
      rw [(h.serve_of_ok hid).1]
      cases hanswer : a.answer with
      | ok r =>
          rw [decision_eq_some.mpr ⟨⟨id, hid⟩, hanswer⟩] at hnone
          cases hnone
      | error e =>
          rw [← hanswer]
          exact hanswer ▸ respond_error (srv.env a.situation a.answer) a.request id _ e

/-! ## The event of a request -/

/-- The texts of an identity fit, if the address does that it may be. -/
theorem identity_fits (hconf : a.situation.db.Conforms)
    (hid : srv.identify a.situation a.request = .ok id) :
    Fits 24 id.identityType ∧ Fits 100 (policyName id.policy) ∧
      (Fits 255 id.identityValue ↔
        (extractAPIKey a.request = "" → Fits 255 (clientAddress a.request))) := by
  unfold identify at hid
  by_cases hkey : extractAPIKey a.request = ""
  · rw [identify_of_no_key hkey] at hid
    split at hid
    · cases hid
    · obtain rfl := Except.ok.inj hid
      have htype : Fits 24 "ip" := by decide +kernel
      have hname : Fits 100 "default" := by decide +kernel
      exact ⟨htype, hname, by simp [hkey]⟩
  · obtain ⟨key, policy, hrow, rfl⟩ := identify_of_key hkey _ _ _ _ hid
    obtain ⟨htext, hname⟩ := hconf.activeKey hrow
    have htype : Fits 24 "api_key" := by decide +kernel
    exact ⟨htype, hname, by simp [hkey, htext.mono (by norm_num : 32 ≤ 255)]⟩

theorem policyName_fits (hconf : a.situation.db.Conforms)
    (hid : srv.identify a.situation a.request = .ok id) :
    Fits 100
      (policyName (((srv.env a.situation a.answer).routePolicy a.request).or id.policy)) := by
  obtain ⟨-, hname, -⟩ := identity_fits hconf hid
  rw [routePolicy_eq]
  split
  · exact hname
  · cases hrow : routeRow a.situation a.request with
    | none => exact hname
    | some p =>
        unfold routeRow at hrow
        split at hrow
        · exact hconf.enabledRoute hrow
        · cases hrow

/-- A request is recordable if it sends an event and every column takes it. -/
theorem recordable_iff (hconf : a.situation.db.Conforms)
    (hid : srv.identify a.situation a.request = .ok id) : Recordable a r ↔
      ∃ status, recordedStatus a.situation.handler r = some status ∧
        EventFits (srv.event a id r status) :=
  have ⟨htype, _, hvalue⟩ := identity_fits hconf hid
  recordable_iff_fits htype (policyName_fits hconf hid) hvalue

end Server

/-- An event as the table holds it, if its columns take it. -/
def columns (event : RequestEvent) : Option RequestEvent := (eventColumns event).toOption

theorem insert_columns (id : ℕ) (now : ℚ) (event : RequestEvent) :
    ((RequestEventRepository.insert id now event).toOption).map StoredEvent.event =
      columns event := by
  unfold RequestEventRepository.insert columns
  cases eventColumns event <;> rfl

theorem columns_of_fits {event : RequestEvent} (h : EventFits event) :
    ∃ row, columns event = some row ∧ row.allowed = event.allowed := by
  obtain ⟨row, hrow⟩ := h.columns
  exact ⟨row, by rw [columns, hrow]; rfl, (eventColumns_ok hrow).2⟩

theorem columns_of_not_fits {event : RequestEvent} (h : ¬ EventFits event) :
    columns event = none := by
  unfold columns
  cases hrow : eventColumns event with
  | error e => rfl
  | ok row => exact absurd (eventColumns_ok hrow).1 h

/-! ## What a run leaves behind -/

namespace Telemetry

open Server Outbox

/-- What a request may have left behind, in some world of the server. -/
def Left (srv : Server) (a : Attempt) (served : Served) : Prop :=
  a.situation.recording = true ∧ a.situation.db.Conforms ∧
    ∃ w, Wired srv w ∧ served = recovery (srv.serve w a).1

section Left

variable {srv : Server} {a : Attempt} {served : Served} {r : Result}

theorem Left.recordable (h : Left srv a served) (hr : srv.decision a = some r)
    (hrec : Recordable a r) :
    ∃ row, served.events.filterMap columns = [row] ∧ row.allowed = r.allowed := by
  obtain ⟨hrecording, hconf, w, hw, hserved⟩ := h
  obtain ⟨⟨id, hid⟩, hanswer⟩ := decision_eq_some.mp hr
  obtain ⟨status, hstatus, hfits⟩ := (recordable_iff hconf hid).mp hrec
  obtain ⟨row, hrow, hallowed⟩ := columns_of_fits hfits
  refine ⟨row, ?_, hallowed⟩
  rw [hserved, recovery_events, (hw.serve_decided hrecording hid hanswer).2, hstatus]
  simp [hrow]

theorem Left.not_recordable (h : Left srv a served) (hr : srv.decision a = some r)
    (hrec : ¬ Recordable a r) : served.events.filterMap columns = [] := by
  obtain ⟨hrecording, hconf, w, hw, hserved⟩ := h
  obtain ⟨⟨id, hid⟩, hanswer⟩ := decision_eq_some.mp hr
  rw [recordable_iff hconf hid] at hrec
  rw [hserved, recovery_events, (hw.serve_decided hrecording hid hanswer).2]
  cases hstatus : recordedStatus a.situation.handler r with
  | none => rfl
  | some status =>
      have hnone := columns_of_not_fits fun hfits => hrec ⟨status, hstatus, hfits⟩
      simp [hnone]

theorem Left.counters (h : Left srv a served) (hr : srv.decision a = some r) :
    served.metrics.countP Metric.isAllowed = [r].countP Result.allowed ∧
      served.metrics.countP Metric.isRejected = [r].countP fun r => !r.allowed := by
  obtain ⟨hrecording, -, w, hw, hserved⟩ := h
  obtain ⟨⟨id, hid⟩, hanswer⟩ := decision_eq_some.mp hr
  rw [hserved, recovery_metrics, (hw.serve_decided hrecording hid hanswer).1]
  cases hallowed : r.allowed <;> simp [hallowed, Metric.isAllowed, Metric.isRejected]

theorem Left.undecided (h : Left srv a served) (hnone : srv.decision a = none) :
    served.metrics.countP Metric.isAllowed = 0 ∧ served.metrics.countP Metric.isRejected = 0 ∧
      served.events = [] := by
  obtain ⟨-, -, w, hw, hserved⟩ := h
  rw [hserved, recovery_metrics, recovery_events]
  exact hw.serve_undecided hnone

/-- The rows of a request are what it moved the counters by. -/
theorem Left.tally (h : Left srv a served) (hrec : ∀ r, srv.decision a = some r → Recordable a r) :
    served.metrics.countP Metric.isAllowed =
        (served.events.filterMap columns).countP RequestEvent.allowed ∧
      served.metrics.countP Metric.isRejected =
        (served.events.filterMap columns).countP fun row => !row.allowed := by
  cases hr : srv.decision a with
  | none =>
      obtain ⟨hallowed, hrejected, hevents⟩ := h.undecided hr
      rw [hallowed, hrejected, hevents]
      exact ⟨rfl, rfl⟩
  | some r =>
      obtain ⟨row, hrow, hallowed⟩ := h.recordable hr (hrec r hr)
      rw [(h.counters hr).1, (h.counters hr).2, hrow]
      simp [List.countP_singleton, hallowed]

end Left

/-- The state in terms of the requests served. -/
structure Recorded (srv : Server) (s : Telemetry) : Prop where
  wired : Wired srv s.world
  left : ∀ p ∈ s.served, Left srv p.1 p.2
  counters : s.counters = s.served.flatMap fun p => p.2.metrics
  sent : s.events.sent = s.served.map fun p => p.2.events
  accounted : s.events.Accounted columns StoredEvent.event

variable {srv : Server} {s s' : Telemetry}

theorem recorded_start (srv : Server) : Recorded srv (start srv) := by
  exact ⟨wired_start srv, List.forall_mem_nil _, List.flatMap_nil.symm, List.map_nil.symm,
    accounted_empty⟩

theorem Recorded.step (h : Recorded srv s) {activity : Activity} (hproper : Proper s activity)
    (hs : Telemetry.step srv s activity = some s') : Recorded srv s' := by
  cases activity with
  | request a =>
      obtain rfl := Option.some.inj hs
      have hleft : Left srv a (recovery (srv.serve s.world a).1) :=
        ⟨hproper.1, hproper.2, s.world, h.wired, rfl⟩
      have hwired := h.wired.serve a
      unfold Telemetry.request
      generalize recovery (srv.serve s.world a).1 = served at hleft
      generalize (srv.serve s.world a).2 = world at hwired
      refine ⟨hwired, ?_, ?_, ?_, h.accounted.send served.events⟩
      · exact List.forall_mem_append.mpr ⟨h.left, List.forall_mem_singleton.mpr hleft⟩
      · simp [h.counters]
      · simp [Outbox.send, h.sent]
  | insert k id now =>
      obtain ⟨events, hevents, rfl⟩ := Option.map_eq_some_iff.mp hs
      exact ⟨h.wired, h.left, h.counters, (deliver_sent hevents).trans h.sent,
        h.accounted.deliver (insert_columns id now) hevents⟩

theorem recorded_of_reach (h : Reach (step srv) Proper (start srv) s) : Recorded srv s :=
  h.invariant (recorded_start srv) fun _ _ _ hI hproper hs => hI.step hproper hs

/-- The inserts that wait can all be run, and nothing else changes. -/
theorem exists_quiescent {s₀ : Telemetry} (h : Reach (step srv) Proper s₀ s) :
    ∃ s', Reach (step srv) Proper s₀ s' ∧ s'.served = s.served ∧ s'.counters = s.counters ∧
      s'.events.inFlight = [] := by
  induction hn : s.events.inFlight.length generalizing s with
  | zero => exact ⟨s, h, rfl, rfl, List.length_eq_zero_iff.mp hn⟩
  | succ n ih =>
      obtain ⟨events, hevents, htail⟩ := exists_deliver (List.ne_nil_of_length_eq_add_one hn)
        fun event => (RequestEventRepository.insert 0 0 event).toOption
      have hstep : step srv s (.insert 0 0 0) = some { s with events } := by
        rw [step, hevents, Option.map_some]
      have hlength : events.inFlight.length = n := by
        rw [htail, List.length_tail, hn, Nat.add_sub_cancel]
      have hproper : Proper s (.insert 0 0 0) := trivial
      exact ih (s := { s with events }) (h.next hproper hstep) hlength

/-- What the table holds of the request `i`, up to order, when no insert waits. -/
theorem Recorded.storedFor (h : Recorded srv s) (hdone : s.events.inFlight = []) {i : ℕ}
    {a : Attempt} {served : Served} (hi : s.served[i]? = some (a, served)) :
    ((s.events.storedFor i).map StoredEvent.event).Perm (served.events.filterMap columns) := by
  have hperm := h.accounted.of_request hdone i
  rwa [h.sent, List.getElem?_map, hi] at hperm

/-- A counter that moves with the rows of each request ends at the number of
rows. -/
theorem Recorded.tally (h : Recorded srv s) (hdone : s.events.inFlight = []) {c : Metric → Bool}
    {q : RequestEvent → Bool}
    (hcount : ∀ p ∈ s.served, p.2.metrics.countP c = (p.2.events.filterMap columns).countP q) :
    s.counters.countP c = s.events.stored.countP fun p => q p.2.event := by
  have hperm := (h.accounted.total hdone).countP_eq q
  rw [h.sent, List.flatten_eq_flatMap, List.flatMap_map, List.filterMap_flatMap,
    List.countP_flatMap, List.countP_map] at hperm
  rw [h.counters, List.countP_flatMap]
  exact (congrArg List.sum (List.map_congr_left hcount)).trans hperm.symm

end Telemetry

open Telemetry

/-- **When every decision is recorded.** For every run, the goroutines of the
inserts in any order with the requests, once none of them waits: each decided
request has exactly one row, with the decision, and the counters are the
numbers of the rows, iff every decided request of the run is recordable. -/
theorem telemetry_exact_iff (srv : Server) {s : Telemetry}
    (h : Reach (step srv) Proper (start srv) s) (hdone : s.events.inFlight = []) :
    ((∀ i a served r, s.served[i]? = some (a, served) → srv.decision a = some r →
        ∃ row, s.events.storedFor i = [row] ∧ row.event.allowed = r.allowed) ∧
      (overview s.counters).allowed = s.events.stored.countP (fun p => p.2.event.allowed) ∧
      (overview s.counters).rejected = s.events.stored.countP fun p => !p.2.event.allowed) ↔
    ∀ p ∈ s.served, ∀ r, srv.decision p.1 = some r → Recordable p.1 r := by
  have hs := recorded_of_reach h
  constructor
  · rintro ⟨hrows, -⟩ ⟨a, served⟩ hp r hr
    by_contra hrec
    obtain ⟨i, hi⟩ := List.mem_iff_getElem?.mp hp
    obtain ⟨row, hrow, -⟩ := hrows i a served r hi hr
    have hperm := hs.storedFor hdone hi
    rw [hrow, (hs.left _ hp).not_recordable hr hrec] at hperm
    exact absurd hperm.length_eq (by simp)
  · intro hrec
    have hallowed := hs.tally (c := Metric.isAllowed) (q := RequestEvent.allowed) hdone
      fun p hp => ((hs.left p hp).tally (hrec p hp)).1
    have hrejected := hs.tally (c := Metric.isRejected) (q := fun row => !row.allowed) hdone
      fun p hp => ((hs.left p hp).tally (hrec p hp)).2
    refine ⟨fun i a served r hi hr => ?_, hallowed, hrejected⟩
    have hp := List.mem_of_getElem? hi
    obtain ⟨event, hevent, hdecision⟩ := (hs.left _ hp).recordable hr (hrec _ hp r hr)
    have hperm := hs.storedFor hdone hi
    rw [hevent, List.perm_singleton, List.map_eq_singleton_iff] at hperm
    obtain ⟨row, hrow, rfl⟩ := hperm
    exact ⟨row, hrow, hdecision⟩

/-! ## Lost decisions -/

/-- The address of a client who forwards its requests for it. -/
def farAddress : String := .ofList (List.replicate 256 '1')

def farForwarded : Attempt :=
  { situation := strictSituation false
    request := { getProducts with
      header := fun name => if name = "X-Forwarded-For" then farAddress else "" }
    answer := .ok ⟨true, 9, 0, 10, 60⟩ }

def panicking : Attempt :=
  { situation := { strictSituation false with handler := .panics }
    request := getProducts
    answer := .ok ⟨true, 8, 0, 10, 60⟩ }

theorem conforms_strict : strictProducts.Conforms :=
  ⟨by decide +kernel, by decide +kernel⟩

theorem toList_farAddress : farAddress.toList = List.replicate 256 '1' := String.toList_ofList

theorem farAddress_ne : farAddress ≠ "" := by
  intro h
  have hlength := congrArg (fun text => text.toList.length) h
  rw [toList_farAddress, List.length_replicate] at hlength
  cases hlength

theorem clientAddress_farForwarded : clientAddress farForwarded.request = farAddress := by
  have hheader : farForwarded.request.header "X-Forwarded-For" = farAddress := by
    simp only [farForwarded, if_true]
  have htrim : trimSpace farAddress = farAddress := by
    refine trimSpace_eq_self fun c hc => ?_
    rw [toList_farAddress] at hc
    rw [List.eq_of_mem_replicate hc]
    decide
  have hfirst : splitFirst ',' farAddress = farAddress := by
    rw [splitFirst, toList_farAddress, List.takeWhile_replicate, if_pos (by decide)]
    rfl
  have hne : trimSpace (farForwarded.request.header "X-Forwarded-For") ≠ "" := by
    rw [hheader, htrim]
    exact farAddress_ne
  rw [clientAddress_of_forwarded hne, hheader, htrim, hfirst, htrim]

theorem decision_farForwarded :
    closedServer.decision farForwarded = some ⟨true, 9, 0, 10, 60⟩ := by
  have hkey : extractAPIKey farForwarded.request = "" := by decide +kernel
  have hne : clientAddress farForwarded.request ≠ "" := by
    rw [clientAddress_farForwarded]
    exact farAddress_ne
  exact Server.decision_eq_some.mpr ⟨⟨_, (identify_of_no_key hkey ..).trans (if_neg hne)⟩, rfl⟩

theorem not_recordable_farForwarded (r : Result) : ¬ Recordable farForwarded r := by
  intro h
  have hkey : extractAPIKey farForwarded.request = "" := by decide +kernel
  have hfits := h.address hkey
  rw [clientAddress_farForwarded, Fits, toList_farAddress, List.drop_replicate] at hfits
  exact absurd (hfits.2 '1' (by simp)) (by decide)

/-- Two requests are allowed and counted; the address of one does not fit its
column, the handler of the other panics, and the table stays empty. -/
theorem telemetry_lost :
    ∃ s, Reach (step closedServer) Proper (start closedServer) s ∧ s.events.inFlight = [] ∧
      s.served.map Prod.fst = [farForwarded, panicking] ∧
      (∀ a ∈ [farForwarded, panicking], ∃ r, closedServer.decision a = some r ∧
        r.allowed = true) ∧
      s.events.stored = [] ∧ (overview s.counters).allowed = 2 := by
  have hfar := decision_farForwarded
  have hpanicking : closedServer.decision panicking = some ⟨true, 8, 0, 10, 60⟩ := by
    decide +kernel
  have hreach : Reach (step closedServer) Proper (start closedServer)
      (((start closedServer).request closedServer farForwarded).request closedServer panicking) :=
    .next (a := .request panicking) (.next (a := .request farForwarded) .init
      ⟨rfl, conforms_strict⟩ rfl) ⟨rfl, conforms_strict⟩ rfl
  obtain ⟨s, hs, hserved, -, hdone⟩ := exists_quiescent hreach
  have hrec := recorded_of_reach hs
  have hrequests : ∃ x y, s.served = [(farForwarded, x), (panicking, y)] := by
    rw [hserved]
    exact ⟨_, _, rfl⟩
  obtain ⟨x, y, hrequests⟩ := hrequests
  have hx := hrec.left (farForwarded, x) (by simp [hrequests])
  have hy := hrec.left (panicking, y) (by simp [hrequests])
  have hpanics : ¬ Recordable panicking ⟨true, 8, 0, 10, 60⟩ := fun h => by
    obtain ⟨status, hstatus, -⟩ := h.returns rfl
    cases hstatus
  refine ⟨s, hs, hdone, by simp [hrequests], ?_, ?_, ?_⟩
  · simp [hfar, hpanicking]
  · have htotal := (hrec.accounted.total hdone).length_eq
    rw [hrec.sent, hrequests] at htotal
    simpa [hx.not_recordable hfar (not_recordable_farForwarded _),
      hy.not_recordable hpanicking hpanics] using htotal
  · have hallowed := hrec.counters
    rw [hrequests] at hallowed
    simp [overview, hallowed, (hx.counters hfar).1, (hy.counters hpanicking).1]

/-- A request of an ordinary address, and its one row. -/
theorem telemetry_kept :
    ∃ s, Reach (step closedServer) Proper (start closedServer) s ∧ s.events.inFlight = [] ∧
      ∃ row, s.events.storedFor 0 = [row] ∧ row.event.allowed = true := by
  let ordinary : Attempt := ⟨strictSituation false, getProducts, .ok ⟨true, 9, 0, 10, 60⟩⟩
  have hdecision : closedServer.decision ordinary = some ⟨true, 9, 0, 10, 60⟩ := by decide +kernel
  have hrecordable : Recordable ordinary ⟨true, 9, 0, 10, 60⟩ :=
    ⟨fun _ => ⟨200, rfl, by decide⟩, by decide +kernel, by decide +kernel,
      fun _ => by decide +kernel, by decide, by decide, by decide, by decide⟩
  have hreach : Reach (step closedServer) Proper (start closedServer)
      ((start closedServer).request closedServer ordinary) :=
    .next (a := .request ordinary) .init ⟨rfl, conforms_strict⟩ rfl
  obtain ⟨s, hs, hserved, -, hdone⟩ := exists_quiescent hreach
  have hrequests : ∃ served, s.served = [(ordinary, served)] := by
    rw [hserved]
    exact ⟨_, rfl⟩
  obtain ⟨served, hrequests⟩ := hrequests
  have hexact := (telemetry_exact_iff closedServer hs hdone).mpr fun p hp r hr => by
    rw [hrequests] at hp
    obtain rfl := List.mem_singleton.mp hp
    obtain rfl := Option.some.inj (hdecision.symm.trans hr)
    exact hrecordable
  exact ⟨s, hs, hdone, hexact.1 0 ordinary served _ (by rw [hrequests]; rfl) hdecision⟩

end RateX
