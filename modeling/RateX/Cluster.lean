import RateX.FailClosed
import RateX.FixedWindowCalls
import RateX.Services

/-!
# The cluster

Instances of the API in front of one Redis and one database, and the requests
in progress on them. A request is what `RateLimitWithTelemetry` does for it, cut
where others can come in between (`move`): the key lookup, the route lookup,
`FromPolicy`, every command of `Allow`, the reply. A `step` is a move of one
request, a new request, a call of an admin service, or the passing of time. A
request may stop anywhere, and an instance that is started again is another.

A command is carried out at Redis's time, with a clock reading its caller took
before; it may be lost on its way, or its answer. `FromPolicy` is one move: a
lookup that misses changes nothing, and the insert that follows it is `late` if
the object is in the cache by then.

Alone, the moves of a request are `rateLimitWithTelemetry` (`serve_alone`).
-/

namespace RateX

namespace Cluster

open Redis Steps

/-! ## Commands over a network -/

inductive Network where
  | up
  | answerLost
  | down

def send {α : Type} (net : Network) (store : Store) (clock : ℚ) (key : String)
    (command : Slot → Except Redis.Error (α × Slot)) : Except Redis.Error α × Store :=
  match net with
  | .up => store.run clock key command
  | .answerLost => (.error .connection, (store.run clock key command).2)
  | .down => (.error .connection, store)

/-- What `Allow` has when its first command is answered: its own answer, or the
count of an `INCR`, with more commands to send. -/
inductive Reached where
  | answer (outcome : Outcome)
  | counted (l : FixedWindow) (redisKey : String) (count : ℤ)

/-- What is made of the answer to an `INCR`. -/
def Reached.ofIncr (l : FixedWindow) (redisKey : String) : Except Redis.Error ℤ → Reached
  | .error e => .answer (.error (.redis e))
  | .ok count => .counted l redisKey count

/-- `Allow` up to the answer to its first command. -/
def call (net : Network) (clock reading : ℚ) (member key : String) :
    RateLimiter × Store → Reached × (RateLimiter × Store)
  | (.token l, store) =>
      if l.capacity ≤ 0 then
        (.answer (.ok { allowed := false, remaining := 0, retryAfter := 1, limit := l.capacity,
                        resetAfter := 0 }), (.token l, store))
      else
        let (reply, store) := send net store clock (l.keyPrefix ++ ":" ++ key)
          (tokenBucketScript (l.args reading) clock)
        (.answer (parseReply reply (truncate l.window.seconds)), (.token l, store))
  | (.sliding l, store) =>
      let (reply, store) := send net store clock (l.keyPrefix ++ ":" ++ key)
        (slidingWindowScript (l.args reading member) clock)
      (.answer (parseReply reply (truncate l.window.seconds)), (.sliding l, store))
  | (.fixed l, store) =>
      match l.windowID reading with
      | none => (.answer (.error .panic), (.fixed l, store))
      | some windowID =>
          let redisKey := l.redisKey key windowID
          let (reply, store) := send net store clock redisKey Redis.incr
          (.ofIncr l redisKey reply, (.fixed l, store))
  | (.memory l, store) =>
      let (result, l) := l.allow reading key
      (.answer (.ok result), (.memory l, store))

/-! ## Instances -/

structure Instance where
  factory : LimiterFactory
  heap : Heap

/-- An instance as `main` starts it, with the default limiter at `srv.start.1`. -/
def Instance.boot (srv : Server) : Instance :=
  { factory := srv.start.2.factory, heap := srv.start.2.heap }

def Instance.fromPolicy (inst : Instance) (late : Bool) (policy : Policy) : Ref × Instance :=
  match if late then none else inst.factory.lookup policy with
  | some lim => (lim, inst)
  | none => (inst.heap.length, {
      factory := inst.factory.insert policy inst.heap.length
      heap := inst.heap ++ [inst.factory.newLimiter policy] })

/-! ## Requests in progress -/

/-- Who a request is, and the policy it goes by. -/
structure Ticket where
  id : Identity
  policy : Option Policy

def Ticket.key (t : Ticket) (req : Request) : String := t.id.identity ++ ":" ++ routeOf req

inductive Stage where
  | arrived
  | refused (served : Served)
  | identified (id : Identity)
  | chosen (t : Ticket)
  | holding (t : Ticket) (lim : Ref)
  | counted (t : Ticket) (reading : ℚ) (l : FixedWindow) (next : FixedWindow.Next)
      (redisKey : String) (count : ℤ)
  | answered (t : Ticket) (reading : ℚ) (outcome : Outcome)
  | served (t : Ticket) (reading : ℚ) (outcome : Outcome) (served : Served)

def Reached.stage (t : Ticket) (reading : ℚ) : Reached → Stage
  | .answer outcome => .answered t reading outcome
  | .counted l redisKey count =>
      .counted t reading l (if count = 1 then .expire else .ttl) redisKey count

/-- What is made of the answer to an `EXPIRE`. -/
def Stage.ofExpire (t : Ticket) (reading : ℚ) (l : FixedWindow) (redisKey : String) (count : ℤ) :
    Except Redis.Error Unit → Stage
  | .error e => .answered t reading (.error (.redis e))
  | .ok () => .counted t reading l .ttl redisKey count

/-- The next thing a request does; what fails, and what it draws, is part of it. -/
inductive Move where
  | identify (down : Bool)
  | findPolicy (down : Bool)
  | fromPolicy (late : Bool)
  | allow (net : Network) (reading : ℚ) (member : String)
  | expire (net : Network)
  | ttl (net : Network)
  | respond (handler : Handler) (durationMS : Int)

/-- What the reply of a request is made with: `main` gives the middleware both
repositories. -/
def replying (srv : Server) (handler : Handler) (durationMS : Int) : Env Unit Unit where
  db := ⟨[], [], []⟩
  now := 0
  keysDown := false
  routesDown := false
  routed := true
  recording := true
  handler
  durationMS
  cfg := srv.cfg
  sha256 := srv.sha256
  defaultLimiter := ()
  fromPolicy _ _ := ((), ())
  allow _ _ _ := (.error .panic, ())

/-- The reply to a request that `identify` fails on. -/
def refusal (req : Request) : Served :=
  { abort 401 [("error", .text "invalid_api_key")] with
    metrics := [.requestsTotal (routeOf req) req.method] }

def reply (srv : Server) (req : Request) (t : Ticket) (outcome : Outcome) (handler : Handler)
    (durationMS : Int) : Served :=
  let served := (replying srv handler durationMS).respond req t.id (policyName t.policy) outcome
  { served with metrics := .requestsTotal (routeOf req) req.method :: served.metrics }

/-- What a call makes of its `TTL`; an error is ignored. -/
def ttlValue (net : Network) (now : ℚ) (slot : Slot) : Duration :=
  match net with
  | .up => FixedWindow.ttlDuration (Redis.ttl now (live now slot))
  | _ => 0

def move (srv : Server) (now : ℚ) (db : Database) (req : Request) :
    Stage → Move → Instance × Store → Option (Stage × Instance × Store)
  | .arrived, .identify down, s =>
      match identify srv.sha256 db down now req with
      | .ok id => some (.identified id, s)
      | .error _ => some (.refused (refusal req), s)
  | .identified id, .findPolicy down, s =>
      let found := match findPolicy db down req.method (routeOf req) with
        | .ok found => found
        | .error _ => none
      some (.chosen ⟨id, found.or id.policy⟩, s)
  | .chosen t, .fromPolicy late, (inst, store) =>
      match t.policy with
      | some policy =>
          let (lim, inst) := inst.fromPolicy late policy
          some (.holding t lim, inst, store)
      | none => some (.holding t srv.start.1, inst, store)
  | .holding t lim, .allow net reading member, (inst, store) =>
      match inst.heap[lim]? with
      | some limiter =>
          let (reached, limiter, store) := call net now reading member (t.key req) (limiter, store)
          some (reached.stage t reading, { inst with heap := inst.heap.set lim limiter }, store)
      | none => some (.answered t reading (.error .panic), inst, store)
  | .counted t reading l .expire redisKey count, .expire net, (inst, store) =>
      let (reply, store) := send net store now redisKey (l.expire now)
      some (.ofExpire t reading l redisKey count reply, inst, store)
  | .counted t reading l .ttl redisKey count, .ttl net, (inst, store) =>
      some (.answered t reading (.ok (l.result count (ttlValue net now (store redisKey)))), inst,
        store)
  | .answered t reading outcome, .respond handler durationMS, s =>
      some (.served t reading outcome (reply srv req t outcome handler durationMS), s)
  | _, _, _ => none

/-! ## The system -/

/-- What is fixed over a run: the configuration of each instance, the hash and
the reading of UUIDs. -/
structure Deployment where
  cfg : ℕ → Config
  sha256 : String → String
  uuid : String → Option String

/-- `main` has a Redis client unless the backend is `memory`. -/
def Deployment.server (d : Deployment) (i : ℕ) : Server :=
  { redis := (d.cfg i).rateLimitBackend ≠ "memory", cfg := d.cfg i, sha256 := d.sha256 }

structure Task where
  inst : ℕ
  request : Request
  stage : Stage

/-- `drawn` is a ghost: the members that `uuid.NewString` has returned, each
of them once. -/
structure Sys where
  now : ℚ
  db : Database
  store : Store
  drawn : List String
  instances : ℕ → Instance
  tasks : ℕ → Option Task

def Sys.init (d : Deployment) (db : Database) : Sys :=
  { now := 0, db, store := Store.empty, drawn := [],
    instances := fun i => .boot (d.server i), tasks := fun _ => none }

inductive Action where
  | tick (now : ℚ)
  | admin (call : AdminCall)
  | arrive (n i : ℕ) (request : Request)
  | move (n : ℕ) (m : Move)

/-- The UUID a move draws. -/
def Move.member : Move → Option String
  | .allow _ _ member => some member
  | _ => none

/-- A move of the task `n` leaves its stage, its instance and Redis as in `out`. -/
def Sys.put (s : Sys) (n : ℕ) (x : Task) (m : Move) (out : Stage × Instance × Store) : Sys :=
  { s with
    store := out.2.2
    drawn := m.member.toList ++ s.drawn
    instances := Function.update s.instances x.inst out.2.1
    tasks := Function.update s.tasks n (some { x with stage := out.1 }) }

def step (d : Deployment) (s : Sys) : Action → Option Sys
  | .tick now => if s.now ≤ now then some { s with now } else none
  | .admin call => some { s with db := (admin d.uuid d.sha256 s.db ⟨s.now, call⟩).2 }
  | .arrive n i request =>
      match s.tasks n with
      | some _ => none
      | none =>
          some { s with tasks := Function.update s.tasks n (some ⟨i, request, .arrived⟩) }
  | .move n m =>
      match s.tasks n with
      | some x =>
          if m.member.any (· ∈ s.drawn) then none
          else (move (d.server x.inst) s.now s.db x.request x.stage m
            (s.instances x.inst, s.store)).map (s.put n x m)
      | none => none

/-! ## A request alone -/

/-- What the middleware of an instance is wired to, at the instant of `a`. -/
def wiring (srv : Server) (sit : Situation) (a : Arrival) : Env (Instance × Store) Ref :=
  { sit with
    cfg := srv.cfg
    sha256 := srv.sha256
    defaultLimiter := srv.start.1
    fromPolicy := fun (inst, store) policy =>
      let (lim, inst) := inst.fromPolicy false policy
      (lim, inst, store)
    allow := fun (inst, store) lim key =>
      match inst.heap[lim]? with
      | some limiter =>
          let (outcome, limiter, store) := RateLimiter.allow key (limiter, store) a
          (outcome, { inst with heap := inst.heap.set lim limiter }, store)
      | none => (.error .panic, inst, store) }

def Stage.reply : Stage → Option Served
  | .refused out => some out
  | .served _ _ _ out => some out
  | _ => none

/-- The moves of one request, with nothing in between. -/
def alone (srv : Server) (now : ℚ) (db : Database) (req : Request) :
    Stage × Instance × Store → List Move → Option (Stage × Instance × Store) :=
  exec fun x m => move srv now db req x.1 m x.2

section Alone

variable {srv : Server} {db : Database} {req : Request} {t : Ticket} {lim : Ref} {inst : Instance}
  {now reading : ℚ}

theorem move_allow {limiter : RateLimiter} (hlim : inst.heap[lim]? = some limiter) (net : Network)
    (member : String) (store : Store) :
    let out := call net now reading member (t.key req) (limiter, store)
    move srv now db req (.holding t lim) (.allow net reading member) (inst, store) =
      some (out.1.stage t reading, { inst with heap := inst.heap.set lim out.2.1 }, out.2.2) := by
  simp only [move, hlim]

theorem call_of_incr (net : Network) {l : FixedWindow} {w count : ℤ} {key : String}
    {store store' : Store} (hid : l.windowID reading = some w)
    (hrun : send net store now (l.redisKey key w) Redis.incr = (.ok count, store'))
    (member : String) : call net now reading member key (.fixed l, store) =
      (.counted l (l.redisKey key w) count, .fixed l, store') := by
  simp only [call, hid, hrun, Reached.ofIncr]

/-- `Allow`, as its moves. -/
theorem alone_allow (srv : Server) (db : Database) (req : Request) (t : Ticket)
    {limiter : RateLimiter} (hlim : inst.heap[lim]? = some limiter) (store : Store) (a : Arrival) :
    let out := RateLimiter.allow (t.key req) (limiter, store) a
    ∃ moves, alone srv a.now db req (.holding t lim, inst, store) moves =
      some (.answered t a.now out.1, { inst with heap := inst.heap.set lim out.2.1 }, out.2.2) := by
  cases limiter with
  | token l =>
      refine ⟨[.allow .up a.now a.member], ?_⟩
      simp only [alone, exec, move_allow hlim, Option.bind_some, RateLimiter.allow,
        TokenBucket.allow, call, send]
      split <;> rfl
  | sliding l =>
      refine ⟨[.allow .up a.now a.member], ?_⟩
      simp only [alone, exec, move_allow hlim, Option.bind_some, RateLimiter.allow,
        SlidingWindow.allow, call, send]
      rfl
  | memory l =>
      refine ⟨[.allow .up a.now a.member], ?_⟩
      simp only [alone, exec, move_allow hlim, Option.bind_some, RateLimiter.allow, call]
      rfl
  | fixed l =>
      cases hid : l.windowID a.now with
      | none =>
          refine ⟨[.allow .up a.now a.member], ?_⟩
          simp only [alone, exec, move_allow hlim, Option.bind_some, RateLimiter.allow,
            FixedWindow.allow, call, hid]
          rfl
      | some w =>
          rcases hrun : store.run a.now (l.redisKey (t.key req) w) Redis.incr with
            ⟨e | count, store'⟩
          · refine ⟨[.allow .up a.now a.member], ?_⟩
            simp only [alone, exec, move_allow hlim, Option.bind_some, RateLimiter.allow,
              FixedWindow.allow, call, send, hid, hrun]
            rfl
          · have hcall := call_of_incr .up hid hrun a.member
            by_cases hone : count = 1
            · refine ⟨[.allow .up a.now a.member, .expire .up, .ttl .up], ?_⟩
              simp only [alone, exec, move_allow hlim, hcall, Option.bind_some, RateLimiter.allow,
                FixedWindow.allow, hid, hrun, Reached.stage, if_pos hone]
              rfl
            · refine ⟨[.allow .up a.now a.member, .ttl .up], ?_⟩
              simp only [alone, exec, move_allow hlim, hcall, Option.bind_some, RateLimiter.allow,
                FixedWindow.allow, hid, hrun, Reached.stage, if_neg hone]
              rfl

theorem respond_wiring {sit : Situation} (hrec : sit.recording = true) (a : Arrival) (id : Identity)
    (name : String) (outcome : Outcome) : (wiring srv sit a).respond req id name outcome =
      (replying srv sit.handler sit.durationMS).respond req id name outcome := by
  have hevent (r : Result) (status : ℕ) : (wiring srv sit a).event req id name r status =
      (replying srv sit.handler sit.durationMS).event req id name r status := by
    simp only [Env.event, wiring, replying, hrec]
  cases outcome with
  | error e => cases e <;> rfl
  | ok r =>
      simp only [Env.respond, hevent]
      rfl

/-- The lookups, up to the limiter that the request will ask. -/
theorem alone_chosen {sit : Situation} (hrouted : sit.routed = true) (a : Arrival) {id : Identity}
    (hid : identify srv.sha256 sit.db sit.keysDown sit.now req = .ok id) (inst : Instance)
    (store : Store) :
    let policy := ((wiring srv sit a).routePolicy req).or id.policy
    let chosen := (wiring srv sit a).limiterFor (inst, store) policy
    alone srv sit.now sit.db req (.arrived, inst, store)
        [.identify sit.keysDown, .findPolicy sit.routesDown, .fromPolicy false] =
      some (.holding ⟨id, policy⟩ chosen.1, chosen.2) := by
  intro policy chosen
  have hidentify : move srv sit.now sit.db req .arrived (.identify sit.keysDown) (inst, store) =
      some (.identified id, inst, store) := by
    simp only [move, hid]
  have hroute : (wiring srv sit a).routePolicy req = _ := if_pos hrouted
  have hfind : move srv sit.now sit.db req (.identified id) (.findPolicy sit.routesDown)
      (inst, store) = some (.chosen ⟨id, policy⟩, inst, store) :=
    congrArg (fun found : Option Policy =>
      some (Stage.chosen ⟨id, found.or id.policy⟩, inst, store)) hroute.symm
  simp only [alone, exec, hidentify, hfind, Option.bind_some, chosen]
  cases policy <;> rfl

/-- **A request alone** is what the middleware does for it: its moves, one
after the other, leave the instance and Redis as the middleware does, and end
with its reply. -/
theorem serve_alone (srv : Server) (sit : Situation) (hrouted : sit.routed = true)
    (hrec : sit.recording = true) {a : Arrival} (hnow : a.now = sit.now) (req : Request)
    (inst : Instance) (store : Store) :
    let out := rateLimitWithTelemetry (wiring srv sit a) req (inst, store)
    ∃ moves stage, alone srv sit.now sit.db req (.arrived, inst, store) moves =
      some (stage, out.2) ∧ stage.reply = some out.1 := by
  intro out
  cases hid : identify srv.sha256 sit.db sit.keysDown sit.now req with
  | error e =>
      have hid' : identify (wiring srv sit a).sha256 (wiring srv sit a).db
          (wiring srv sit a).keysDown (wiring srv sit a).now req = .error e := hid
      refine ⟨[.identify sit.keysDown], .refused out.1, ?_, rfl⟩
      simp only [out, alone, exec, move, hid, rateLimitWithTelemetry, hid', Option.bind_some]
      rfl
  | ok id =>
      have hchosen := alone_chosen hrouted a hid inst store
      have hout := rateLimitWithTelemetry_of_ok (wiring srv sit a) hid (inst, store)
      change out = _ at hout
      simp only at hchosen hout
      generalize ((wiring srv sit a).routePolicy req).or id.policy = policy at hchosen hout
      generalize (wiring srv sit a).limiterFor (inst, store) policy = chosen at hchosen hout
      obtain ⟨lim, inst', store'⟩ := chosen
      -- the moves of `Allow`, whatever the address holds
      obtain ⟨moves, hmoves⟩ : ∃ moves, alone srv sit.now sit.db req
          (.holding ⟨id, policy⟩ lim, inst', store') moves =
            let answer := (wiring srv sit a).allow (inst', store') lim
              (id.identity ++ ":" ++ routeOf req)
            some (.answered ⟨id, policy⟩ a.now answer.1, answer.2) := by
        cases hlim : inst'.heap[lim]? with
        | none =>
            refine ⟨[.allow .up a.now a.member], ?_⟩
            simp only [alone, exec, move, wiring, hlim, Option.bind_some]
        | some limiter =>
            obtain ⟨moves, hmoves⟩ := alone_allow srv sit.db req ⟨id, policy⟩ hlim store' a
            refine ⟨moves, ?_⟩
            rw [← hnow, hmoves]
            simp only [wiring, hlim]
            rfl
      simp only at hmoves
      generalize (wiring srv sit a).allow (inst', store') lim
        (id.identity ++ ":" ++ routeOf req) = answer at hmoves hout
      rw [respond_wiring hrec] at hout
      refine ⟨[.identify sit.keysDown, .findPolicy sit.routesDown, .fromPolicy false] ++ moves ++
        [.respond sit.handler sit.durationMS], .served ⟨id, policy⟩ a.now answer.1 out.1, ?_, rfl⟩
      unfold alone at *
      rw [exec_append, exec_append, hchosen, Option.bind_some, hmoves, Option.bind_some, hout]
      rfl

end Alone

theorem serve_alone_getProducts :
    let out := rateLimitWithTelemetry (wiring closedServer (strictSituation false) (.atEpoch ""))
      getProducts (.boot closedServer, Store.empty)
    ∃ moves stage, alone closedServer 0 strictProducts getProducts
      (.arrived, .boot closedServer, Store.empty) moves = some (stage, out.2) ∧
        stage.reply = some out.1 :=
  serve_alone closedServer (strictSituation false) rfl rfl (a := .atEpoch "") rfl
    getProducts (.boot closedServer) Store.empty

end Cluster

end RateX
