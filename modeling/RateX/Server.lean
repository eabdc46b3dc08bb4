import RateX.Middleware
import RateX.Transducer

/-!
# The server

What `main` wires: one factory, the default limiter it builds first, and the
middleware over both. A `World` is the factory with its heap and the calls of
`Allow` made so far, each with the object it was made on. The answer of a call
is part of the request that makes it, so that any answer is possible, and the
objects keep the parameters they were built with. Two of them may have been built
alike and still be two: a memory bucket's tokens are the object's own.
-/

namespace RateX

open Transducer

structure Call where
  lim : Ref
  limiter : RateLimiter
  key : String
  answer : Outcome

structure World where
  factory : LimiterFactory
  heap : Heap
  calls : List Call

namespace World

def fromPolicy (w : World) (policy : Policy) : Ref × World :=
  let (lim, factory, heap) := w.factory.fromPolicy w.heap policy
  (lim, { w with factory, heap })

/-- An address with nothing behind it is a nil interface. -/
def allow (answer : Outcome) (w : World) (lim : Ref) (key : String) : Outcome × World :=
  match w.heap[lim]? with
  | some limiter => (answer, { w with calls := w.calls ++ [⟨lim, limiter, key, answer⟩] })
  | none => (.error .panic, w)

theorem allow_of_some {w : World} {lim : Ref} {limiter : RateLimiter}
    (h : w.heap[lim]? = some limiter) (answer : Outcome) (key : String) :
    w.allow answer lim key =
      (answer, { w with calls := w.calls ++ [⟨lim, limiter, key, answer⟩] }) := by
  simp only [allow, h]

end World

structure Server where
  redis : Bool
  cfg : Config
  sha256 : String → String

/-- A request, what it meets, and what its limiter answers. -/
structure Attempt where
  situation : Situation
  request : Request
  answer : Outcome

namespace Server

def start (srv : Server) : Ref × World :=
  let (lim, factory, heap) := (LimiterFactory.new srv.redis srv.cfg).default []
  (lim, { factory, heap, calls := [] })

def env (srv : Server) (s : Situation) (answer : Outcome) : Env World Ref :=
  { s with
    cfg := srv.cfg
    sha256 := srv.sha256
    defaultLimiter := srv.start.1
    fromPolicy := World.fromPolicy
    allow := World.allow answer }

def serve (srv : Server) (w : World) (a : Attempt) : Served × World :=
  rateLimitWithTelemetry (srv.env a.situation a.answer) a.request w

def identify (srv : Server) (s : Situation) (req : Request) : Except IdentifyError Identity :=
  RateX.identify srv.sha256 s.db s.keysDown s.now req

def limiter (srv : Server) (policy : Policy) : RateLimiter :=
  (LimiterFactory.new srv.redis srv.cfg).newLimiter policy

/-- The policy that is asked for without one. -/
def orDefault (srv : Server) (policy : Option Policy) : Policy :=
  policy.getD (LimiterFactory.defaultPolicy srv.cfg)

/-! ## The wiring -/

/-- Limiters are memory buckets. -/
def InMemory (srv : Server) : Prop := srv.cfg.rateLimitBackend = "memory" ∨ srv.redis = false

/-- The default limiter is there, and the cache holds what it is asked for, each
object under one key. -/
structure Wired (srv : Server) (w : World) : Prop where
  redis : w.factory.redis = srv.redis
  cfg : w.factory.cfg = srv.cfg
  sound : w.factory.Sound w.heap
  default : w.heap[srv.start.1]? = some (srv.limiter (srv.orDefault none))
  owned : w.factory.Owned w.heap
  cached : w.factory.lookup (srv.orDefault none) = some srv.start.1

variable {srv : Server} {w : World}

theorem Wired.newLimiter (h : Wired srv w) (policy : Policy) :
    w.factory.newLimiter policy = srv.limiter policy := by
  obtain ⟨⟨redis, cfg, cache⟩, heap, calls⟩ := w
  obtain ⟨rfl, rfl, -, -, -, -⟩ := h
  rfl

theorem wired_start (srv : Server) : Wired srv srv.start.2 := by
  obtain ⟨hget, hsound, -, hredis, hcfg⟩ := LimiterFactory.fromPolicy_spec
    (LimiterFactory.sound_new srv.redis srv.cfg) (LimiterFactory.defaultPolicy srv.cfg)
  obtain ⟨howned, hcached, -⟩ := (LimiterFactory.owned_new srv.redis srv.cfg).fromPolicy
    (LimiterFactory.defaultPolicy srv.cfg)
  exact ⟨hredis, hcfg, hsound, hget, howned, hcached⟩

/-- The middleware's choice of a limiter: the object of the policy, built for it. -/
theorem Wired.limiterFor (h : Wired srv w) (s : Situation) (answer : Outcome)
    (policy : Option Policy) :
    let chosen := (srv.env s answer).limiterFor w policy
    chosen.2.heap[chosen.1]? = some (srv.limiter (srv.orDefault policy)) ∧
      chosen.2.factory.lookup (srv.orDefault policy) = some chosen.1 ∧ Wired srv chosen.2 ∧
      chosen.2.calls = w.calls := by
  cases policy with
  | none => exact ⟨h.default, h.cached, h, rfl⟩
  | some policy =>
      obtain ⟨hget, hsound, ⟨more, hmore⟩, hredis, hcfg⟩ :=
        LimiterFactory.fromPolicy_spec h.sound policy
      obtain ⟨howned, hcached, hkept⟩ := h.owned.fromPolicy policy
      refine ⟨hget.trans (congrArg some (h.newLimiter policy)), hcached,
        ⟨hredis.trans h.redis, hcfg.trans h.cfg, hsound, ?_, howned, hkept _ _ h.cached⟩, rfl⟩
      have hlt := (List.getElem?_eq_some_iff.mp h.default).1
      calc _ = (w.heap ++ more)[srv.start.1]? := by rw [hmore]; rfl
        _ = w.heap[srv.start.1]? := List.getElem?_append_left hlt
        _ = _ := h.default

/-- Once identified, a request makes one call, on the object of the policy it goes
by, and is served by what the call answers. -/
theorem Wired.serve_of_ok (h : Wired srv w) {a : Attempt} {id : Identity}
    (hid : srv.identify a.situation a.request = .ok id) :
    let policy := ((srv.env a.situation a.answer).routePolicy a.request).or id.policy
    let served := (srv.env a.situation a.answer).respond a.request id (policyName policy) a.answer
    (srv.serve w a).1 = { served with
        metrics := .requestsTotal (routeOf a.request) a.request.method :: served.metrics } ∧
      (∃ lim, (srv.serve w a).2.factory.lookup (srv.orDefault policy) = some lim ∧
        (srv.serve w a).2.calls = w.calls ++ [⟨lim, srv.limiter (srv.orDefault policy),
          id.identity ++ ":" ++ routeOf a.request, a.answer⟩]) ∧
      Wired srv (srv.serve w a).2 := by
  intro policy served
  obtain ⟨hget, hcached, hwired, hcalls⟩ := h.limiterFor a.situation a.answer policy
  have hallow := World.allow_of_some hget a.answer (id.identity ++ ":" ++ routeOf a.request)
  unfold serve
  rw [rateLimitWithTelemetry_of_ok (srv.env a.situation a.answer) hid w]
  let answered (outcome : Outcome) : Served :=
    let served := (srv.env a.situation a.answer).respond a.request id (policyName policy) outcome
    { served with metrics := .requestsTotal (routeOf a.request) a.request.method :: served.metrics }
  change answered (World.allow a.answer _ _ _).1 = answered a.answer ∧
    (∃ lim, (World.allow a.answer _ _ _).2.factory.lookup _ = some lim ∧
      (World.allow a.answer _ _ _).2.calls = _) ∧ Wired srv (World.allow a.answer _ _ _).2
  rw [hallow, hcalls]
  exact ⟨rfl, ⟨_, hcached, rfl⟩, hwired.redis, hwired.cfg, hwired.sound, hwired.default,
    hwired.owned, hwired.cached⟩

/-- The handler runs if that is what the call answers. -/
theorem Wired.serve_of_identified (h : Wired srv w) {a : Attempt} {id : Identity}
    (hid : srv.identify a.situation a.request = .ok id)
    (hmode : srv.cfg.rateLimitFailureMode ≠ "open") :
    let policy := ((srv.env a.situation a.answer).routePolicy a.request).or id.policy
    (srv.serve w a).1.ran = a.answer.admits ∧
      (∃ lim, (srv.serve w a).2.factory.lookup (srv.orDefault policy) = some lim ∧
        (srv.serve w a).2.calls = w.calls ++ [⟨lim, srv.limiter (srv.orDefault policy),
          id.identity ++ ":" ++ routeOf a.request, a.answer⟩]) ∧
      Wired srv (srv.serve w a).2 := by
  intro policy
  obtain ⟨hserved, hcalls, hwired⟩ := h.serve_of_ok hid
  refine ⟨?_, hcalls, hwired⟩
  rw [hserved]
  exact respond_ran id (policyName policy) a.answer hmode

theorem serve_of_unidentified {a : Attempt} {e : IdentifyError}
    (h : srv.identify a.situation a.request = .error e) (w : World) :
    (srv.serve w a).1.ran = false ∧ (srv.serve w a).2 = w := by
  unfold serve
  exact rateLimitWithTelemetry_of_error (srv.env a.situation a.answer) h w

theorem Wired.serve (h : Wired srv w) (a : Attempt) : Wired srv (srv.serve w a).2 := by
  cases hid : srv.identify a.situation a.request with
  | ok id => exact (h.serve_of_ok hid).2.2
  | error e =>
      rw [(serve_of_unidentified hid w).2]
      exact h

/-- After any requests the server is wired as it was at its start. -/
theorem wired_after (srv : Server) (past : List Attempt) :
    Wired srv (after srv.serve srv.start.2 past) :=
  trace_invariant srv.serve (I := fun _ => Wired srv) (R := fun _ _ => True) (P := fun _ => True)
    (List.pairwise_of_forall fun _ _ => trivial) (fun _ _ => trivial) srv.wired_start
    fun _ _ a h _ _ => h.serve a

end Server

end RateX
