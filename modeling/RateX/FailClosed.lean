import RateX.Server

/-!
# Failing closed

The policy a request is under is a matter of the tables: the enabled route
policy of its method and route, else the policy of its key, else the default
(`effective`). The middleware goes by what its lookups return instead. A key
lookup that fails ends the request, and so does a limiter that fails; a route
lookup that fails is passed over, and the request is served under whatever it
would be under without a route policy (`failClosed_iff`).

Limiters on Redis that are built alike are one limiter, since their state is in
Redis. A memory bucket is the limiter of the policies of its cache key, and of no
others.
-/

namespace RateX

open Transducer

namespace Server

/-- The enabled route policy the table holds for the request, where the
middleware has the table. -/
def routeRow (s : Situation) (req : Request) : Option Policy :=
  if s.routed then s.db.enabledRoute (toUpper req.method) (routeOf req) else none

def keyRow (srv : Server) (s : Situation) (req : Request) : Option Policy :=
  if extractAPIKey req = "" then none
  else (s.db.activeKey s.now (hashAPIKey srv.sha256 (extractAPIKey req))).map Prod.snd

def effective (srv : Server) (s : Situation) (req : Request) : Policy :=
  srv.orDefault ((routeRow s req).or (srv.keyRow s req))

/-- The call was made on a limiter of the policy; in memory, on the object that
the factory keeps for it. -/
def IsOf (srv : Server) (w : World) (call : Call) (policy : Policy) : Prop :=
  call.limiter = srv.limiter policy ∧
    (srv.InMemory → w.factory.lookup policy = some call.lim)

/-- The handler runs only if a limiter built from the effective policy allowed
the request. -/
def FailClosed (srv : Server) (w : World) (a : Attempt) : Prop :=
  (srv.serve w a).1.ran = true →
    ∃ id call, srv.identify a.situation a.request = .ok id ∧
      (srv.serve w a).2.calls = w.calls ++ [call] ∧
      srv.IsOf (srv.serve w a).2 call (srv.effective a.situation a.request) ∧
      call.key = id.identity ++ ":" ++ routeOf a.request ∧ call.answer.admits = true

/-- The policies ask for one limiter. -/
def SameLimiter (srv : Server) (p q : Policy) : Prop :=
  srv.limiter p = srv.limiter q ∧
    (srv.InMemory → LimiterFactory.cacheKey srv.cfg p = LimiterFactory.cacheKey srv.cfg q)

/-- The route lookup fails on an identified request whose route policy asks for
another limiter than what the request has without it. -/
def Overlooked (srv : Server) (s : Situation) (req : Request) : Prop :=
  s.routesDown = true ∧ (∃ id, srv.identify s req = .ok id) ∧
    ∃ policy, routeRow s req = some policy ∧
      ¬ srv.SameLimiter policy (srv.orDefault (srv.keyRow s req))

variable {srv : Server} {s : Situation} {req : Request}

theorem policy_of_identify {id : Identity} (h : srv.identify s req = .ok id) :
    id.policy = srv.keyRow s req := by
  unfold identify at h
  by_cases hkey : extractAPIKey req = ""
  · rw [identify_of_no_key hkey] at h
    by_cases hip : clientAddress req = ""
    · rw [if_pos hip] at h
      cases h
    · rw [if_neg hip] at h
      obtain rfl := Except.ok.inj h
      simp only [keyRow, if_pos hkey]
  · obtain ⟨key, policy, hrow, rfl⟩ := identify_of_key hkey _ _ _ _ h
    simp only [keyRow, if_neg hkey, hrow, Option.map_some]

/-- The lookup returns the table's row, or fails and is passed over. -/
theorem routePolicy_eq (srv : Server) (s : Situation) (answer : Outcome) (req : Request) :
    (srv.env s answer).routePolicy req = if s.routesDown then none else routeRow s req := by
  unfold Env.routePolicy findPolicy routeRow
  change (if s.routed = true then _ else _) = _
  cases hrouted : s.routed with
  | false => simp
  | true => cases hdown : s.routesDown <;> simp [env, hdown]

end Server

open Server

/-- **Where the middleware fails closed.** For every failure mode but `open`,
in every world the server can be in, whatever the tables hold and whichever
lookups fail: no answer of the limiter lets the request through under another
policy than its effective one, unless a failed route lookup is overlooked. -/
theorem failClosed_iff (srv : Server) (hmode : srv.cfg.rateLimitFailureMode ≠ "open")
    (past : List Attempt) (s : Situation) (req : Request) :
    (∀ answer, srv.FailClosed (after srv.serve srv.start.2 past) ⟨s, req, answer⟩) ↔
      ¬ srv.Overlooked s req := by
  have hwired := srv.wired_after past
  generalize after srv.serve srv.start.2 past = w at hwired
  constructor
  · rintro h ⟨hdown, ⟨id, hid⟩, policy, hrow, hne⟩
    -- a limiter that says yes shows which one was asked
    let yes : Outcome := .ok ⟨true, 0, 0, 1, 0⟩
    obtain ⟨hran, ⟨lim, hcached, hcalls⟩, hwired'⟩ :=
      hwired.serve_of_identified (a := ⟨s, req, yes⟩) hid hmode
    obtain ⟨-, call, -, hcall, ⟨hlimiter, hobject⟩, -, -⟩ := h yes hran
    rw [routePolicy_eq, if_pos hdown, Option.none_or, policy_of_identify hid] at hcalls hcached
    obtain rfl := List.singleton_injective (List.append_cancel_left (hcall.symm.trans hcalls))
    rw [effective, hrow, Option.some_or] at hlimiter hobject
    refine hne ⟨hlimiter.symm, fun hmemory => ?_⟩
    have hkey := hwired'.owned.single _ _ lim (hobject hmemory) hcached
    rwa [hwired'.cfg] at hkey
  · intro h answer hran
    cases hid : srv.identify s req with
    | error e =>
        rw [(serve_of_unidentified (a := ⟨s, req, answer⟩) hid w).1] at hran
        cases hran
    | ok id =>
        obtain ⟨hadmits, ⟨lim, hcached, hcalls⟩, hwired'⟩ :=
          hwired.serve_of_identified (a := ⟨s, req, answer⟩) hid hmode
        refine ⟨id, _, rfl, hcalls, ?_, rfl, hadmits.symm.trans hran⟩
        rw [routePolicy_eq, policy_of_identify hid] at hcached ⊢
        rw [effective]
        by_cases hdown : s.routesDown = true
        · rw [if_pos hdown, Option.none_or] at hcached ⊢
          cases hrow : routeRow s req with
          | none =>
              rw [Option.none_or]
              exact ⟨rfl, fun _ => hcached⟩
          | some policy =>
              by_contra hnot
              refine h ⟨hdown, ⟨id, hid⟩, policy, hrow, fun hsame => hnot ?_⟩
              rw [Option.some_or]
              refine ⟨hsame.1.symm, fun hmemory => ?_⟩
              have hkey := hsame.2 hmemory
              rw [← hwired'.cfg] at hkey
              exact (LimiterFactory.lookup_congr hkey).trans hcached
        · rw [if_neg hdown] at hcached ⊢
          exact ⟨rfl, fun _ => hcached⟩

/-! ## The seeded policies -/

def closedServer : Server :=
  { redis := true
    cfg := ⟨"token_bucket", 100, 60000000000, 100, "redis", "closed"⟩
    sha256 := fun text => text }

def strictProducts : Database :=
  { policies := [⟨"3", "strict-login", "sliding_window", 10, 60, 10⟩]
    apiKeys := []
    routePolicies := [⟨"7", "GET", "/v1/products", "3", true⟩] }

def strictSituation (routesDown : Bool) : Situation :=
  { db := strictProducts, now := 0, keysDown := false, routesDown, routed := true,
    recording := true, handler := .returns 200, durationMS := 1 }

def getProducts : Request :=
  { method := "GET", fullPath := "/v1/products", path := "/v1/products", header := fun _ => "",
    clientIP := "203.0.113.7" }

/-- The route lookup fails, and the default bucket of a hundred lets through
what the sliding window of ten was to decide. -/
theorem failClosed_fails :
    closedServer.cfg.rateLimitFailureMode ≠ "open" ∧
      ¬ closedServer.FailClosed closedServer.start.2
        ⟨strictSituation true, getProducts, .ok ⟨true, 99, 0, 100, 60⟩⟩ := by
  refine ⟨by decide, fun h => ?_⟩
  have hmode : closedServer.cfg.rateLimitFailureMode ≠ "open" := by decide
  have hid : closedServer.identify (strictSituation true) getProducts =
      .ok ⟨"ip:203.0.113.7", "ip", "203.0.113.7", none⟩ := by decide +kernel
  obtain ⟨hran, ⟨lim, -, hcalls⟩, -⟩ := closedServer.wired_start.serve_of_identified
    (a := ⟨strictSituation true, getProducts, .ok ⟨true, 99, 0, 100, 60⟩⟩) hid hmode
  obtain ⟨-, call, -, hcall, ⟨hlimiter, -⟩, -, -⟩ := h hran
  obtain rfl := List.singleton_injective (List.append_cancel_left (hcall.symm.trans hcalls))
  have hstrict : closedServer.effective (strictSituation true) getProducts =
      ⟨"3", "strict-login", "sliding_window", 10, 60, 10⟩ := by decide +kernel
  rw [hstrict] at hlimiter
  have hdefault : ∃ l, closedServer.limiter (closedServer.orDefault none) = .token l := by
    unfold limiter LimiterFactory.newLimiter
    exact ⟨_, by rw [if_neg (by decide), if_neg (by decide), if_neg (by decide)]⟩
  have hsliding : ∃ l, closedServer.limiter ⟨"3", "strict-login", "sliding_window", 10, 60, 10⟩ =
      .sliding l := by
    unfold limiter LimiterFactory.newLimiter
    exact ⟨_, by rw [if_neg (by decide), if_neg (by decide), if_pos (by decide)]⟩
  obtain ⟨_, htoken⟩ := hdefault
  obtain ⟨_, hwindow⟩ := hsliding
  exact RateLimiter.noConfusion (htoken.symm.trans (hlimiter.trans hwindow))

/-- While the database answers, the strict route is served by its own policy. -/
theorem failClosed_iff_reachable : closedServer.FailClosed closedServer.start.2
    ⟨strictSituation false, getProducts, .ok ⟨true, 9, 0, 10, 60⟩⟩ :=
  (failClosed_iff closedServer (by decide) [] _ _).mpr (fun h => Bool.noConfusion h.1) _

end RateX
