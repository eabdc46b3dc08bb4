import Mathlib.Algebra.BigOperators.Group.Finset.Piecewise
import Mathlib.Algebra.BigOperators.Group.Finset.Sigma
import RateX.ClusterReplies
import RateX.Telemetry

/-!
# The counters of the cluster

Each instance counts its requests: one counter moves when the middleware is
entered, at most one more when the limiter has answered, and in between other
requests move theirs. `Overview` adds the counters up, and reads one of them
after the other. A `Metered` run is a run of the cluster with the counters of its
instances.

In every state of every run the counters are what the requests of the instance
have come to (`overview_exact`), and what `Overview` shows is off by the requests
that arrive while it reads, at the most (`overview_read`).
-/

namespace RateX

namespace Cluster

open Redis Steps

/-! ## What a request counts for -/

/-- What has become of a request. -/
inductive Fate where
  | pending
  | refused
  | panicked
  | failed
  | rejected
  | allowed
deriving DecidableEq

def Stage.fate : Stage → Fate
  | .refused _ => .refused
  | .served _ _ (.error .panic) _ => .panicked
  | .served _ _ (.error _) _ => .failed
  | .served _ _ (.ok r) _ => if r.allowed then .allowed else .rejected
  | _ => .pending

/-- The counters that the reply moves; that of the requests has moved before. -/
def Stage.decisions (stage : Stage) : List Metric :=
  (stage.reply.map fun out => out.metrics.tail).getD []

/-- The counters that a request has moved. -/
def Task.metrics (x : Task) : List Metric :=
  .requestsTotal (routeOf x.request) x.request.method :: x.stage.decisions

def Fate.metrics (route : String) : Fate → List Metric
  | .failed => [.redisErrorsTotal]
  | .rejected => [.rejectedRequestsTotal route]
  | .allowed => [.allowedRequestsTotal route]
  | _ => []

/-- The protected handler has run. -/
def Stage.ran (stage : Stage) : Bool := stage.reply.any fun out => out.ran

def Fate.runs (mode : String) : Fate → Bool
  | .failed => mode = "open"
  | .allowed => true
  | _ => false

/-- A stage that counts for its fate. -/
structure Stage.Counted (cfg : Config) (req : Request) (stage : Stage) : Prop where
  decisions : stage.decisions = stage.fate.metrics (routeOf req)
  ran : stage.ran = stage.fate.runs cfg.rateLimitFailureMode

theorem counted_reply (srv : Server) (req : Request) (t : Ticket) (reading : ℚ)
    (outcome : Outcome) (handler : Handler) (durationMS : Int) :
    (Stage.served t reading outcome (reply srv req t outcome handler durationMS)).Counted srv.cfg
      req := by
  cases outcome with
  | ok r =>
      cases hr : r.allowed <;> constructor <;>
        simp [Stage.decisions, Stage.ran, Stage.reply, reply, Env.respond, Stage.fate,
          Fate.metrics, Fate.runs, next, abort, hr]
  | error e =>
      by_cases hopen : srv.cfg.rateLimitFailureMode = "open"
      · cases e <;> constructor <;>
          simp [Stage.decisions, Stage.ran, Stage.reply, reply, replying, Env.respond, Stage.fate,
            Fate.metrics, Fate.runs, next, abort, hopen]
      · cases e <;> constructor <;>
          simp [Stage.decisions, Stage.ran, Stage.reply, reply, replying, Env.respond, Stage.fate,
            Fate.metrics, Fate.runs, abort, hopen]

/-- A request that waits for its reply has moved no counter but that of its arrival. -/
theorem counted_of_no_reply {stage : Stage} (h : stage.reply = none) (cfg : Config)
    (req : Request) : stage.decisions = [] ∧ stage.Counted cfg req := by
  cases stage with
  | refused out => cases h
  | served t reading outcome out => cases h
  | _ => exact ⟨rfl, rfl, rfl⟩

/-- A move is made before the reply, and leaves a stage that counts for its fate. -/
theorem counted_move {srv : Server} {now : ℚ} {db : Database} {req : Request} {stage : Stage}
    {m : Move} {s : Instance × Store} {out : Stage × Instance × Store}
    (h : move srv now db req stage m s = some out) :
    stage.decisions = [] ∧ out.1.Counted srv.cfg req := by
  obtain ⟨hnone, hends⟩ := move_ends h
  refine ⟨(counted_of_no_reply hnone srv.cfg req).1, ?_⟩
  obtain ⟨handler, durationMS, t, reading, outcome, -, -, heq⟩ | ⟨-, hnone | heq⟩ := hends
  · rw [heq]
    exact counted_reply ..
  · exact (counted_of_no_reply hnone ..).2
  · rw [heq]
    exact ⟨rfl, rfl⟩

/-! ## Runs -/

/-- The cluster with the counters of each instance; `arrived` is a ghost, the
requests so far. -/
structure Metered where
  sys : Sys
  counters : ℕ → List Metric
  arrived : Finset ℕ

namespace Metered

def init (d : Deployment) (db : Database) : Metered :=
  { sys := .init d db, counters := fun _ => [], arrived := ∅ }

def inc (c : Metered) (i : ℕ) (moved : List Metric) : ℕ → List Metric :=
  Function.update c.counters i (c.counters i ++ moved)

def step (d : Deployment) (c : Metered) : Action → Option Metered
  | .arrive n i request => (Cluster.step d c.sys (.arrive n i request)).map fun sys =>
      { sys
        counters := c.inc i [.requestsTotal (routeOf request) request.method]
        arrived := insert n c.arrived }
  | .move n m => (Cluster.step d c.sys (.move n m)).map fun sys =>
      { sys
        counters := match sys.tasks n with
          | some x => c.inc x.inst x.stage.decisions
          | none => c.counters
        arrived := c.arrived }
  | a => (Cluster.step d c.sys a).map fun sys => { c with sys }

/-- What a step comes to, with the counters. -/
inductive Stepped (d : Deployment) (c : Metered) : Action → Metered → Prop
  | tick {now : ℚ} (hle : c.sys.now ≤ now) :
      Stepped d c (.tick now) { c with sys := { c.sys with now } }
  | admin {call : AdminCall} :
      Stepped d c (.admin call)
        { c with
          sys := { c.sys with db := (admin d.uuid d.sha256 c.sys.db ⟨c.sys.now, call⟩).2 } }
  | arrive {n i : ℕ} {req : Request} (hfree : c.sys.tasks n = none) :
      Stepped d c (.arrive n i req)
        { sys := { c.sys with tasks := Function.update c.sys.tasks n (some ⟨i, req, .arrived⟩) }
          counters := c.inc i [.requestsTotal (routeOf req) req.method]
          arrived := insert n c.arrived }
  | move {n : ℕ} {m : Move} {x : Task} {out : Stage × Instance × Store}
      (hx : c.sys.tasks n = some x)
      (hout : Cluster.move (d.server x.inst) c.sys.now c.sys.db x.request x.stage m
        (c.sys.instances x.inst, c.sys.store) = some out) :
      Stepped d c (.move n m)
        { sys := c.sys.put n x m out
          counters := c.inc x.inst out.1.decisions
          arrived := c.arrived }

theorem step_stepped {d : Deployment} {c c' : Metered} {a : Action} (hs : step d c a = some c') :
    Stepped d c a c' := by
  cases a with
  | tick now =>
      obtain ⟨sys, hsys, rfl⟩ := Option.map_eq_some_iff.mp hs
      cases Cluster.step_stepped hsys with
      | tick hle => exact .tick hle
  | admin call =>
      cases hs
      exact .admin
  | arrive n i req =>
      obtain ⟨sys, hsys, rfl⟩ := Option.map_eq_some_iff.mp hs
      cases Cluster.step_stepped hsys with
      | arrive hfree => exact .arrive hfree
  | move n m =>
      obtain ⟨sys, hsys, rfl⟩ := Option.map_eq_some_iff.mp hs
      cases Cluster.step_stepped hsys with
      | move hx hmember hout =>
          simp only [Sys.put, Function.update_self]
          exact .move hx hout

/-- The counters do not change what the cluster does. -/
theorem step_sys (d : Deployment) (c : Metered) (a : Action) :
    (step d c a).map Metered.sys = Cluster.step d c.sys a := by
  cases a <;> simp [step, Option.map_map, Function.comp_def]

/-- The requests of an instance with this fate. -/
def having (c : Metered) (i : ℕ) (fate : Fate) : Finset ℕ :=
  c.arrived.filter fun n => (c.sys.tasks n).any fun x => x.inst = i ∧ x.stage.fate = fate

def requests (c : Metered) (i : ℕ) : Finset ℕ :=
  c.arrived.filter fun n => (c.sys.tasks n).any fun x => x.inst = i

/-- The requests of an instance that the protected handler ran for. -/
def ran (c : Metered) (i : ℕ) : Finset ℕ :=
  c.arrived.filter fun n => (c.sys.tasks n).any fun x => x.inst = i ∧ x.stage.ran

/-- What the task `n` has moved the counters of the instance by. -/
def load (c : Metered) (i : ℕ) (q : Metric → Bool) (n : ℕ) : ℕ :=
  ((c.sys.tasks n).map fun x => if x.inst = i then x.metrics.countP q else 0).getD 0

structure Tallied (d : Deployment) (c : Metered) : Prop where
  arrived : ∀ n, n ∈ c.arrived ↔ (c.sys.tasks n).isSome
  counted : ∀ n x, c.sys.tasks n = some x → x.stage.Counted (d.cfg x.inst) x.request
  counters : ∀ i q, (c.counters i).countP q = ∑ n ∈ c.arrived, c.load i q n

theorem tallied_init (d : Deployment) (db : Database) : Tallied d (init d db) where
  arrived n := by simp [init, Sys.init]
  counted _ _ h := nomatch h
  counters _ _ := rfl

/-- One task moves the counters of its instance by `moved`. -/
theorem Tallied.count {d : Deployment} {c c' : Metered} (h : Tallied d c) {n : ℕ} {x : Task}
    (moved : List Metric) (hx : c'.sys.tasks = Function.update c.sys.tasks n (some x))
    (hcounted : x.stage.Counted (d.cfg x.inst) x.request)
    (harrived : c'.arrived = insert n c.arrived)
    (hcounters : c'.counters = c.inc x.inst moved)
    (hmoved : ∀ i q, c'.load i q n = c.load i q n + if x.inst = i then moved.countP q else 0) :
    Tallied d c' where
  arrived n' := by
    rw [harrived, hx, Finset.mem_insert, h.arrived]
    by_cases hn : n' = n
    · simp [hn]
    · simp [hn]
  counted := by
    rw [hx]
    exact forall_tasks h.counted hcounted
  counters i q := by
    let moves := if x.inst = i then moved.countP q else 0
    have hload : ∀ n', c'.load i q n' = c.load i q n' + if n' = n then moves else 0 := by
      intro n'
      by_cases hn : n' = n
      · rw [hn, if_pos rfl]
        exact hmoved i q
      · rw [if_neg hn, load, load, hx, Function.update_of_ne hn, Nat.add_zero]
    have hfresh : n ∉ c.arrived → c.load i q n = 0 := by
      intro hn
      rw [h.arrived, Option.not_isSome_iff_eq_none] at hn
      rw [load, hn]
      rfl
    calc (c'.counters i).countP q = (c.counters i).countP q + moves := by
          rw [hcounters, inc]
          by_cases hi : i = x.inst
          · simp [moves, hi]
          · simp [moves, hi, Ne.symm hi]
      _ = ∑ n' ∈ c.arrived, c.load i q n' + moves := by rw [h.counters]
      _ = ∑ n' ∈ insert n c.arrived, c.load i q n' + moves := by
          rw [Finset.sum_insert_of_eq_zero_if_notMem hfresh]
      _ = ∑ n' ∈ insert n c.arrived, (c.load i q n' + if n' = n then moves else 0) := by
          rw [Finset.sum_add_distrib, Finset.sum_ite_eq', if_pos (Finset.mem_insert_self n _)]
      _ = ∑ n' ∈ c'.arrived, c'.load i q n' := by
          rw [harrived]
          exact Finset.sum_congr rfl fun n' _ => (hload n').symm

theorem Tallied.step {d : Deployment} {c c' : Metered} (h : Tallied d c) {a : Action}
    (hs : Metered.step d c a = some c') : Tallied d c' := by
  cases step_stepped hs with
  | tick hle => exact ⟨h.arrived, h.counted, h.counters⟩
  | admin => exact ⟨h.arrived, h.counted, h.counters⟩
  | @arrive n i req hfree =>
      refine h.count (x := ⟨i, req, .arrived⟩) _ rfl ⟨rfl, rfl⟩ rfl rfl fun i' q => ?_
      simp only [load, hfree, Function.update_self]
      simp [Task.metrics, Stage.decisions, Stage.reply]
  | @move n m x out hx hout =>
      obtain ⟨hbefore, hafter⟩ := counted_move hout
      refine h.count (x := { x with stage := out.1 }) out.1.decisions rfl hafter ?_ rfl
        fun i' q => ?_
      · refine (Finset.insert_eq_of_mem ?_).symm
        rw [h.arrived, hx]
        rfl
      · by_cases hi : x.inst = i'
        · simp [load, hx, Sys.put, Task.metrics, hbefore, hi, List.countP_cons, Nat.add_comm]
        · simp [load, hx, Sys.put, hi]

theorem tallied_of_reach {d : Deployment} {db : Database} {c : Metered}
    (h : Reach (step d) Any (init d db) c) : Tallied d c :=
  h.invariant (tallied_init d db) fun _ _ _ hI _ hs => hI.step hs

/-! ## What the counters say -/

section Tallied

variable {d : Deployment} {c : Metered}

/-- A counter that a request of one fate moves by one counts the requests of that fate. -/
theorem Tallied.countP_eq (h : Tallied d c) (i : ℕ) (q : Metric → Bool) (p : Task → Bool)
    (hq : ∀ n x, c.sys.tasks n = some x → x.metrics.countP q = if p x then 1 else 0) :
    (c.counters i).countP q =
      (c.arrived.filter fun n => (c.sys.tasks n).any fun x => x.inst = i ∧ p x).card := by
  rw [h.counters, Finset.card_filter]
  refine Finset.sum_congr rfl fun n _ => ?_
  cases hx : c.sys.tasks n with
  | none => simp [load, hx]
  | some x =>
      by_cases hi : x.inst = i
      · simp [load, hx, hi, hq n x hx]
      · simp [load, hx, hi]

theorem Tallied.count_errors (h : Tallied d c) (i : ℕ) :
    (c.counters i).count .redisErrorsTotal = (c.having i .failed).card := by
  rw [List.count, h.countP_eq i _ (fun x => x.stage.fate = .failed), having]
  · simp
  · intro n x hx
    rw [Task.metrics, (h.counted n x hx).decisions]
    cases x.stage.fate <;> rfl

theorem Tallied.overview_eq (h : Tallied d c) (i : ℕ) : overview (c.counters i) =
    ⟨(c.requests i).card, (c.having i .allowed).card, (c.having i .rejected).card⟩ := by
  have hfate : ∀ n x, c.sys.tasks n = some x →
      x.metrics = .requestsTotal (routeOf x.request) x.request.method ::
        x.stage.fate.metrics (routeOf x.request) := fun n x hx =>
    congrArg (List.cons _) (h.counted n x hx).decisions
  have hrequests := h.countP_eq i Metric.isRequest (fun _ => true) fun n x hx => by
    rw [hfate n x hx]
    cases x.stage.fate <;> rfl
  have hallowed := h.countP_eq i Metric.isAllowed (fun x => x.stage.fate = .allowed)
    fun n x hx => by
      rw [hfate n x hx]
      cases x.stage.fate <;> rfl
  have hrejected := h.countP_eq i Metric.isRejected (fun x => x.stage.fate = .rejected)
    fun n x hx => by
      rw [hfate n x hx]
      cases x.stage.fate <;> rfl
  rw [overview, hrequests, hallowed, hrejected]
  simp [requests, having]

/-- The requests of an instance, by what has become of them. -/
theorem card_requests (c : Metered) (i : ℕ) :
    (c.requests i).card = (c.having i .pending).card + (c.having i .refused).card +
      (c.having i .panicked).card + (c.having i .failed).card + (c.having i .rejected).card +
        (c.having i .allowed).card := by
  simp only [requests, having, Finset.card_filter, ← Finset.sum_add_distrib]
  refine Finset.sum_congr rfl fun n _ => ?_
  cases c.sys.tasks n with
  | none => rfl
  | some x =>
      by_cases hi : x.inst = i
      · cases hfate : x.stage.fate <;> simp [hi, hfate]
      · simp [hi]

/-- The requests of one fate, over instances that serve them all. -/
theorem sum_having (c : Metered) (fate : Fate) {insts : Finset ℕ}
    (hinsts : ∀ n x, c.sys.tasks n = some x → x.inst ∈ insts) :
    ∑ i ∈ insts, (c.having i fate).card =
      (c.arrived.filter fun n => (c.sys.tasks n).any fun x => x.stage.fate = fate).card := by
  simp only [having, Finset.card_filter]
  rw [Finset.sum_comm]
  refine Finset.sum_congr rfl fun n _ => ?_
  cases hx : c.sys.tasks n with
  | none => simp
  | some x =>
      by_cases hfate : x.stage.fate = fate
      · simp [hfate, hinsts n x hx]
      · simp [hfate]

theorem Tallied.card_ran (h : Tallied d c) (i : ℕ) : (c.ran i).card = (c.having i .allowed).card +
    if (d.cfg i).rateLimitFailureMode = "open" then (c.having i .failed).card else 0 := by
  have hcard : (c.ran i).card = ∑ n ∈ c.arrived,
      ((if (c.sys.tasks n).any fun x => x.inst = i ∧ x.stage.fate = .allowed then 1 else 0) +
        if (d.cfg i).rateLimitFailureMode = "open" then
          if (c.sys.tasks n).any fun x => x.inst = i ∧ x.stage.fate = .failed then 1 else 0
        else 0) := by
    rw [ran, Finset.card_filter]
    refine Finset.sum_congr rfl fun n _ => ?_
    cases hx : c.sys.tasks n with
    | none => simp
    | some x =>
        by_cases hi : x.inst = i
        · have hran := (h.counted n x hx).ran
          rw [hi] at hran
          by_cases hopen : (d.cfg i).rateLimitFailureMode = "open" <;>
            cases hfate : x.stage.fate <;> simp [hran, hi, hopen, hfate, Fate.runs]
        · simp [hi]
  rw [hcard, Finset.sum_add_distrib, having, Finset.card_filter]
  split
  · rw [having, Finset.card_filter]
  · rw [Finset.sum_const_zero]

end Tallied

/-- **The counters are exact**: in every state of every run, whatever the instances do at the
same time, an instance's counters are what has become of its requests, each of which is counted
once, and the protected handler has run for those allowed, and with the failure mode `open` for
those whose limiter failed. -/
theorem overview_exact {d : Deployment} {db : Database} {c : Metered}
    (h : Reach (step d) Any (init d db) c) (i : ℕ) :
    overview (c.counters i) =
        ⟨(c.requests i).card, (c.having i .allowed).card, (c.having i .rejected).card⟩ ∧
      (c.counters i).count .redisErrorsTotal = (c.having i .failed).card ∧
      (c.requests i).card = (c.having i .pending).card + (c.having i .refused).card +
        (c.having i .panicked).card + (c.having i .failed).card + (c.having i .rejected).card +
          (c.having i .allowed).card ∧
      (c.ran i).card = (c.having i .allowed).card +
        if (d.cfg i).rateLimitFailureMode = "open" then (c.having i .failed).card else 0 := by
  have htallied := tallied_of_reach h
  exact ⟨htallied.overview_eq i, htallied.count_errors i, c.card_requests i, htallied.card_ran i⟩

/-- One request, which is allowed. -/
def allowedRequest : List Action :=
  [.arrive 0 0 getProducts, .move 0 (.identify false), .move 0 (.findPolicy false),
    .move 0 (.fromPolicy false), .move 0 (.allow .up 0 "a"), .move 0 (.respond (.returns 200) 1)]

theorem overview_exact_allowedRequest : ∃ c,
    exec (step onRedis) (init onRedis strictProducts) allowedRequest = some c ∧
      overview (c.counters 0) =
        ⟨(c.requests 0).card, (c.having 0 .allowed).card, (c.having 0 .rejected).card⟩ ∧
      (c.ran 0).card = (c.having 0 .allowed).card := by
  have hsome :
      (exec (step onRedis) (init onRedis strictProducts) allowedRequest).isSome = true := by
    decide +kernel
  obtain ⟨c, hc⟩ := Option.isSome_iff_exists.mp hsome
  obtain ⟨hoverview, -, -, hran⟩ := overview_exact (reach_exec .init hc) 0
  exact ⟨c, hc, hoverview, hran⟩

/-! ## Reading the counters -/

/-- `StatsHandler.Overview` reads the counters of requests, of rejected and of allowed requests
one after the other, in three states of the instance. -/
def statsOverview (first second third : Metered) (i : ℕ) : Overview :=
  ⟨(overview (first.counters i)).requests, (overview (third.counters i)).allowed,
    (overview (second.counters i)).rejected⟩

/-- The action is a new request of the instance. -/
def arrivesAt (i : ℕ) : Action → Bool
  | .arrive _ j _ => j = i
  | _ => false

theorem step_counters {d : Deployment} {c c' : Metered} {a : Action}
    (hs : step d c a = some c') (i : ℕ) : c.counters i <+: c'.counters i := by
  have hinc : ∀ j moved, c.counters i <+: c.inc j moved i := by
    intro j moved
    rw [inc]
    by_cases hi : i = j
    · rw [hi, Function.update_self]
      exact List.prefix_append _ _
    · rw [Function.update_of_ne hi]
  cases step_stepped hs with
  | tick hle => exact List.prefix_rfl
  | admin => exact List.prefix_rfl
  | arrive hfree => exact hinc _ _
  | move hx hout => exact hinc _ _

theorem inc_countP (c : Metered) (i j : ℕ) (moved : List Metric) (q : Metric → Bool) :
    (c.inc j moved i).countP q =
      (c.counters i).countP q + if j = i then moved.countP q else 0 := by
  rw [inc]
  by_cases hi : j = i
  · rw [hi, Function.update_self, List.countP_append, if_pos rfl]
  · rw [Function.update_of_ne (Ne.symm hi), if_neg hi, Nat.add_zero]

/-- The counter of requests moves with the arrivals, and with nothing else. -/
theorem Tallied.step_requests {d : Deployment} {c c' : Metered} (h : Tallied d c) {a : Action}
    (hs : Metered.step d c a = some c') (i : ℕ) :
    (c'.requests i).card = (c.requests i).card + if arrivesAt i a then 1 else 0 := by
  have h' := h.step hs
  have hcard : ∀ {c : Metered}, Tallied d c →
      (c.requests i).card = (c.counters i).countP Metric.isRequest := fun h =>
    (congrArg Overview.requests (h.overview_eq i)).symm
  rw [hcard h, hcard h']
  cases step_stepped hs with
  | tick hle => rfl
  | admin => rfl
  | arrive hfree => simp [inc_countP, arrivesAt, Metric.isRequest]
  | @move n m x out hx hout =>
      have hnone : out.1.decisions.countP Metric.isRequest = 0 := by
        rw [(counted_move hout).2.decisions]
        cases out.1.fate <;> rfl
      simp [inc_countP, arrivesAt, hnone]

theorem Tallied.exec_requests {d : Deployment} {as : List Action} {c c' : Metered}
    (h : Tallied d c) (hs : exec (Metered.step d) c as = some c') (i : ℕ) :
    Tallied d c' ∧ (c'.requests i).card = (c.requests i).card + as.countP (arrivesAt i) ∧
      c.counters i <+: c'.counters i := by
  refine exec_invariant (I := fun past t => Tallied d t ∧
    (t.requests i).card = (c.requests i).card + past.countP (arrivesAt i) ∧
      c.counters i <+: t.counters i) ?_ ?_ hs
  · exact ⟨h, rfl, List.prefix_rfl⟩
  · rintro past t t' a ⟨ht, hcard, hprefix⟩ ha
    refine ⟨ht.step ha, ?_, hprefix.trans (step_counters ha i)⟩
    rw [ht.step_requests ha, hcard, List.countP_append, List.countP_singleton, Nat.add_assoc]

theorem Tallied.having_mono {d : Deployment} {c c' : Metered} (h : Tallied d c)
    (h' : Tallied d c') {i : ℕ} (hgrown : c.counters i <+: c'.counters i) :
    (c.having i .allowed).card ≤ (c'.having i .allowed).card ∧
      (c.having i .rejected).card ≤ (c'.having i .rejected).card := by
  have heq := h.overview_eq i
  have heq' := h'.overview_eq i
  rw [overview, Overview.mk.injEq] at heq heq'
  constructor
  · rw [← heq.2.1, ← heq'.2.1]
    exact hgrown.sublist.countP_le
  · rw [← heq.2.2, ← heq'.2.2]
    exact hgrown.sublist.countP_le

/-- **Reading while requests come in.** `Overview` may show more requests decided than it shows
requests, by no more than arrive while it reads, and fewer, by no more than were not decided when
it began. -/
theorem overview_read {d : Deployment} {db : Database} {first second third : Metered}
    (h : Reach (step d) Any (init d db) first) {as bs : List Action}
    (has : exec (step d) first as = some second) (hbs : exec (step d) second bs = some third)
    (i : ℕ) :
    let shown := statsOverview first second third i
    shown.allowed + shown.rejected ≤ shown.requests + (as ++ bs).countP (arrivesAt i) ∧
      shown.requests ≤ shown.allowed + shown.rejected + ((first.having i .pending).card +
        (first.having i .refused).card + (first.having i .panicked).card +
          (first.having i .failed).card) := by
  have hfirst := tallied_of_reach h
  obtain ⟨hsecond, hrequests, hgrown⟩ := hfirst.exec_requests has i
  obtain ⟨hthird, hrequests', hgrown'⟩ := hsecond.exec_requests hbs i
  have hallowed := (hfirst.having_mono hthird (hgrown.trans hgrown')).1
  have hrejected := (hfirst.having_mono hsecond hgrown).2
  have hrejected' := (hsecond.having_mono hthird hgrown').2
  have hcard := first.card_requests i
  have hcard' := third.card_requests i
  simp only [statsOverview, hfirst.overview_eq, hsecond.overview_eq, hthird.overview_eq,
    List.countP_append]
  omega

/-- The counter of requests read before the request, that of the allowed ones after it. -/
theorem overview_read_ahead : ∃ c,
    exec (step onRedis) (init onRedis strictProducts) allowedRequest = some c ∧
      statsOverview (init onRedis strictProducts) c c 0 = ⟨0, 1, 0⟩ ∧
      1 ≤ (allowedRequest ++ []).countP (arrivesAt 0) := by
  have hrun : ∃ c ∈ exec (step onRedis) (init onRedis strictProducts) allowedRequest,
      statsOverview (init onRedis strictProducts) c c 0 = ⟨0, 1, 0⟩ := by
    decide +kernel
  obtain ⟨c, hc, hshown⟩ := hrun
  have hle := (overview_read .init hc (rfl : exec (step onRedis) c [] = some c) 0).1
  rw [hshown, Nat.zero_add] at hle
  exact ⟨c, hc, hshown, hle⟩

end Metered

end Cluster

end RateX
