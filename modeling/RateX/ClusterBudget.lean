import RateX.ClusterHistory
import RateX.ClusterReplies

/-!
# One history, one budget

However the requests of the cluster interleave, those of one pair of identity
and route are decided as by one limiter that serves them one after the other:
there is a history of their calls such that every request is told what that
history tells it (`requests_linearize`). The budget of a limiter is then one
budget for all instances together (`requests_within_budget`).

This is so while the calls of the pair ask for one limiter, and Redis carries
them out in the order of their readings and in time (`Timely`). The commands
after an `INCR` may come at any time or never.
-/

namespace RateX

namespace Cluster

open Redis Steps Transducer Timeline

/-! ## The system -/

/-- The reading of the clock with which the call of the request has been made. -/
def Stage.calledAt : Stage → Option ℚ
  | .counted _ reading _ _ _ _ => some reading
  | .answered _ reading _ => some reading
  | .served _ reading _ _ => some reading
  | _ => none

/-- The next call of the pair, by the task `x` with the ticket `t`: on `l`, in
time, and read no earlier than those before it. -/
structure NextCall (d : Deployment) (p : Pair) (W : ℤ) (l : RateLimiter) (s : Sys) (x : Task)
    (t : Ticket) (reading : ℚ) : Prop where
  limiter : (d.server x.inst).limiter ((d.server x.inst).orDefault t.policy) = l
  nonneg : 0 ≤ reading
  past : reading ≤ s.now
  intime : InTime W reading s.now l
  latest : ∀ n x' reading', s.tasks n = some x' → x'.isOf p = true →
    x'.stage.calledAt = some reading' → reading' ≤ reading

/-- The routes are patterns of Gin, and each call for the pair is the next. -/
def Timely (d : Deployment) (p : Pair) (W : ℤ) (l : RateLimiter) (s : Sys) : Action → Prop
  | .arrive _ _ req => Routed req
  | .move n (.allow _ reading _) => ∀ x t lim, s.tasks n = some x → x.stage = .holding t lim →
      x.isOf p = true → NextCall d p W l s x t reading
  | _ => True

/-- What a request of the pair has been told, its history told it. -/
def Stage.Judged (W : ℤ) (key : String) (l : RateLimiter) (past : List (ℕ × Arrival)) (n : ℕ) :
    Stage → Prop
  | .counted _ reading f _ redisKey count =>
      (Reached.counted f redisKey count).Judged W key l past n reading
  | .answered _ reading outcome => (Reached.answer outcome).Judged W key l past n reading
  | .served _ reading outcome _ => (Reached.answer outcome).Judged W key l past n reading
  | _ => True

structure Linear (d : Deployment) (p : Pair) (W : ℤ) (l : RateLimiter) (past : List (ℕ × Arrival))
    (s : Sys) : Prop where
  clock : 0 ≤ s.now
  ready : Ready d s
  routed : ∀ n x, s.tasks n = some x → Routed x.request
  ordered : InOrder (past.map Prod.snd)
  timely : ∀ q ∈ past, q.2.now ≤ s.now
  drawn : ∀ q ∈ past, q.2.member ∈ s.drawn
  once : (past.map Prod.fst).Nodup
  begun : ∀ q ∈ past, ∃ x, s.tasks q.1 = some x ∧ x.isOf p = true ∧
    x.stage.calledAt = some q.2.now
  follows : Follows W p.key s.now s.store past l
  judged : ∀ n x, s.tasks n = some x → x.isOf p = true → x.stage.Judged W p.key l past n

section Linear

variable {d : Deployment} {p : Pair} {W : ℤ} {l : RateLimiter} {past : List (ℕ × Arrival)}
  {s s' : Sys} {n : ℕ} {x : Task} {m : Move} {stage : Stage} {inst : Instance} {store : Store}

theorem judged_of_not_called (h : stage.calledAt = none) : stage.Judged W p.key l past n := by
  cases stage with
  | counted t reading f next redisKey count => cases h
  | answered t reading outcome => cases h
  | served t reading outcome out => cases h
  | _ => trivial

theorem Reached.Judged.append {key : String} {reached : Reached} {reading : ℚ}
    (h : reached.Judged W key l past n reading) (q : ℕ × Arrival) :
    reached.Judged W key l (past ++ [q]) n reading := by
  cases reached with
  | counted f redisKey count => exact ⟨h.1, h.2.1, fun ttl => (h.2.2 ttl).append q⟩
  | answer outcome =>
      cases outcome with
      | error e => exact trivial
      | ok r => exact Told.append h q

theorem Stage.Judged.append {key : String} (h : stage.Judged W key l past n) (q : ℕ × Arrival) :
    stage.Judged W key l (past ++ [q]) n := by
  cases stage with
  | counted t reading f next redisKey count =>
      exact (show (Reached.counted f redisKey count).Judged W key l past n reading from h).append q
  | answered t reading outcome =>
      exact (show (Reached.answer outcome).Judged W key l past n reading from h).append q
  | served t reading outcome out =>
      exact (show (Reached.answer outcome).Judged W key l past n reading from h).append q
  | _ => trivial

theorem linear_init (d : Deployment) (db : Database) (p : Pair) (W : ℤ) (hl : OfRedis l) :
    Linear d p W l [] (Sys.init d db) where
  clock := le_rfl
  ready := ready_init d db
  routed n x h := by cases h
  ordered := List.Pairwise.nil
  timely q hq := by cases hq
  drawn q hq := by cases hq
  once := List.nodup_nil
  begun q hq := by cases hq
  follows := follows_init hl 0
  judged n x h := by cases h

theorem Linear.begun_put (h : Linear d p W l past s) (hx : s.tasks n = some x)
    (hcalled : ∀ reading, x.stage.calledAt = some reading →
      stage.calledAt = some reading ∧ stage.id = x.stage.id) :
    ∀ q ∈ past, ∃ y, (s.put n x m (stage, inst, store)).tasks q.1 = some y ∧
      y.isOf p = true ∧ y.stage.calledAt = some q.2.now := by
  intro q hq
  obtain ⟨y, hy, hof, hreading⟩ := h.begun q hq
  simp only [Sys.put]
  by_cases hn : q.1 = n
  · rw [hn] at hy ⊢
    obtain rfl := Option.some.inj (hx.symm.trans hy)
    obtain ⟨hreading', hid⟩ := hcalled _ hreading
    refine ⟨_, Function.update_self .., ?_, hreading'⟩
    simpa only [Task.isOf, hid] using hof
  · exact ⟨y, by rw [Function.update_of_ne hn, hy], hof, hreading⟩

theorem Linear.routed_put (h : Linear d p W l past s) (hx : s.tasks n = some x) :
    ∀ n' y, (s.put n x m (stage, inst, store)).tasks n' = some y → Routed y.request :=
  forall_tasks h.routed (h.routed n x hx)

/-- A move that adds no call to the history. -/
theorem Linear.stay (h : Linear d p W l past s) (hx : s.tasks n = some x)
    (hready : Ready d (s.put n x m (stage, inst, store)))
    (hfollows : Follows W p.key s.now store past l)
    (hcalled : ∀ reading, x.stage.calledAt = some reading →
      stage.calledAt = some reading ∧ stage.id = x.stage.id)
    (hjudged : ({ x with stage } : Task).isOf p = true → stage.Judged W p.key l past n) :
    Linear d p W l past (s.put n x m (stage, inst, store)) where
  clock := h.clock
  ready := hready
  routed := h.routed_put hx
  ordered := h.ordered
  timely := h.timely
  drawn q hq := List.mem_append_right _ (h.drawn q hq)
  once := h.once
  begun := h.begun_put hx hcalled
  follows := hfollows
  judged := forall_tasks h.judged hjudged

/-- A move that makes the call of its task. -/
theorem Linear.extend (h : Linear d p W l past s) (hx : s.tasks n = some x)
    (hready : Ready d (s.put n x m (stage, inst, store))) {a : Arrival} (hle : a.now ≤ s.now)
    (hlatest : ∀ q ∈ past, q.2.now ≤ a.now) (hmember : m.member = some a.member)
    (hnew : a.member ∉ s.drawn) (hfirst : x.stage.calledAt = none)
    (hcalled : stage.calledAt = some a.now) (hof : ({ x with stage } : Task).isOf p = true)
    (hfollows : Follows W p.key s.now store (past ++ [(n, a)]) l)
    (hjudged : stage.Judged W p.key l (past ++ [(n, a)]) n) :
    Linear d p W l (past ++ [(n, a)]) (s.put n x m (stage, inst, store)) where
  clock := h.clock
  ready := hready
  routed := h.routed_put hx
  ordered := by
    rw [List.map_append]
    refine List.pairwise_append.mpr ⟨h.ordered, List.pairwise_singleton .., fun b hb c hc => ?_⟩
    obtain ⟨q, hq, rfl⟩ := List.mem_map.mp hb
    obtain rfl := List.mem_singleton.mp hc
    refine ⟨hlatest q hq, fun heq => hnew ?_⟩
    exact heq ▸ h.drawn q hq
  timely q hq := by
    rcases List.mem_append.mp hq with hq | hq
    · exact h.timely q hq
    · obtain rfl := List.mem_singleton.mp hq
      exact hle
  drawn q hq := by
    rcases List.mem_append.mp hq with hq | hq
    · exact List.mem_append_right _ (h.drawn q hq)
    · obtain rfl := List.mem_singleton.mp hq
      simp only [Sys.put, hmember]
      exact List.mem_append_left _ (List.mem_singleton.mpr rfl)
  once := by
    rw [List.map_append]
    refine List.nodup_append.mpr ⟨h.once, List.nodup_singleton _, fun b hb c hc heq => ?_⟩
    obtain ⟨q, hq, rfl⟩ := List.mem_map.mp hb
    obtain rfl := List.mem_singleton.mp hc
    obtain ⟨y, hy, -, hreading⟩ := h.begun q hq
    rw [heq, hx] at hy
    obtain rfl := Option.some.inj hy
    cases hfirst.symm.trans hreading
  begun q hq := by
    rcases List.mem_append.mp hq with hq | hq
    · refine h.begun_put hx (fun reading hreading => ?_) q hq
      cases hfirst.symm.trans hreading
    · obtain rfl := List.mem_singleton.mp hq
      exact ⟨_, Function.update_self .., hof, hcalled⟩
  follows := hfollows
  judged := forall_tasks (fun k y hy hof => (h.judged k y hy hof).append _) fun _ => hjudged

/-! ### Steps and runs -/

section Moved

variable {i : ℕ} {now : ℚ} {db : Database} {req : Request} {inst' : Instance} {store' : Store}
  {stage' : Stage}

theorem Moved.calledAt
    (h : Moved (d.server i) now db req inst store stage m (stage', inst', store')) :
    (∀ reading, stage.calledAt = some reading →
        stage'.calledAt = some reading ∧ stage'.id = stage.id) ∧
      (stage'.calledAt ≠ none → stage'.id = stage.id) := by
  cases h with
  | @called t lim net reading member reached =>
      refine ⟨fun _ hreading => (nomatch hreading), fun _ => ?_⟩
      cases reached <;> rfl
  | @expired t reading f redisKey count net reply =>
      refine ⟨fun _ hreading => ⟨?_, ?_⟩, fun _ => ?_⟩
      · rw [← hreading]
        cases reply <;> rfl
      · cases reply <;> rfl
      · cases reply <;> rfl
  | returned => exact ⟨fun _ hreading => ⟨hreading, rfl⟩, fun _ => rfl⟩
  | replied => exact ⟨fun _ hreading => ⟨hreading, rfl⟩, fun _ => rfl⟩
  | _ => exact ⟨fun _ hreading => (nomatch hreading), fun hne => absurd rfl hne⟩

end Moved

/-- A move of another pair's request. -/
theorem Linear.other_move (hredis : d.OnRedis) (hl : OfRedis l) (h : Linear d p W l past s)
    (hx : s.tasks n = some x) (hof : x.isOf p = false)
    (hmoved : Moved (d.server x.inst) s.now s.db x.request (s.instances x.inst) s.store x.stage m
      (stage, inst, store)) (hready : Ready d (s.put n x m (stage, inst, store))) :
    Linear d p W l past (s.put n x m (stage, inst, store)) := by
  have hkeys := hmoved.frame hredis (h.ready.fits n x hx)
    (fun t ht => pair_of_not_isOf hof (h.routed n x hx) ht) hl
  refine h.stay hx hready (h.follows.frame hkeys) hmoved.calledAt.1 fun hof' => ?_
  cases hcalled : stage.calledAt with
  | none => exact judged_of_not_called hcalled
  | some reading =>
      have hsame : ({ x with stage } : Task).isOf p = x.isOf p := by
        simp only [Task.isOf, hmoved.calledAt.2 (by simp [hcalled])]
      rw [hsame, hof] at hof'
      cases hof'

/-- A move of the pair's own. -/
theorem Linear.own_move (hW : 1 ≤ W) (hfit : Duration.Fits W) (hl : OfRedis l)
    (hbuilt : Built W l) (h : Linear d p W l past s) (hx : s.tasks n = some x)
    (hof : x.isOf p = true) (hG : Timely d p W l s (.move n m))
    (hmember : ∀ member, m.member = some member → member ∉ s.drawn)
    (hmoved : Moved (d.server x.inst) s.now s.db x.request (s.instances x.inst) s.store x.stage m
      (stage, inst, store)) (hready : Ready d (s.put n x m (stage, inst, store))) :
    ∃ past', Linear d p W l past' (s.put n x m (stage, inst, store)) := by
  obtain ⟨i, req, before⟩ := x
  have hjudged := h.judged n _ hx hof
  have hcalled := hmoved.calledAt.1
  cases hmoved with
  | @called t lim net reading member reached l' _ hcall =>
      have hnext := hG _ t lim hx rfl hof
      rw [hnext.limiter, key_of_isOf hof rfl] at hcall
      have hlatest : ∀ q ∈ past, q.2.now ≤ reading := fun q hq => by
        obtain ⟨y, hy, hof', hreading⟩ := h.begun q hq
        exact hnext.latest _ y _ hy hof' hreading
      rcases Follows.call (a := ⟨reading, hnext.nonneg, member⟩) hW hfit hl hbuilt h.ordered hlatest
        hnext.past hnext.intime h.follows n net hcall with ⟨hfollows, e, rfl⟩ | ⟨hfollows, hreached⟩
      · exact ⟨past, h.stay hx hready hfollows hcalled fun _ => trivial⟩
      · refine ⟨past ++ [(n, ⟨reading, hnext.nonneg, member⟩)], h.extend hx hready hnext.past
          hlatest rfl (hmember member rfl) rfl ?_ ?_ hfollows ?_⟩
        · cases reached <;> rfl
        · cases reached <;> exact hof
        · cases reached <;> exact hreached
  | @expired t reading f redisKey count net reply _ hsend =>
      obtain ⟨rfl, rfl, htold⟩ := hjudged
      obtain ⟨a, ha, rfl⟩ := (htold 0).mem
      have hwindow : f.window = W * Duration.second := by
        cases hbuilt with
        | fixed hL => exact Duration.ofSeconds_eq hfit
      have hfollows := h.follows.expire hwindow hW (h.timely _ ha) net
      rw [hsend] at hfollows
      refine ⟨past, h.stay hx hready hfollows hcalled fun _ => ?_⟩
      cases reply with
      | error e => exact trivial
      | ok u => exact ⟨rfl, rfl, htold⟩
  | @returned t reading f redisKey count net =>
      exact ⟨past, h.stay hx hready h.follows hcalled fun _ => hjudged.2.2 _⟩
  | replied => exact ⟨past, h.stay hx hready h.follows hcalled fun _ => hjudged⟩
  | _ => exact ⟨past, h.stay hx hready h.follows hcalled fun _ => trivial⟩

theorem linear_step (hredis : d.OnRedis) (hW : 1 ≤ W) (hfit : Duration.Fits W) (hl : OfRedis l)
    (hbuilt : Built W l) (h : Linear d p W l past s) {a : Action} (hG : Timely d p W l s a)
    (hs : step d s a = some s') : ∃ past', Linear d p W l past' s' := by
  have hready := ready_step hredis h.ready hs
  cases step_stepped hs with
  | tick hle =>
      exact ⟨past, { h with
        clock := h.clock.trans hle
        ready := hready
        timely := fun q hq => (h.timely q hq).trans hle
        follows := h.follows.later hle }⟩
  | admin => exact ⟨past, { h with ready := hready }⟩
  | @arrive n i req hfree =>
      refine ⟨past, { h with
        ready := hready
        routed := forall_tasks h.routed hG
        begun := fun q hq => ?_
        judged := forall_tasks h.judged fun _ => trivial }⟩
      obtain ⟨y, hy, hof, hreading⟩ := h.begun q hq
      have hn : q.1 ≠ n := fun heq => by
        rw [heq, hfree] at hy
        cases hy
      exact ⟨y, (Function.update_of_ne hn ..).trans hy, hof, hreading⟩
  | move =>
      obtain ⟨x, ⟨stage, inst, store⟩, hx, hmember, hmoved, hput, -⟩ := h.ready.move hredis hs
      rw [hput] at hready ⊢
      cases hof : x.isOf p with
      | true => exact h.own_move hW hfit hl hbuilt hx hof hG hmember hmoved hready
      | false => exact ⟨past, h.other_move hredis hl hx hof hmoved hready⟩

theorem linear_reach (hredis : d.OnRedis) (hW : 1 ≤ W) (hfit : Duration.Fits W) (hl : OfRedis l)
    (hbuilt : Built W l) {db : Database} (hs : Reach (step d) (Timely d p W l) (Sys.init d db) s) :
    ∃ past, Linear d p W l past s :=
  hs.invariant (I := fun s => ∃ past, Linear d p W l past s) ⟨[], linear_init d db p W hl⟩
    fun _ _ _ ⟨_, h⟩ hG hs => linear_step hredis hW hfit hl hbuilt h hG hs

/-! ## What the requests are told -/

/-- The reading of the clock with which the request was answered, and the answer. -/
def Stage.result : Stage → Option (ℚ × Result)
  | .answered _ reading (.ok r) => some (reading, r)
  | .served _ reading (.ok r) _ => some (reading, r)
  | _ => none

theorem told_of_result (h : Linear d p W l past s) (hx : s.tasks n = some x)
    (hof : x.isOf p = true) {reading : ℚ} {r : Result} (hr : x.stage.result = some (reading, r)) :
    Told p.key l past n reading r := by
  have hjudged := h.judged n x hx hof
  revert hr hjudged
  cases x.stage with
  | answered t reading' outcome =>
      intro hr hjudged
      cases outcome with
      | error e => cases hr
      | ok r' =>
          cases hr
          exact hjudged
  | served t reading' outcome out =>
      intro hr hjudged
      cases outcome with
      | error e => cases hr
      | ok r' =>
          cases hr
          exact hjudged
  | _ =>
      intro hr
      cases hr

theorem built_limiter {policy : Policy} (hacc : Accepted policy) (i : ℕ) :
    Built policy.windowSeconds ((d.server i).limiter policy) :=
  built_newLimiter hacc _

theorem fits_of_column {policy : Policy} (hacc : Accepted policy)
    (hcolumn : policy.windowSeconds < 2 ^ 31) : Duration.Fits policy.windowSeconds :=
  ⟨by have := hacc.window_pos; omega, by omega⟩

/-- **One history.** Whatever the instances of the cluster do at the same time,
and whichever commands or answers are lost, the requests of a pair are answered
as its calls in the order of their readings, each of them once, by one limiter. -/
theorem requests_linearize (d : Deployment) (hredis : d.OnRedis) (db : Database) (p : Pair)
    {policy : Policy} (hacc : Accepted policy) (hcolumn : policy.windowSeconds < 2 ^ 31) (i : ℕ)
    {s : Sys} (hs : Reach (step d)
      (Timely d p policy.windowSeconds ((d.server i).limiter policy)) (Sys.init d db) s) :
    ∃ past : List (ℕ × Arrival), InOrder (past.map Prod.snd) ∧ (past.map Prod.fst).Nodup ∧
      (∀ q ∈ past, ∃ x, s.tasks q.1 = some x ∧ x.isOf p = true ∧
        x.stage.calledAt = some q.2.now) ∧
      ∀ n x reading r, s.tasks n = some x → x.isOf p = true →
        x.stage.result = some (reading, r) →
          Told p.key ((d.server i).limiter policy) past n reading r := by
  obtain ⟨past, h⟩ := linear_reach hredis hacc.window_pos (fits_of_column hacc hcolumn)
    (ofRedis_limiter hredis i policy) (built_limiter hacc i) hs
  exact ⟨past, h.ordered, h.once, h.begun, fun n x reading r hx hof hr =>
    told_of_result h hx hof hr⟩

/-! ## The budget of a pair -/

theorem trace_ask (key : String) (s : RateLimiter × Store) (past : List (ℕ × Arrival)) :
    trace (RateLimiter.allow key) s (past.map Prod.snd) =
      (trace (ask key) s past).map fun q => (q.1.2, q.2) := by
  induction past generalizing s with
  | nil => rfl
  | cons q past ih => exact congrArg (List.cons _) (ih _)

/-- The calls of a history that are let through in an interval, as calls. -/
theorem within_admissions (key : String) (l : RateLimiter) (past : List (ℕ × Arrival)) (a b : ℚ) :
    within a b (admissions key l (past.map Prod.snd)) =
      ((trace (ask key) (l, Store.empty) past).filter fun q =>
        q.2.admits && decide (a ≤ q.1.2.now ∧ q.1.2.now ≤ b)).length := by
  rw [admissions, trace_ask, within, picked, List.countP_filterMap, List.countP_map,
    ← List.countP_eq_length_filter]
  refine List.countP_congr fun q _ => ?_
  cases hq : q.2.admits <;> simp [hq]

/-- The reading of the clock of a request whose handler ran. -/
def Stage.ranAt : Stage → Option ℚ
  | .served _ reading _ out => if out.ran then some reading else none
  | _ => none

/-- The handler runs for a request that its call lets through. -/
theorem result_of_ranAt {srv : Server} {req : Request}
    (hmode : srv.cfg.rateLimitFailureMode ≠ "open") (h : stage.Replied srv req) {reading : ℚ}
    (hran : stage.ranAt = some reading) :
    ∃ r, stage.result = some (reading, r) ∧ r.allowed = true := by
  cases stage with
  | served t reading' outcome out =>
      obtain ⟨handler, durationMS, rfl⟩ := h
      have hadmits : (Cluster.reply srv req t outcome handler durationMS).ran = outcome.admits :=
        respond_ran t.id (policyName t.policy) outcome hmode
      simp only [Stage.ranAt, hadmits] at hran
      cases outcome with
      | error e => cases hran
      | ok r =>
          cases hr : r.allowed with
          | false =>
              simp only [Outcome.admits, hr] at hran
              cases hran
          | true =>
              simp only [Outcome.admits, hr, if_true, Option.some.injEq] at hran
              exact ⟨r, by rw [Stage.result, hran], hr⟩
  | _ => cases hran

/-- **One budget.** The handlers that run for a pair, in all instances together,
keep to the budget of one limiter in every interval of the readings, unless an
instance lets through what Redis does not answer. -/
theorem requests_within_budget (d : Deployment) (hredis : d.OnRedis)
    (hmode : ∀ i, (d.cfg i).rateLimitFailureMode ≠ "open") (db : Database) (p : Pair)
    {policy : Policy} (hacc : Accepted policy) (hcolumn : policy.windowSeconds < 2 ^ 31) (i : ℕ)
    {s : Sys} (hs : Reach (step d)
      (Timely d p policy.windowSeconds ((d.server i).limiter policy)) (Sys.init d db) s)
    (a : ℚ) {T : ℚ} (hT : 0 ≤ T) (ran : Finset ℕ)
    (hran : ∀ n ∈ ran, ∃ x reading, s.tasks n = some x ∧ x.isOf p = true ∧
      x.stage.ranAt = some reading ∧ a ≤ reading ∧ reading ≤ a + T) :
    (ran.card : ℚ) ≤ ((d.server i).limiter policy).budget policy.windowSeconds T := by
  have hbuilt := built_limiter (d := d) hacc i
  obtain ⟨past, h⟩ := linear_reach hredis hacc.window_pos (fits_of_column hacc hcolumn)
    (ofRedis_limiter hredis i policy) hbuilt hs
  generalize (d.server i).limiter policy = l at hbuilt h
  have hbudget := within_admissions_le hacc.window_pos (fits_of_column hacc hcolumn) hbuilt p.key
    h.ordered a hT
  refine le_trans (Nat.cast_le.mpr ?_) hbudget
  rw [within_admissions]
  generalize hlet : (trace (ask p.key) (l, Store.empty) past).filter _ = through
  -- each of the requests is a call of its own that the history lets through
  have hsub : ran ⊆ (through.map fun q => q.1.1).toFinset := by
    intro n hn
    obtain ⟨x, reading, hx, hof, hreading, hle, hge⟩ := hran n hn
    obtain ⟨r, hr, hallowed⟩ := result_of_ranAt (hmode x.inst) (replied_reach hs hx) hreading
    obtain ⟨b, r', hmem, rfl, hagree⟩ := told_of_result h hx hof hr
    refine List.mem_toFinset.mpr (List.mem_map.mpr ⟨((n, b), .ok r'), ?_, rfl⟩)
    rw [← hlet, List.mem_filter]
    refine ⟨hmem, ?_⟩
    simp only [Outcome.admits, hagree.allowed, hallowed, Bool.true_and, decide_eq_true_eq]
    exact ⟨hle, hge⟩
  calc ran.card ≤ (through.map fun q => q.1.1).toFinset.card := Finset.card_le_card hsub
    _ ≤ (through.map fun q => q.1.1).length := List.toFinset_card_le _
    _ = through.length := List.length_map _

end Linear

/-! ### A run of two instances -/

def strict : Policy := ⟨"3", "strict-login", "sliding_window", 10, 60, 10⟩

/-- The call of a task, if it has been made, was not read after `reading`. -/
def readBy (s : Sys) (reading : ℚ) (n : ℕ) : Bool :=
  (s.tasks n).all fun x => x.stage.calledAt.all fun reading' => decide (reading' ≤ reading)

/-- Of two requests for the pair's route, each call is the next. -/
def timely (p : Pair) (s : Sys) : Action → Bool
  | .arrive n _ req => n < 2 ∧ routeOf req = p.route.text
  | .move n (.allow _ reading _) => (s.tasks n).all fun x => match x.stage with
      | .holding t _ => decide ((onRedis.server x.inst).orDefault t.policy = strict ∧
          0 ≤ reading ∧ reading ≤ s.now ∧ s.now ≤ reading + (60 : ℤ) * 1000) &&
          (List.range 2).all (readBy s reading)
      | _ => true
  | _ => true

theorem timely_of_check {p : Pair} (s : Sys) (a : Action) (htwo : ∀ n x, s.tasks n = some x → n < 2)
    (h : timely p s a = true) : Timely onRedis p 60 ((onRedis.server 0).limiter strict) s a := by
  cases a with
  | tick now => trivial
  | admin c => trivial
  | arrive n i req => exact ⟨p.route, (of_decide_eq_true h).2⟩
  | move n m =>
      cases m with
      | allow net reading member =>
          intro x t lim hx hstage _
          simp only [timely, hx, Option.all_some, hstage, Bool.and_eq_true, decide_eq_true_eq,
            List.all_eq_true, List.mem_range] at h
          obtain ⟨⟨hpolicy, hnonneg, hpast, hintime⟩, hlatest⟩ := h
          refine ⟨by rw [hpolicy]; rfl, hnonneg, hpast, hintime, fun n' x' reading' hx' _ hr => ?_⟩
          have hall := hlatest n' (htwo n' x' hx')
          simp only [readBy, hx', Option.all_some, hr, decide_eq_true_eq] at hall
          exact hall
      | _ => trivial

/-- Two requests of one client, to two instances; the answer to the first call
is lost, and the second one comes late. -/
def twoInstances : List Action :=
  [.tick 5, .arrive 0 0 getProducts, .arrive 1 1 getProducts, .move 0 (.identify false),
    .move 1 (.identify false), .move 1 (.findPolicy false), .move 0 (.findPolicy false),
    .move 0 (.fromPolicy false), .move 1 (.fromPolicy false), .move 1 (.allow .answerLost 5 "a"),
    .tick 40, .move 0 (.allow .up 7 "b"), .move 0 (.respond (.returns 200) 1)]

theorem twoInstances_run : ∃ s,
    Reach (step onRedis) (Timely onRedis ⟨"ip:203.0.113.7", products⟩ 60
      ((onRedis.server 0).limiter strict)) (Sys.init onRedis strictProducts) s ∧
      ∃ x, s.tasks 0 = some x ∧ x.isOf ⟨"ip:203.0.113.7", products⟩ = true ∧
        x.stage.ranAt = some 7 := by
  let p : Pair := ⟨"ip:203.0.113.7", products⟩
  have hrun : ∃ s ∈ exec (fun s a => if timely p s a then step onRedis s a else none)
      (Sys.init onRedis strictProducts) twoInstances,
      ((s.tasks 0).any fun x => x.isOf p && decide (x.stage.ranAt = some 7)) = true := by
    decide +kernel
  obtain ⟨s, hs, hx⟩ := hrun
  have h0 : ∀ n x, (Sys.init onRedis strictProducts).tasks n = some x → n < 2 := by
    intro n x h
    cases h
  refine ⟨s, reach_of_checked timely_of_check (fun s s' a htwo hcheck hs => ?_) .init h0 hs, ?_⟩
  · cases step_stepped hs with
    | tick => exact htwo
    | admin => exact htwo
    | arrive => exact forall_tasks htwo (of_decide_eq_true hcheck).1
    | move hx => exact forall_tasks htwo (htwo _ _ hx)
  · cases hx0 : s.tasks 0 with
    | none =>
        rw [hx0] at hx
        cases hx
    | some x =>
        rw [hx0, Option.any_some, Bool.and_eq_true, decide_eq_true_eq] at hx
        exact ⟨x, rfl, hx⟩

theorem strict_accepted : Accepted strict :=
  ⟨.inr (.inr rfl), by decide, by decide, by decide⟩

theorem requests_linearize_twoInstances : ∃ (s : Sys) (past : List (ℕ × Arrival)),
    (∃ x, s.tasks 0 = some x) ∧ InOrder (past.map Prod.snd) ∧ (past.map Prod.fst).Nodup ∧
      (∀ q ∈ past, ∃ x, s.tasks q.1 = some x ∧ x.isOf ⟨"ip:203.0.113.7", products⟩ = true ∧
        x.stage.calledAt = some q.2.now) ∧
      ∀ n x reading r, s.tasks n = some x → x.isOf ⟨"ip:203.0.113.7", products⟩ = true →
        x.stage.result = some (reading, r) → Told (Pair.key ⟨"ip:203.0.113.7", products⟩)
          ((onRedis.server 0).limiter strict) past n reading r := by
  obtain ⟨s, hs, x, hx, -⟩ := twoInstances_run
  obtain ⟨past, hpast⟩ := requests_linearize onRedis onRedis_onRedis strictProducts _
    strict_accepted (by decide) 0 hs
  exact ⟨s, past, ⟨x, hx⟩, hpast⟩

theorem requests_within_budget_twoInstances : ∃ (s : Sys) (x : Task), s.tasks 0 = some x ∧
    x.stage.ranAt = some 7 ∧ (({0} : Finset ℕ).card : ℚ) ≤
      ((onRedis.server 0).limiter strict).budget 60 0 := by
  obtain ⟨s, hs, x, hx, hof, hran⟩ := twoInstances_run
  refine ⟨s, x, hx, hran, ?_⟩
  refine requests_within_budget onRedis onRedis_onRedis
    (fun _ => show closedServer.cfg.rateLimitFailureMode ≠ "open" by decide) strictProducts _
    strict_accepted (by decide) 0 hs 7 le_rfl {0} fun n hn => ?_
  obtain rfl := Finset.mem_singleton.mp hn
  exact ⟨x, 7, hx, hof, hran, le_rfl, by norm_num⟩

end Cluster

end RateX
