import RateX.BucketAnswers
import RateX.Factory
import RateX.FixedWindowCounter
import RateX.SlidingWindowLaw

/-!
# What a limiter admits on one key

Runs of `RateLimiter.allow` on one key, from an unused limiter and an empty
Redis, in order of time: `admissions` are the instants let through. Each of
the four limiters is put in simulation with the machine its own law is about,
and `within_admissions_le` collects the four laws as one `budget` per interval.
-/

namespace RateX

open Redis Transducer Timeline

/-- In order of time, each request with a member of its own. -/
def InOrder (run : List Arrival) : Prop :=
  run.Pairwise fun a b => a.now ≤ b.now ∧ a.member ≠ b.member

/-- When the requests of a run on `key` are let through. -/
def admissions (key : String) (l : RateLimiter) (run : List Arrival) : List ℚ :=
  picked Arrival.now Outcome.admits (trace (RateLimiter.allow key) (l, Store.empty) run)

/-! ## The buckets -/

section Buckets

variable {C W : ℤ}

theorem admits_tokenResult (x : ℚ) : Outcome.admits (.ok (tokenResult C W x)) = decide (1 ≤ x) := by
  by_cases h : 1 ≤ x
  · simp [tokenResult, h, Outcome.admits]
  · simp [tokenResult, h, Outcome.admits]

theorem memoryResult_allowed (x : ℚ) : (memoryResult C W x).allowed = decide (1 ≤ x) := by
  unfold memoryResult
  split <;> simp_all

theorem take_fst (cap rate : ℚ) (b : Option (Bucket.Level ℚ)) (now : ℚ) :
    (Bucket.take cap rate b now).1 = decide (1 ≤ Bucket.available cap rate b now) := by
  rw [Bool.eq_iff_iff, decide_eq_true_eq]
  exact Bucket.take_fst_iff

def TokenSim (C W : ℤ) (key : String) (s : RateLimiter × Store) (b : Option (Bucket.Level ℚ)) :
    Prop :=
  s.1 = .token (newTokenBucket C (.ofSeconds W)) ∧
    HoldsUntil W (s.2 ("rl:token" ++ ":" ++ key)) b ∧ Bucket.Within (C : ℚ) b

theorem tokenSim_step (hC : 1 ≤ C) (hW : 1 ≤ W) (hfit : Duration.Fits W) {key : String}
    {s : RateLimiter × Store} {b : Option (Bucket.Level ℚ)} (h : TokenSim C W key s b)
    (a : Arrival) :
    (RateLimiter.allow key s a).1.admits = (taken C W b a.now).1 ∧
      TokenSim C W key (RateLimiter.allow key s a).2 (taken C W b a.now).2 := by
  obtain ⟨l, store⟩ := s
  obtain ⟨rfl, hkey, hwithin⟩ := h
  obtain ⟨hreply, hnext⟩ := tokenExecLive_spec hC hW hkey hwithin a.now
  obtain ⟨hout, hslot⟩ := token_allow hC hW hfit hreply
  have hC0 : (0 : ℚ) ≤ C := (cast_pos hC).le
  simp only [RateLimiter.allow]
  rw [hout, admits_tokenResult, take_fst]
  exact ⟨rfl, rfl, hslot ▸ hnext, Bucket.within_take hC0 (ratePerMs_nonneg hC hW) hwithin a.now⟩

/-- A run of calls and a run of the bucket, both from nothing. -/
theorem tokenSim_run (hC : 1 ≤ C) (hW : 1 ≤ W) (hfit : Duration.Fits W) (key : String)
    (run : List Arrival) :
    let start := (RateLimiter.token (newTokenBucket C (.ofSeconds W)), Store.empty)
    (trace (RateLimiter.allow key) start run).map (fun p => (p.1.now, p.2.admits)) =
        (trace (taken C W) none (run.map Arrival.now)).map (fun p => (p.1, p.2)) ∧
      TokenSim C W key (after (RateLimiter.allow key) start run)
        (after (taken C W) none (run.map Arrival.now)) :=
  trace_observe (RateLimiter.allow key) (taken C W) Arrival.now Outcome.admits
    (fun granted => granted) run (S := fun _ => TokenSim C W key)
    (R := fun _ _ => True) (P := fun _ => True) (List.pairwise_of_forall fun _ _ => trivial)
    (fun _ _ => trivial) (s := (.token (newTokenBucket C (.ofSeconds W)), Store.empty)) (t := none)
    ⟨rfl, holdsUntil_none W, Bucket.within_none⟩
    fun _ _ _ a h _ _ => tokenSim_step hC hW hfit h a

theorem admissions_token (hC : 1 ≤ C) (hW : 1 ≤ W) (hfit : Duration.Fits W) (key : String)
    (run : List Arrival) :
    admissions key (.token (newTokenBucket C (.ofSeconds W))) run =
      Bucket.grantTimes (C : ℚ) (ratePerMs C W) (run.map Arrival.now) :=
  picked_congr (fun t => t) (tokenSim_run hC hW hfit key run).1

/-- The answer to call `i` of the calls `a 0, a 1, …` on `key`, of an unused limiter. -/
def calledAt (key : String) (l : RateLimiter) (a : ℕ → Arrival) (i : ℕ) : Outcome :=
  (RateLimiter.allow key
    (after (RateLimiter.allow key) (l, Store.empty) ((List.range i).map a)) (a i)).1

/-- `Allow` makes what it returns of its script's answer. -/
theorem calledAt_token (hC : 1 ≤ C) (hW : 1 ≤ W) (hfit : Duration.Fits W) (key : String)
    (a : ℕ → Arrival) (i : ℕ) :
    calledAt key (.token (newTokenBucket C (.ofSeconds W))) a i =
      parseReply (answerAt C W (fun j => (a j).now) i) W := by
  obtain ⟨-, hsim⟩ := tokenSim_run hC hW hfit key ((List.range i).map a)
  rw [List.map_map] at hsim
  unfold calledAt
  revert hsim
  generalize after (RateLimiter.allow key) _ _ = s
  rintro ⟨hl, hkey, hwithin⟩
  obtain ⟨l, store⟩ := s
  obtain rfl := hl
  obtain ⟨hout, -⟩ := token_allow hC hW hfit (tokenExecLive_spec hC hW hkey hwithin (a i).now).1
  simp only [RateLimiter.allow]
  rw [hout, answerAt_eq hC hW, parseReply_tokenReply]
  rfl

/-- **The admission law of `Allow`.** On agreeing clocks that do not run backwards, a
call of a token bucket is allowed iff no earlier call started a stretch whose allowed
calls, with this one, exceed the capacity and what the stretch earned; and it returns
what it would if Redis deleted no key. -/
theorem calledAt_token_iff (hC : 1 ≤ C) (hW : 1 ≤ W) (hfit : Duration.Fits W) (key : String)
    {a : ℕ → Arrival} (ha : Monotone fun i => (a i).now) (i : ℕ) :
    let called := calledAt key (.token (newTokenBucket C (.ofSeconds W))) a
    ((called i).admits = true ↔ ∀ j ≤ i, (tally (fun k => (called k).admits) j i : ℚ) + 1 ≤
        C + C / W * (((a i).now - (a j).now) / 1000)) ∧
      called i = parseReply (answerKept C W (fun j => (a j).now) i) W := by
  intro called
  have hcalled : ∀ k, called k = parseReply (answerAt C W (fun j => (a j).now) k) W :=
    calledAt_token hC hW hfit key a
  have hadmits : ∀ k, (called k).admits = allowedAt C W (fun j => (a j).now) k := fun k => by
    rw [hcalled, allowedAt, answerAt_eq hC hW, parseReply_tokenReply, admits_tokenResult,
      allows_tokenReply]
  refine ⟨?_, ?_⟩
  · simp only [hadmits]
    exact allowedAt_iff hC hW ha i
  · rw [hcalled, answerAt_eq hC hW, answerKept_eq hW]

theorem memory_allow (hW : 1 ≤ W) (hfit : Duration.Fits W) {buckets : String → Option MemoryBucket}
    {key : String} {b : Option (Bucket.Level ℚ)} (hb : buckets key = b.map memoryBucket) (now : ℚ)
    (hnow : ∀ l, b = some l → l.time ≤ now) :
    let l : MemoryTokenBucket := { buckets, capacity := C, window := .ofSeconds W }
    (l.allow now key).1.allowed = (taken C W b now).1 ∧
      (l.allow now key).2 = MemoryTokenBucket.mk
        (Function.update buckets key ((taken C W b now).2.map memoryBucket)) C (.ofSeconds W) := by
  intro l
  rw [memory_answer hW (Duration.seconds_ofSeconds hfit) buckets key hb now hnow,
    memoryResult_allowed]
  exact ⟨(take_fst ..).symm, rfl⟩

/-- The bucket of a key in the memory limiter, whose last request is past. -/
def MemorySim (C W : ℤ) (key : String) (past : List (Arrival × Outcome)) (s : RateLimiter × Store)
    (b : Option (Bucket.Level ℚ)) : Prop :=
  (∃ buckets, s.1 = .memory { buckets, capacity := C, window := .ofSeconds W } ∧
    buckets key = b.map memoryBucket) ∧ ∀ l, b = some l → ∃ p ∈ past, p.1.now = l.time

theorem memorySim_step (hW : 1 ≤ W) (hfit : Duration.Fits W) {key : String}
    {past : List (Arrival × Outcome)} {s : RateLimiter × Store} {b : Option (Bucket.Level ℚ)}
    (h : MemorySim C W key past s b) {a : Arrival} (ha : ∀ p ∈ past, p.1.now ≤ a.now) :
    (RateLimiter.allow key s a).1.admits = (taken C W b a.now).1 ∧
      MemorySim C W key (past ++ [(a, (RateLimiter.allow key s a).1)])
        (RateLimiter.allow key s a).2 (taken C W b a.now).2 := by
  obtain ⟨l, store⟩ := s
  obtain ⟨⟨buckets, rfl, hb⟩, hlast⟩ := h
  obtain ⟨hout, hnext⟩ := memory_allow (C := C) hW hfit hb a.now fun lvl hlvl => by
    obtain ⟨p, hp, htime⟩ := hlast lvl hlvl
    exact htime ▸ ha p hp
  simp only [RateLimiter.allow, Outcome.admits]
  refine ⟨hout, ⟨_, congrArg RateLimiter.memory hnext, Function.update_self ..⟩, ?_⟩
  intro lvl hlvl
  rw [taken_snd] at hlvl
  obtain rfl := Option.some.inj hlvl
  exact ⟨(a, _), List.mem_append_right _ (List.mem_singleton.mpr rfl), rfl⟩

theorem admissions_memory (hW : 1 ≤ W) (hfit : Duration.Fits W) (key : String) {run : List Arrival}
    (hrun : InOrder run) :
    admissions key (.memory (newMemoryTokenBucket C (.ofSeconds W))) run =
      Bucket.grantTimes (C : ℚ) (ratePerMs C W) (run.map Arrival.now) :=
  picked_congr (fun t => t) (trace_observe (RateLimiter.allow key) (taken C W) Arrival.now
    Outcome.admits (fun granted => granted) run (S := MemorySim C W key) (P := fun _ => True) hrun
    (fun _ _ => trivial) (s := (.memory (newMemoryTokenBucket C (.ofSeconds W)), Store.empty))
    (t := none) ⟨⟨_, rfl, rfl⟩, fun _ h => nomatch h⟩
    fun _ _ _ _ h ha _ => memorySim_step hW hfit h fun p hp => (ha p hp).1).1

theorem within_grantTimes {run : List Arrival} (hC : 1 ≤ C) (hW : 1 ≤ W) (hrun : InOrder run)
    (a : ℚ) {T : ℚ} (hT : 0 ≤ T) :
    (within a (a + T) (Bucket.grantTimes (C : ℚ) (ratePerMs C W) (run.map Arrival.now)) : ℚ) ≤
      C + C / W * (T / 1000) := by
  have hC0 : (0 : ℚ) ≤ C := (cast_pos hC).le
  have horder : (run.map Arrival.now).Pairwise (· ≤ ·) :=
    List.pairwise_map.mpr (hrun.imp fun h => h.1)
  calc _ ≤ (C : ℚ) + ratePerMs C W * (a + T - a) :=
        Bucket.within_grantTimes_le hC0 (ratePerMs_nonneg hC hW) horder (by linarith)
    _ = C + C / W * (T / 1000) := by rw [ratePerMs]; ring

end Buckets

/-! ## The windows -/

section Windows

variable {L W : ℤ}

/-- A request on agreeing clocks, as an execution of the script. -/
def Arrival.execution (a : Arrival) : Execution := ⟨a.now, a.now, a.member⟩

/-- What a sliding window answers a request that finds these scores in its set. -/
theorem parseReply_slidingReply (w : ℚ) (scores : List ℚ) (reading : ℚ) (resetAfter : Int) :
    ∃ retryAfter, parseReply (.ok (slidingReply L w scores reading)) resetAfter =
      .ok { allowed := decide ((scores.length : ℤ) < L), remaining := max 0 (L - scores.length - 1)
            retryAfter, limit := L, resetAfter } := by
  rcases lt_or_ge (scores.length : ℤ) L with h | h
  · have hleft : max 0 (L - scores.length - 1) = L - scores.length - 1 := by omega
    simp [slidingReply, h, parseReply, hleft]
  · have hnone : max 0 (L - scores.length - 1) = 0 := by omega
    simp [slidingReply, not_lt.mpr h, parseReply, hnone]

/-- A call of the sliding window runs one execution on the key's slot. -/
theorem sliding_allow (hfit : Duration.Fits W) {key : String} {store : Store} {a : Arrival}
    {reply : List Reply}
    (h : (slidingExec L (W * 1000) (store ("rl:sliding" ++ ":" ++ key)) a.execution).1 =
      .ok reply) :
    let l := newSlidingWindow L (.ofSeconds W)
    (l.allow store a.now a.member key).1 = parseReply (.ok reply) (truncate l.window.seconds) ∧
      (l.allow store a.now a.member key).2 ("rl:sliding" ++ ":" ++ key) =
        (slidingExec L (W * 1000) (store ("rl:sliding" ++ ":" ++ key)) a.execution).2 := by
  obtain ⟨h1, h2⟩ := run_execute h
  simp only [SlidingWindow.allow, SlidingWindow.args_eq (L := L) hfit]
  rw [show (newSlidingWindow L (.ofSeconds W)).keyPrefix = "rl:sliding" from rfl]
  exact ⟨congrArg (parseReply · _) h1, h2⟩

theorem slidingSim_step (hL : 1 ≤ L) (hW : 1 ≤ W) (hfit : Duration.Fits W) {key : String}
    {store : Store} {s : Option SetAt}
    (h : store ("rl:sliding" ++ ":" ++ key) = slotOf (W * 1000) s) (a : Arrival) :
    let l := RateLimiter.sliding (newSlidingWindow L (.ofSeconds W))
    (RateLimiter.allow key (l, store) a).1.admits =
        allows (slidingMachine L (W * 1000) s a.execution).1 ∧
      ∃ store', (RateLimiter.allow key (l, store) a).2 = (l, store') ∧
        store' ("rl:sliding" ++ ":" ++ key) =
          slotOf (W * 1000) (slidingMachine L (W * 1000) s a.execution).2 := by
  have hexec := slidingExec_eq hL (FixedWindow.window_pos hW) s a.execution
  rw [← h] at hexec
  obtain ⟨hout, hslot⟩ := sliding_allow hfit (congrArg Prod.fst hexec)
  obtain ⟨retryAfter, hparse⟩ := parseReply_slidingReply (L := L) (W * 1000)
    ((keptMembers (W * 1000) s a.execution).map Prod.snd) a.now
    (truncate (newSlidingWindow L (.ofSeconds W)).window.seconds)
  simp only [RateLimiter.allow]
  refine ⟨?_, _, rfl, hslot.trans (congrArg Prod.snd hexec)⟩
  rw [hout, slidingMachine_allows, ← List.length_map (f := Prod.snd)]
  exact congrArg Outcome.admits hparse

/-- A run in order of time, as executions of the script. -/
theorem precedes_executions {run : List Arrival} (hrun : InOrder run) :
    (run.map Arrival.execution).Pairwise Precedes ∧
      ∀ e ∈ run.map Arrival.execution, 0 ≤ e.time ∧ e.reading = e.time := by
  refine ⟨List.pairwise_map.mpr hrun, fun e he => ?_⟩
  obtain ⟨a, -, rfl⟩ := List.mem_map.mp he
  exact ⟨a.nonneg, rfl⟩

/-- A run of calls and a run of the machine, both from nothing. -/
theorem slidingSim_run (hL : 1 ≤ L) (hW : 1 ≤ W) (hfit : Duration.Fits W) (key : String)
    (run : List Arrival) :
    let l := RateLimiter.sliding (newSlidingWindow L (.ofSeconds W))
    let machine := slidingMachine L (W * 1000)
    let s := after (RateLimiter.allow key) (l, Store.empty) run
    (trace (RateLimiter.allow key) (l, Store.empty) run).map
          (fun p => (p.1.execution, p.2.admits)) =
        (trace machine none (run.map Arrival.execution)).map (fun p => (p.1, allows p.2)) ∧
      s.1 = l ∧ s.2 ("rl:sliding" ++ ":" ++ key) =
        slotOf (W * 1000) (after machine none (run.map Arrival.execution)) :=
  trace_observe (RateLimiter.allow key) (slidingMachine L (W * 1000))
    Arrival.execution Outcome.admits allows run
    (S := fun _ s set => s.1 = .sliding (newSlidingWindow L (.ofSeconds W)) ∧
      s.2 ("rl:sliding" ++ ":" ++ key) = slotOf (W * 1000) set)
    (R := fun _ _ => True) (P := fun _ => True)
    (List.pairwise_of_forall fun _ _ => trivial) (fun _ _ => trivial)
    (s := (.sliding (newSlidingWindow L (.ofSeconds W)), Store.empty)) (t := none) ⟨rfl, rfl⟩
    (by
      rintro - ⟨l, store⟩ set a ⟨rfl, hslot⟩ - -
      obtain ⟨hout, store', hnext, hslot'⟩ := slidingSim_step hL hW hfit hslot a
      exact ⟨hout, by rw [hnext], by rw [hnext]; exact hslot'⟩)

theorem admissions_sliding_exec (hL : 1 ≤ L) (hW : 1 ≤ W) (hfit : Duration.Fits W) (key : String)
    (run : List Arrival) :
    admissions key (.sliding (newSlidingWindow L (.ofSeconds W))) run =
      admittedTimes (trace (slidingExec L (W * 1000)) none (run.map Arrival.execution)) := by
  rw [trace_slidingExec hL (FixedWindow.window_pos hW)]
  exact picked_congr Execution.time (slidingSim_run hL hW hfit key run).1

theorem sparse_admissions (hL : 1 ≤ L) (hW : 1 ≤ W) (hfit : Duration.Fits W) (key : String)
    {run : List Arrival} (hrun : InOrder run) :
    SlidingLog.Sparse (W * 1000 : ℚ) L
      (admissions key (.sliding (newSlidingWindow L (.ofSeconds W))) run) := by
  obtain ⟨horder, hsync⟩ := precedes_executions hrun
  rw [admissions_sliding_exec hL hW hfit]
  exact (slidingExec_mirrors hL (FixedWindow.window_pos hW) horder hsync).2.1

/-- What a sliding window admits is the log of the reference. -/
theorem admissions_sliding (hL : 1 ≤ L) (hW : 1 ≤ W) (hfit : Duration.Fits W) (key : String)
    {run : List Arrival} (hrun : InOrder run) :
    admissions key (.sliding (newSlidingWindow L (.ofSeconds W))) run =
      after (SlidingLog.serve (W * 1000 : ℚ) L) [] (run.map Arrival.now) := by
  obtain ⟨horder, hsync⟩ := precedes_executions hrun
  obtain ⟨-, -, hlog⟩ := slidingExec_mirrors hL (FixedWindow.window_pos hW) horder hsync
  rw [admissions_sliding_exec hL hW hfit, ← hlog, after_reference, List.map_map]
  rfl

/-- **The log of `Allow`.** On agreeing clocks that do not run backwards, a call of a
sliding window returns what the limiter that never forgets answers by its log; so it is
allowed iff the window that ends with it has admitted fewer than the limit. -/
theorem allow_sliding (hL : 1 ≤ L) (hW : 1 ≤ W) (hfit : Duration.Fits W) (key : String)
    {run : List Arrival} {a : Arrival} (hrun : InOrder (run ++ [a])) :
    let l := RateLimiter.sliding (newSlidingWindow L (.ofSeconds W))
    let log := admissions key l run
    let called := (RateLimiter.allow key (after (RateLimiter.allow key) (l, Store.empty) run) a).1
    called = parseReply (reference L (W * 1000) log a.execution).1 W ∧
      (called.admits = true ↔
        (log.countP (fun t => a.now - W * 1000 < t ∧ t ≤ a.now) : ℤ) < L) := by
  intro l log called
  have hpos := FixedWindow.window_pos hW
  obtain ⟨horder, hsync⟩ := precedes_executions hrun
  obtain ⟨hrun', -, -⟩ := List.pairwise_append.mp hrun
  obtain ⟨horder', hsync'⟩ := precedes_executions hrun'
  obtain ⟨-, hl, hslot⟩ := slidingSim_run hL hW hfit key run
  have hexec := slidingExec_eq hL hpos
    (after (slidingMachine L (W * 1000)) none (run.map Arrival.execution)) a.execution
  have hlog : after (reference L (W * 1000)) [] (run.map Arrival.execution) = log :=
    (slidingExec_mirrors hL hpos horder' hsync').2.2.trans
      (admissions_sliding_exec hL hW hfit key run).symm
  -- the machine and the reference agree on the whole run, and so on its last call
  have htrace := (slidingExec_mirrors hL hpos horder hsync).1
  rw [trace_slidingExec hL hpos, List.map_append, trace_append, trace_append, hlog] at htrace
  have hreply := congrArg Prod.snd (List.cons_eq_cons.mp (List.append_inj' htrace rfl).2).1
  have hcalled : called = parseReply (reference L (W * 1000) log a.execution).1 W := by
    simp only [called]
    generalize after (RateLimiter.allow key) (l, Store.empty) run = s at hl hslot
    obtain ⟨l', store⟩ := s
    obtain rfl := hl
    rw [← hslot] at hexec
    obtain ⟨hout, -⟩ := sliding_allow hfit (congrArg Prod.fst hexec)
    have hreset : truncate (newSlidingWindow L (.ofSeconds W)).window.seconds = W := by
      simp only [newSlidingWindow, Duration.seconds_ofSeconds hfit, truncate_intCast]
    rw [hreset] at hout
    exact hout.trans (congrArg (parseReply · W) hreply)
  refine ⟨hcalled, ?_⟩
  obtain ⟨retryAfter, hparse⟩ := parseReply_slidingReply (L := L) (W * 1000)
    (SlidingLog.counted (W * 1000) log a.now) a.now W
  rw [hcalled, reference, show a.execution.time = a.now from rfl, hparse, Outcome.admits,
    decide_eq_true_eq, SlidingLog.counted, List.countP_eq_length_filter]

/-- How many of the past requests on `key` fell into each window. -/
def requested (W : ℤ) (key : String) (past : List (Arrival × Outcome)) (key' : String) (w : ℤ) :
    ℕ :=
  if key' = key then past.countP fun p => ⌊p.1.now / (W * 1000 : ℚ)⌋ = w else 0

theorem requested_append (W : ℤ) (key : String) (past : List (Arrival × Outcome)) (a : Arrival)
    (out : Outcome) (key' : String) (w : ℤ) :
    requested W key (past ++ [(a, out)]) key' w = requested W key past key' w +
      if key' = key ∧ w = ⌊a.now / (W * 1000)⌋ then 1 else 0 := by
  by_cases hkey : key' = key
  · simp only [requested, hkey, if_true, List.countP_append, List.countP_singleton,
      decide_eq_true_eq, true_and, eq_comm (a := w)]
  · simp [requested, hkey]

/-- The past of a fixed window on one key: its counters are kept, and it has
admitted no more than it counted, nor than the limit. -/
structure FixedInv (L W : ℤ) (key : String) (past : List (Arrival × Outcome))
    (s : RateLimiter × Store) : Prop where
  limiter : s.1 = .fixed (newFixedWindow L (.ofSeconds W))
  counted : ∀ now, 0 ≤ now → (∀ p ∈ past, p.1.now ≤ now) →
    FixedWindow.CountsAll (newFixedWindow L (.ofSeconds W)) W now s.2 (requested W key past)
  rank : ∀ w, (picked Arrival.now Outcome.admits past).countP (fun t => ⌊t / (W * 1000 : ℚ)⌋ = w) ≤
    requested W key past key w
  bounded : ∀ w, (picked Arrival.now Outcome.admits past).countP
    (fun t => ⌊t / (W * 1000 : ℚ)⌋ = w) ≤ L.toNat

theorem allow_fixed (hW : 1 ≤ W) (hfit : Duration.Fits W) (key : String) {store : Store}
    {number : String → ℤ → ℕ} (a : Arrival)
    (h : FixedWindow.CountsAll (newFixedWindow L (.ofSeconds W)) W a.now store number) :
    let l := newFixedWindow L (.ofSeconds W)
    let w := ⌊a.now / (W * 1000)⌋
    (RateLimiter.allow key (.fixed l, store) a).1.admits = decide ((number key w : ℤ) < L) ∧
      ∃ store', (RateLimiter.allow key (.fixed l, store) a).2 = (.fixed l, store') ∧
        FixedWindow.CountsAll l W a.now store' (fun key' w' =>
          number key' w' + if key' = key ∧ w' = w then 1 else 0) := by
  intro l w
  have hl : l.window = W * Duration.second := Duration.ofSeconds_eq hfit
  obtain ⟨store', hrun, hcounts⟩ := h.incr hW key
  obtain ⟨⟨ttl, hout⟩, hnext⟩ :=
    FixedWindow.allow_of_incr (FixedWindow.windowID_eq hl hW a.nonneg) hrun
  simp only [RateLimiter.allow]
  refine ⟨?_, _, rfl, ?_⟩
  · rw [hout]
    simp only [Outcome.admits, FixedWindow.result, decide_eq_decide]
    exact Int.add_one_le_iff
  · rw [hnext]
    split
    · exact hcounts.expire hl hW key le_rfl
    · exact hcounts

theorem fixedInv_step (hW : 1 ≤ W) (hfit : Duration.Fits W) {key : String}
    {past : List (Arrival × Outcome)} {s : RateLimiter × Store} (h : FixedInv L W key past s)
    {a : Arrival} (ha : ∀ p ∈ past, p.1.now ≤ a.now) :
    FixedInv L W key (past ++ [(a, (RateLimiter.allow key s a).1)])
      (RateLimiter.allow key s a).2 := by
  obtain ⟨l, store⟩ := s
  obtain ⟨rfl, hcounted, hrank, hbounded⟩ := h
  obtain ⟨hout, store', hnext, hcounts⟩ :=
    allow_fixed (L := L) hW hfit key a (hcounted a.now a.nonneg ha)
  have hcell : ∀ w, (picked Arrival.now Outcome.admits
      (past ++ [(a, (RateLimiter.allow key
        (.fixed (newFixedWindow L (.ofSeconds W)), store) a).1)])).countP
      (fun t => ⌊t / (W * 1000 : ℚ)⌋ = w) =
      (picked Arrival.now Outcome.admits past).countP (fun t => ⌊t / (W * 1000 : ℚ)⌋ = w) +
        if (requested W key past key ⌊a.now / (W * 1000)⌋ : ℤ) < L ∧ w = ⌊a.now / (W * 1000)⌋
          then 1 else 0 := by
    intro w
    rw [picked_append, picked_singleton, hout, List.countP_append]
    by_cases hlt : (requested W key past key ⌊a.now / (W * 1000)⌋ : ℤ) < L
    · simp [hlt, List.countP_cons, eq_comm]
    · simp [hlt]
  exact
    { limiter := by rw [hnext]
      counted := by
        intro now _ hpast
        have hle : a.now ≤ now := hpast _ (List.mem_append_right _ (List.mem_singleton.mpr rfl))
        rw [hnext]
        intro key' w' hw'
        rw [requested_append]
        exact (hcounts.later hle) key' w' hw'
      rank := by
        intro w
        rw [hcell, requested_append]
        have := hrank w
        by_cases hw : w = ⌊a.now / (W * 1000)⌋
        · subst hw
          simp only [and_true, if_true]
          split <;> omega
        · simp only [hw, and_false, if_false]
          omega
      bounded := by
        intro w
        rw [hcell]
        by_cases hw : (requested W key past key ⌊a.now / (W * 1000)⌋ : ℤ) < L ∧
            w = ⌊a.now / (W * 1000)⌋
        · have := hrank w
          rw [if_pos hw]
          rw [← hw.2] at hw
          omega
        · rw [if_neg hw]
          exact hbounded w }

theorem fixedInv_trace (hW : 1 ≤ W) (hfit : Duration.Fits W) (key : String) {run : List Arrival}
    (hrun : InOrder run) : FixedInv L W key
      (trace (RateLimiter.allow key) (.fixed (newFixedWindow L (.ofSeconds W)), Store.empty) run)
      (after (RateLimiter.allow key) (.fixed (newFixedWindow L (.ofSeconds W)), Store.empty) run) :=
  trace_invariant (RateLimiter.allow key) (I := FixedInv L W key) (P := fun _ => True)
    (s := (.fixed (newFixedWindow L (.ofSeconds W)), Store.empty)) hrun (fun _ _ => trivial)
    { limiter := rfl
      counted := fun _ _ _ key' w' _ => by
        have h0 : requested W key [] key' w' = 0 := by simp [requested]
        rw [h0]
        exact FixedWindow.counts_none _
      rank := fun _ => Nat.zero_le _
      bounded := fun _ => Nat.zero_le _ }
    fun _ _ _ h ha _ => fixedInv_step hW hfit h fun p hp => (ha p hp).1

theorem countP_admissions_fixed (hW : 1 ≤ W) (hfit : Duration.Fits W) (key : String)
    {run : List Arrival} (hrun : InOrder run) (w : ℤ) :
    (admissions key (.fixed (newFixedWindow L (.ofSeconds W))) run).countP
      (fun t => ⌊t / (W * 1000 : ℚ)⌋ = w) ≤ L.toNat :=
  (fixedInv_trace hW hfit key hrun).bounded w

end Windows

/-! ## Budgets -/

/-- A limiter fresh from the factory, for a window of `W` seconds. -/
inductive Built (W : ℤ) : RateLimiter → Prop
  | token {C : ℤ} (hC : 1 ≤ C) : Built W (.token (newTokenBucket C (.ofSeconds W)))
  | memory {C : ℤ} (hC : 1 ≤ C) : Built W (.memory (newMemoryTokenBucket C (.ofSeconds W)))
  | sliding {L : ℤ} (hL : 1 ≤ L) : Built W (.sliding (newSlidingWindow L (.ofSeconds W)))
  | fixed {L : ℤ} (hL : 1 ≤ L) : Built W (.fixed (newFixedWindow L (.ofSeconds W)))

theorem built_newLimiter {policy : Policy} (h : Accepted policy) (f : LimiterFactory) :
    Built policy.windowSeconds (f.newLimiter policy) := by
  have hcap : 1 ≤ LimiterFactory.capacity policy := by
    have := h.burst_pos
    unfold LimiterFactory.capacity
    rw [if_neg (by omega)]
    exact this
  unfold LimiterFactory.newLimiter
  split
  · exact .memory hcap
  · split
    · exact .fixed h.limit_pos
    · split
      · exact .sliding h.limit_pos
      · exact .token hcap

/-- What one key may get in a closed interval of `T` milliseconds, with a
window of `W` seconds. -/
def RateLimiter.budget (W : ℤ) (T : ℚ) : RateLimiter → ℚ
  | .token l => l.capacity + l.capacity / W * (T / 1000)
  | .memory l => l.capacity + l.capacity / W * (T / 1000)
  | .sliding l => l.limit * (⌈T / (W * 1000)⌉₊ + 1)
  | .fixed l => l.limit * (⌈T / (W * 1000)⌉₊ + 1)

/-- **Budget.** No interval sees more of one key than the limiter's budget. -/
theorem within_admissions_le {W : ℤ} (hW : 1 ≤ W) (hfit : Duration.Fits W) {l : RateLimiter}
    (hl : Built W l) (key : String) {run : List Arrival} (hrun : InOrder run) (a : ℚ) {T : ℚ}
    (hT : 0 ≤ T) : (within a (a + T) (admissions key l run) : ℚ) ≤ l.budget W T := by
  have hms := FixedWindow.window_pos hW
  cases hl with
  | token hC =>
      rw [admissions_token hC hW hfit]
      exact within_grantTimes hC hW hrun a hT
  | memory hC =>
      rw [admissions_memory hW hfit key hrun]
      exact within_grantTimes hC hW hrun a hT
  | @sliding L hL =>
      have h := Int.cast_le (R := ℚ).mpr
        ((sparse_admissions hL hW hfit key hrun).within_le hms (by omega) a T)
      push_cast at h
      exact h
  | @fixed L hL =>
      have hnat : ((L.toNat : ℕ) : ℚ) = L := by exact_mod_cast Int.toNat_of_nonneg (by omega)
      have h := Nat.cast_le (α := ℚ).mpr
        (within_le_of_cells hms (countP_admissions_fixed (L := L) hW hfit key hrun) a T)
      push_cast at h
      rw [hnat] at h
      exact h

end RateX
