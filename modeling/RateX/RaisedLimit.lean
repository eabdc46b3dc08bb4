import RateX.Admission

/-!
# Raising a limit

Two limiters of one kind and one window, the second with the larger limit, on
the same requests. A request that the smaller one admits may be refused by the
larger one, which has admitted others before; but at every point of the run the
larger one has admitted at least as many (`raisedLimit_admits`).

The buckets: what the smaller one grants is affordable for the larger one. The
sliding window: greedy stays ahead. The fixed window counts refused requests as
well, so there the decisions themselves are comparable. A limit that is not
positive admits nothing.
-/

namespace RateX

open Redis Transducer

/-- The same limiter with the same or a larger limit. -/
inductive Raised (W : ℤ) : RateLimiter → RateLimiter → Prop
  | token {C C' : ℤ} (h : C ≤ C') :
      Raised W (.token (newTokenBucket C (.ofSeconds W)))
        (.token (newTokenBucket C' (.ofSeconds W)))
  | memory {C C' : ℤ} (h : C ≤ C') : Raised W (.memory (newMemoryTokenBucket C (.ofSeconds W)))
      (.memory (newMemoryTokenBucket C' (.ofSeconds W)))
  | sliding {L L' : ℤ} (h : L ≤ L') : Raised W (.sliding (newSlidingWindow L (.ofSeconds W)))
      (.sliding (newSlidingWindow L' (.ofSeconds W)))
  | fixed {L L' : ℤ} (h : L ≤ L') :
      Raised W (.fixed (newFixedWindow L (.ofSeconds W)))
        (.fixed (newFixedWindow L' (.ofSeconds W)))

section Raised

variable {W : ℤ} {key : String} {run : List Arrival}

theorem admissions_concat (key : String) (l : RateLimiter) (run : List Arrival) (a : Arrival) :
    admissions key l (run ++ [a]) = admissions key l run ++
      if (RateLimiter.allow key (after (RateLimiter.allow key) (l, Store.empty) run) a).1.admits
        then [a.now] else [] := by
  simp only [admissions, trace_append, trace_cons, trace_nil, Timeline.picked_append,
    Timeline.picked_singleton]

/-! ## Limits that admit nothing -/

/-- A limiter that refuses whatever the store holds, and is left as it is. -/
def Refuses (l : RateLimiter) : Prop :=
  ∀ key store a, (RateLimiter.allow key (l, store) a).1.admits = false ∧
    (RateLimiter.allow key (l, store) a).2.1 = l

theorem admissions_of_refuses {l : RateLimiter} (h : Refuses l) (key : String)
    (run : List Arrival) : admissions key l run = [] := by
  refine (trace_invariant (RateLimiter.allow key)
    (I := fun past s => s.1 = l ∧ Timeline.picked Arrival.now Outcome.admits past = [])
    (R := fun _ _ => True) (P := fun _ => True) (s := (l, Store.empty))
    (List.pairwise_of_forall fun _ _ => trivial) (fun _ _ => trivial) ⟨rfl, rfl⟩ ?_).2
  rintro past ⟨l', store⟩ a ⟨rfl, hpast⟩ - -
  obtain ⟨hout, hnext⟩ := h key store a
  exact ⟨hnext, by simp [Timeline.picked_append, Timeline.picked_singleton, hpast, hout]⟩

theorem refuses_token {C : ℤ} (hC : C ≤ 0) (window : Duration) :
    Refuses (.token (newTokenBucket C window)) := by
  intro key store a
  have hcap : (newTokenBucket C window).capacity ≤ 0 := hC
  simp [RateLimiter.allow, TokenBucket.allow, hcap, Outcome.admits]

/-- The script of a sliding window without a limit never answers with `1`. -/
theorem sliding_script_refuses (argv : SlidingArgs) (hL : argv.limit ≤ 0) {clock : ℚ}
    {slot slot' : Slot} {reply : List Reply}
    (h : slidingWindowScript argv clock slot = .ok (reply, slot')) :
    ∃ retryAfter, reply = [.integer 0, .integer 0, .integer retryAfter, luaReply argv.limit] := by
  obtain ⟨members, -, ⟨hlt, -⟩ | ⟨-, hreply, -⟩⟩ := slidingWindowScript_ok h
  · have h0 : (0 : ℚ) ≤ (argv.kept members).length := Nat.cast_nonneg _
    linarith
  · exact ⟨_, hreply⟩

theorem refuses_sliding {L : ℤ} (hL : L ≤ 0) (window : Duration) :
    Refuses (.sliding (newSlidingWindow L window)) := by
  intro key store a
  refine ⟨?_, rfl⟩
  simp only [RateLimiter.allow, SlidingWindow.allow, Store.run]
  split
  · rename_i reply slot hscript
    obtain ⟨retryAfter, rfl⟩ := sliding_script_refuses (SlidingWindow.args _ _ _)
      (by simpa [SlidingWindow.args, newSlidingWindow] using hL) hscript
    simp [parseReply, luaReply, Outcome.admits]
  · rfl

/-! ## Each kind -/

theorem length_admissions_bucket {C C' : ℤ} (hW : 1 ≤ W) (h : C ≤ C') (times : List ℚ) :
    (Bucket.grantTimes (C : ℚ) (ratePerMs C W) times).length ≤
      (Bucket.grantTimes (C' : ℚ) (ratePerMs C' W) times).length := by
  rw [Bucket.length_grantTimes, Bucket.length_grantTimes]
  have hW0 : (0 : ℚ) ≤ W := (cast_pos hW).le
  have hcap : (C : ℚ) ≤ C' := by exact_mod_cast h
  refine Bucket.grants_mono (fun hcap0 => ?_) hcap ?_ times
  · exact div_nonneg (div_nonneg hcap0 hW0) (by norm_num)
  · exact div_le_div_of_nonneg_right (div_le_div_of_nonneg_right hcap hW0) (by norm_num)

theorem length_admissions_token {C C' : ℤ} (hW : 1 ≤ W) (hfit : Duration.Fits W) (h : C ≤ C') :
    (admissions key (.token (newTokenBucket C (.ofSeconds W))) run).length ≤
      (admissions key (.token (newTokenBucket C' (.ofSeconds W))) run).length := by
  rcases lt_or_ge 0 C with hC | hC
  · rw [admissions_token hC hW hfit, admissions_token (hC.trans_le h) hW hfit]
    exact length_admissions_bucket hW h _
  · rw [admissions_of_refuses (refuses_token hC _)]
    exact Nat.zero_le _

theorem length_admissions_sliding {L L' : ℤ} (hW : 1 ≤ W) (hfit : Duration.Fits W) (h : L ≤ L')
    (hrun : InOrder run) :
    (admissions key (.sliding (newSlidingWindow L (.ofSeconds W))) run).length ≤
      (admissions key (.sliding (newSlidingWindow L' (.ofSeconds W))) run).length := by
  rcases lt_or_ge 0 L with hL | hL
  · rw [admissions_sliding hL hW hfit key hrun, admissions_sliding (hL.trans_le h) hW hfit key hrun]
    exact (SlidingLog.behind_after h (List.pairwise_map.mpr (hrun.imp fun h => h.1))).length_le
  · rw [admissions_of_refuses (refuses_sliding hL _)]
    exact Nat.zero_le _

/-- A fixed window admits a request iff fewer than its limit came before it in
its window, admitted or not. -/
theorem admissions_fixed_concat {L : ℤ} (hW : 1 ≤ W) (hfit : Duration.Fits W) {a : Arrival}
    (hrun : InOrder (run ++ [a])) :
    admissions key (.fixed (newFixedWindow L (.ofSeconds W))) (run ++ [a]) =
      admissions key (.fixed (newFixedWindow L (.ofSeconds W))) run ++
        if ((run.countP fun b => ⌊b.now / (W * 1000 : ℚ)⌋ = ⌊a.now / (W * 1000 : ℚ)⌋ : ℕ) : ℤ) < L
          then [a.now] else [] := by
  obtain ⟨hbefore, -, hlast⟩ := List.pairwise_append.mp hrun
  have hinv := fixedInv_trace (L := L) hW hfit key hbefore
  have hpast : ∀ p ∈ trace (RateLimiter.allow key)
      (.fixed (newFixedWindow L (.ofSeconds W)), Store.empty) run, p.1.now ≤ a.now := fun p hp =>
    (hlast p.1 (mem_of_mem_trace hp) a (List.mem_singleton.mpr rfl)).1
  obtain ⟨hout, -⟩ := allow_fixed (L := L) hW hfit key a
    (hinv.counted a.now a.nonneg hpast)
  have hstate : after (RateLimiter.allow key)
      (.fixed (newFixedWindow L (.ofSeconds W)), Store.empty) run =
        (.fixed (newFixedWindow L (.ofSeconds W)), (after (RateLimiter.allow key)
          (.fixed (newFixedWindow L (.ofSeconds W)), Store.empty) run).2) :=
    Prod.ext hinv.limiter rfl
  have hcount : requested W key (trace (RateLimiter.allow key)
      (.fixed (newFixedWindow L (.ofSeconds W)), Store.empty) run) key ⌊a.now / (W * 1000 : ℚ)⌋ =
        run.countP fun b => ⌊b.now / (W * 1000 : ℚ)⌋ = ⌊a.now / (W * 1000 : ℚ)⌋ := by
    rw [requested, if_pos rfl]
    nth_rewrite 2 [← @trace_map_fst _ _ _ (RateLimiter.allow key)
      (.fixed (newFixedWindow L (.ofSeconds W)), Store.empty) run]
    rw [List.countP_map]
    rfl
  rw [admissions_concat, hstate, hout, hcount]
  simp only [decide_eq_true_eq]

theorem length_admissions_fixed {L L' : ℤ} (hW : 1 ≤ W) (hfit : Duration.Fits W) (h : L ≤ L')
    (hrun : InOrder run) :
    (admissions key (.fixed (newFixedWindow L (.ofSeconds W))) run).length ≤
      (admissions key (.fixed (newFixedWindow L' (.ofSeconds W))) run).length := by
  induction run using List.reverseRecOn with
  | nil => exact le_rfl
  | append_singleton run a ih =>
      rw [admissions_fixed_concat hW hfit hrun, admissions_fixed_concat hW hfit hrun,
        List.length_append, List.length_append]
      refine Nat.add_le_add (ih (hrun.sublist (List.sublist_append_left ..))) ?_
      split
      · rename_i hlt
        rw [if_pos (hlt.trans_le h)]
      · exact Nat.zero_le _

end Raised

/-- **Raising a limit lets no fewer requests through**, at any point of any run
in order of time. -/
theorem raisedLimit_admits {W : ℤ} (hW : 1 ≤ W) (hfit : Duration.Fits W) {l l' : RateLimiter}
    (h : Raised W l l') (key : String) {run : List Arrival} (hrun : InOrder run) (n : ℕ) :
    (admissions key l (run.take n)).length ≤ (admissions key l' (run.take n)).length := by
  have htake : InOrder (run.take n) := hrun.sublist (List.take_sublist n run)
  cases h with
  | token h => exact length_admissions_token hW hfit h
  | memory h =>
      rw [admissions_memory hW hfit key htake, admissions_memory hW hfit key htake]
      exact length_admissions_bucket hW h _
  | sliding h => exact length_admissions_sliding hW hfit h htake
  | fixed h => exact length_admissions_fixed hW hfit h htake

/-- A limit of one a second refuses the second of these, a limit of two none. -/
def threeRequests : List Arrival :=
  [.atEpoch "1", ⟨500, by norm_num, "2"⟩, ⟨1000, by norm_num, "3"⟩]

theorem raisedLimit_admits_three :
    (admissions "ip:a:/" (.sliding (newSlidingWindow 1 (.ofSeconds 1)))
        (threeRequests.take 3)).length ≤
      (admissions "ip:a:/" (.sliding (newSlidingWindow 2 (.ofSeconds 1)))
        (threeRequests.take 3)).length :=
  raisedLimit_admits le_rfl ⟨by norm_num, by norm_num⟩ (.sliding (by norm_num)) "ip:a:/"
    (by simp [InOrder, threeRequests, Arrival.atEpoch]; norm_num) 3

end RateX
