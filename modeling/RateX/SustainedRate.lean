import RateX.Admission

/-!
# What `request_limit` bounds

The number a policy, the API and the dashboard call its limit per window is
`request_limit`. The window limiters are built from it; the buckets, which
serve `token_bucket` and the whole memory backend, are built from
`burst_capacity` alone, as their size and as their refill rate. So the limit
governs the long-run rate exactly where a window limiter serves the policy or
the burst is no larger than the limit (`sustainedRate_iff`).
-/

namespace RateX

open Redis Transducer Timeline

/-- Over `k` windows at most `k` times the limit, and one burst. -/
def SustainedRate (policy : Policy) (l : RateLimiter) : Prop :=
  ∀ key run, InOrder run → ∀ k : ℕ, 1 ≤ k → ∀ a : ℚ,
    (within a (a + k * (policy.windowSeconds * 1000)) (admissions key l run) : ℤ) ≤
      k * policy.requestLimit + max policy.requestLimit policy.burstCapacity

/-- The policy is served by a limiter built from its `request_limit`. -/
def LimitGoverns (f : LimiterFactory) (policy : Policy) : Prop :=
  (¬(f.cfg.rateLimitBackend = "memory" ∨ f.redis = false) ∧
    (policy.algorithm = algorithmFixedWindow ∨ policy.algorithm = algorithmSlidingWindow)) ∨
  policy.burstCapacity ≤ policy.requestLimit

instance (f : LimiterFactory) (policy : Policy) : Decidable (LimitGoverns f policy) :=
  inferInstanceAs (Decidable (_ ∨ _))

/-! ## Two bursts -/

/-- `n + 1` requests at once, and again one window later. -/
def twoBursts (n : ℕ) (W : ℤ) (hW : 1 ≤ W) : List Arrival :=
  (List.range (n + 1)).map (fun i => .atEpoch (toString i)) ++
    (List.range (n + 1)).map fun i => ⟨W * 1000, (FixedWindow.window_pos hW).le,
      toString (n + 1 + i)⟩

theorem twoBursts_now (n : ℕ) {W : ℤ} (hW : 1 ≤ W) : (twoBursts n W hW).map Arrival.now =
    List.replicate (n + 1) 0 ++ List.replicate (n + 1) ((W : ℚ) * 1000) := by
  simp [twoBursts, Arrival.atEpoch, Function.comp_def, List.map_const']

theorem inOrder_twoBursts (n : ℕ) {W : ℤ} (hW : 1 ≤ W) : InOrder (twoBursts n W hW) := by
  have hne : ∀ i j : ℕ, i < j → toString i ≠ toString j := fun i j hij h =>
    hij.ne (Nat.repr_injective h)
  have hpos := FixedWindow.window_pos hW
  refine List.pairwise_append.mpr ⟨?_, ?_, ?_⟩
  · refine List.pairwise_map.mpr (List.pairwise_lt_range.imp fun {i j} hij => ?_)
    exact ⟨le_rfl, hne i j hij⟩
  · refine List.pairwise_map.mpr (List.pairwise_lt_range.imp fun {i j} hij => ?_)
    exact ⟨le_rfl, hne _ _ (Nat.add_lt_add_left hij _)⟩
  · intro a ha b hb
    obtain ⟨i, hi, rfl⟩ := List.mem_map.mp ha
    obtain ⟨j, -, rfl⟩ := List.mem_map.mp hb
    have := List.mem_range.mp hi
    exact ⟨hpos.le, hne i _ (by omega)⟩

/-- Of two bursts a bucket grants twice its size, all in one window. -/
theorem within_twoBursts {C W : ℤ} (hC : 1 ≤ C) (hW : 1 ≤ W) :
    (within (0 : ℚ) (0 + (1 : ℕ) * (W * 1000)) (Bucket.grantTimes (C : ℚ) (ratePerMs C W)
      ((twoBursts C.toNat W hW).map Arrival.now)) : ℤ) = 2 * C := by
  have hpos := FixedWindow.window_pos hW
  have hnat : ((C.toNat : ℕ) : ℚ) = C := by exact_mod_cast Int.toNat_of_nonneg (by omega)
  have hW0 : (W : ℚ) ≠ 0 := by
    intro h
    rw [h] at hpos
    simp at hpos
  have hall : ∀ t ∈ Bucket.grantTimes (C : ℚ) (ratePerMs C W)
      ((twoBursts C.toNat W hW).map Arrival.now), 0 ≤ t ∧ t ≤ 0 + (1 : ℕ) * ((W : ℚ) * 1000) := by
    intro t ht
    obtain ⟨p, hp, -, rfl⟩ := mem_picked.mp ht
    have hmem := mem_of_mem_trace hp
    rw [twoBursts_now, List.mem_append, List.mem_replicate, List.mem_replicate] at hmem
    push_cast
    rcases hmem with ⟨-, h⟩ | ⟨-, h⟩ <;> rw [h] <;> constructor <;> linarith
  rw [within_eq_length hall, Bucket.length_grantTimes, twoBursts_now, ← hnat]
  have hfull : ((C.toNat : ℕ) : ℚ) ≤ ((W : ℚ) * 1000 - 0) * ratePerMs C W := by
    rw [hnat, ratePerMs]
    field_simp
    simp
  rw [Bucket.grants_two_bursts hpos.le hfull]
  push_cast
  omega

/-! ## The law -/

section Law

variable {policy : Policy} {l : RateLimiter}

theorem budget_window (W : ℤ) (hW : 1 ≤ W) (k : ℕ) (L : ℤ) :
    (L * (⌈(k * (W * 1000) : ℚ) / (W * 1000)⌉₊ + 1) : ℚ) = k * L + L := by
  rw [mul_div_cancel_right₀ _ (FixedWindow.window_pos hW).ne', Nat.ceil_natCast]
  ring

theorem budget_bucket (W : ℤ) (hW : 1 ≤ W) (k : ℕ) (C : ℤ) :
    (C + C / W * ((k * (W * 1000) : ℚ) / 1000) : ℚ) = k * C + C := by
  have : (W : ℚ) ≠ 0 := by exact_mod_cast (by omega : W ≠ 0)
  field_simp
  ring

/-- A limiter whose budget over `k` windows is that of its `n` is sustained by it. -/
theorem sustainedRate_of_budget (hacc : Accepted policy) (hfit : Duration.Fits policy.windowSeconds)
    (hl : Built policy.windowSeconds l) {n : ℤ} (hn : n ≤ policy.requestLimit)
    (hbudget : ∀ k : ℕ, l.budget policy.windowSeconds (k * (policy.windowSeconds * 1000)) =
      k * n + n) : SustainedRate policy l := by
  intro key run hrun k hk a
  have hpos := FixedWindow.window_pos hacc.window_pos
  have h := within_admissions_le hacc.window_pos hfit hl key hrun a
    (mul_nonneg (Nat.cast_nonneg k) hpos.le)
  rw [hbudget k] at h
  have hint : (within a (a + k * (policy.windowSeconds * 1000)) (admissions key l run) : ℤ) ≤
      k * n + n := by exact_mod_cast h
  calc _ ≤ (k : ℤ) * n + n := hint
    _ ≤ k * policy.requestLimit + max policy.requestLimit policy.burstCapacity :=
        add_le_add (mul_le_mul_of_nonneg_left hn (by omega)) (hn.trans (le_max_left ..))

/-- A bucket of more than the limit lets two bursts through where the limit
allows for one. -/
theorem not_sustainedRate_of_bucket (hacc : Accepted policy)
    (hburst : policy.requestLimit < policy.burstCapacity)
    (hl : ∀ run, InOrder run → admissions "" l run = Bucket.grantTimes (policy.burstCapacity : ℚ)
      (ratePerMs policy.burstCapacity policy.windowSeconds) (run.map Arrival.now)) :
    ¬ SustainedRate policy l := by
  intro h
  have hrun := inOrder_twoBursts policy.burstCapacity.toNat hacc.window_pos
  have hle := h "" _ hrun 1 le_rfl 0
  rw [hl _ hrun, within_twoBursts hacc.burst_pos hacc.window_pos, max_eq_right hburst.le] at hle
  push_cast at hle
  omega

theorem sustainedRate_bucket_iff (hacc : Accepted policy)
    (hfit : Duration.Fits policy.windowSeconds) (hl : Built policy.windowSeconds l)
    (hbudget : ∀ T, l.budget policy.windowSeconds T =
      policy.burstCapacity + policy.burstCapacity / policy.windowSeconds * (T / 1000))
    (hgrants : ∀ run, InOrder run → admissions "" l run = Bucket.grantTimes
      (policy.burstCapacity : ℚ) (ratePerMs policy.burstCapacity policy.windowSeconds)
        (run.map Arrival.now)) :
    SustainedRate policy l ↔ policy.burstCapacity ≤ policy.requestLimit := by
  constructor
  · intro h
    by_contra hnot
    exact not_sustainedRate_of_bucket hacc (not_le.mp hnot) hgrants h
  · intro hburst
    refine sustainedRate_of_budget hacc hfit hl hburst fun k => ?_
    rw [hbudget]
    exact budget_bucket _ hacc.window_pos k _

theorem sustainedRate_window (hacc : Accepted policy) (hfit : Duration.Fits policy.windowSeconds)
    (hl : Built policy.windowSeconds l)
    (hbudget : ∀ T, l.budget policy.windowSeconds T =
      policy.requestLimit * (⌈T / (policy.windowSeconds * 1000)⌉₊ + 1)) :
    SustainedRate policy l := by
  refine sustainedRate_of_budget hacc hfit hl le_rfl fun k => ?_
  rw [hbudget]
  exact budget_window _ hacc.window_pos k _

end Law

/-- **Where the limit governs.** For a policy as validation leaves it and the
`window_seconds` column holds it, the limiter the factory builds keeps the
long-run rate to `request_limit` iff it is a window limiter or the burst is no
larger than the limit. -/
theorem sustainedRate_iff {policy valid : Policy} (hvalid : validatePolicy policy = .ok valid)
    (hcolumn : valid.windowSeconds < 2 ^ 31) (f : LimiterFactory) :
    SustainedRate valid (f.newLimiter valid) ↔ LimitGoverns f valid := by
  have hacc := accepted_of_validatePolicy hvalid
  have hfit : Duration.Fits valid.windowSeconds := ⟨by have := hacc.window_pos; omega, by omega⟩
  have hbuilt := built_newLimiter hacc f
  have hcap : LimiterFactory.capacity valid = valid.burstCapacity := by
    have := hacc.burst_pos
    exact if_neg (by omega)
  unfold LimitGoverns
  unfold LimiterFactory.newLimiter at hbuilt ⊢
  rw [hcap] at hbuilt ⊢
  by_cases hmem : f.cfg.rateLimitBackend = "memory" ∨ f.redis = false
  · rw [if_pos hmem] at hbuilt ⊢
    rw [sustainedRate_bucket_iff hacc hfit hbuilt (fun _ => rfl) fun run hrun =>
      admissions_memory hacc.window_pos hfit "" hrun]
    exact (or_iff_right fun h => h.1 hmem).symm
  rw [if_neg hmem] at hbuilt ⊢
  by_cases hfixed : valid.algorithm = algorithmFixedWindow
  · rw [if_pos hfixed] at hbuilt ⊢
    exact iff_of_true (sustainedRate_window hacc hfit hbuilt fun _ => rfl)
      (.inl ⟨hmem, .inl hfixed⟩)
  rw [if_neg hfixed] at hbuilt ⊢
  by_cases hsliding : valid.algorithm = algorithmSlidingWindow
  · rw [if_pos hsliding] at hbuilt ⊢
    exact iff_of_true (sustainedRate_window hacc hfit hbuilt fun _ => rfl)
      (.inl ⟨hmem, .inr hsliding⟩)
  · rw [if_neg hsliding] at hbuilt ⊢
    rw [sustainedRate_bucket_iff hacc hfit hbuilt (fun _ => rfl) fun run _ =>
      admissions_token hacc.burst_pos hacc.window_pos hfit "" run]
    exact (or_iff_right fun h => h.2.elim hfixed hsliding).symm

/-- A limit of one a second with a burst of three: six in one second, where
`1 * 1 + 3` were promised. -/
theorem sustainedRate_fails :
    let policy : Policy := ⟨"", "", "token_bucket", 1, 1, 3⟩
    let f := LimiterFactory.new true ⟨"token_bucket", 100, 60000000000, 100, "redis", "closed"⟩
    let run := twoBursts 3 1 (Int.le_refl 1)
    validatePolicy policy = .ok policy ∧ InOrder run ∧
      ¬ (within (0 : ℚ) (0 + (1 : ℕ) * ((1 : ℤ) * 1000))
          (admissions "" (f.newLimiter policy) run) : ℤ) ≤
        (1 : ℕ) * 1 + max 1 3 := by
  intro policy f run
  have hacc : Accepted policy := ⟨.inl rfl, by decide, by decide, by decide⟩
  have hadm : admissions "" (f.newLimiter policy) run =
      Bucket.grantTimes ((3 : ℤ) : ℚ) (ratePerMs 3 1) (run.map Arrival.now) :=
    admissions_token (by decide) (by decide) ⟨by decide, by decide⟩ "" run
  have hsix := within_twoBursts (C := 3) (W := 1) (by decide) le_rfl
  refine ⟨validatePolicy_of_accepted hacc, inOrder_twoBursts 3 le_rfl, ?_⟩
  rw [hadm]
  intro hle
  have := hsix ▸ hle
  omega

/-- The seeded `free` policy keeps to its hundred a minute. -/
theorem sustainedRate_iff_free :
    SustainedRate ⟨"", "free", "token_bucket", 100, 60, 100⟩
      ((LimiterFactory.new true
        ⟨"token_bucket", 100, 60000000000, 100, "redis", "closed"⟩).newLimiter
        ⟨"", "free", "token_bucket", 100, 60, 100⟩) :=
  (sustainedRate_iff (validatePolicy_of_accepted ⟨.inl rfl, by decide, by decide, by decide⟩)
    (by decide) _).mpr (by decide)

end RateX
