import RateX.Config

/-!
# Where the limiters' arithmetic is defined

The window of a limiter has been converted from seconds to nanoseconds, twice
for the default limiter, and each `Allow` divides by it or doubles it. For the
rows of `rate_limit_policies` all this is in range. For the default limiter it
depends on `RATE_LIMIT_WINDOW_SECONDS`, which nothing checks (`WindowInRange`).
-/

namespace RateX

/-- The `int64` operation with the exact result `n` does not wrap. -/
def NoWrap (n : Int) : Prop := wrap64 n = n

theorem noWrap_iff {n : Int} : NoWrap n ↔ -2 ^ 63 ≤ n ∧ n < 2 ^ 63 := by
  constructor
  · intro h
    unfold NoWrap wrap64 at h
    omega
  · rintro ⟨hlo, hhi⟩
    exact wrap64_of_fits hlo hhi

/-- What the refill rate divides by. -/
def TokenBucket.divisor (l : TokenBucket) : ℚ :=
  if l.window.seconds ≤ 0 then 60 else l.window.seconds

/-- No step of an `Allow` wraps, divides by zero, or hands over an expiry that
deletes. A token bucket without capacity answers before it computes anything. -/
def RateLimiter.Defined : RateLimiter → Prop
  | .token l => 0 < l.capacity →
      NoWrap (l.window * 2) ∧ l.divisor ≠ 0 ∧ ∀ now, 0 < (l.args now).ttlMs
  | .sliding l => NoWrap (l.window * 2) ∧ ∀ now member, 0 < (l.args now member).ttlMs
  | .fixed l => truncate l.window.seconds ≠ 0 ∧ 0 < FixedWindow.formatSec l.window
  | .memory l => l.window.seconds ≠ 0

/-! ## One window -/

section Window

variable {w : Int}

theorem ofSeconds_of_noWrap (h : NoWrap (w * 1000000000)) : Duration.ofSeconds w = w * 1000000000 :=
  h

theorem seconds_of_noWrap (h : NoWrap (w * 1000000000)) : (Duration.ofSeconds w).seconds = w := by
  rw [ofSeconds_of_noWrap h, Duration.seconds]
  push_cast
  ring

theorem noWrap_twice (h : NoWrap (w * 1000000000)) :
    NoWrap (Duration.ofSeconds w * 2) ↔
      -2 ^ 63 ≤ 2 * w * 1000000000 ∧ 2 * w * 1000000000 < 2 ^ 63 := by
  rw [ofSeconds_of_noWrap h, noWrap_iff]
  constructor <;> rintro ⟨hlo, hhi⟩ <;> constructor <;> omega

/-- The expiry of both scripts. -/
theorem ttl_pos_iff (h : NoWrap (Duration.ofSeconds w * 2)) (hw : NoWrap (w * 1000000000)) :
    0 < ((Duration.ofSeconds w).mul 2).milliseconds ↔ 1 ≤ w := by
  rw [Duration.mul, show wrap64 (Duration.ofSeconds w * 2) = Duration.ofSeconds w * 2 from h,
    ofSeconds_of_noWrap hw, Duration.milliseconds,
    show w * 1000000000 * 2 = 2 * w * 1000 * 1000000 by ring,
    Int.mul_tdiv_cancel _ (by norm_num)]
  omega

theorem formatSec_ofSeconds (h : NoWrap (w * 1000000000)) :
    FixedWindow.formatSec (Duration.ofSeconds w) = w := by
  have hwhole : ¬ (0 < w * 1000000000 ∧ w * 1000000000 < 1000000000) := by omega
  rw [ofSeconds_of_noWrap h, FixedWindow.formatSec, Duration.second, if_neg hwhole]
  exact Int.mul_tdiv_cancel _ (by norm_num)

theorem divisor_ne_zero (l : TokenBucket) : l.divisor ≠ 0 := by
  unfold TokenBucket.divisor
  split
  · norm_num
  · rename_i hpos
    exact (not_le.mp hpos).ne'

end Window

/-! ## One limiter -/

namespace LimiterFactory

/-- The windows, in whole seconds, for which the limiter of the policy is defined. -/
def WindowInRange (f : LimiterFactory) (policy : Policy) (w : Int) : Prop :=
  (-2 ^ 63 ≤ w * 1000000000 ∧ w * 1000000000 < 2 ^ 63) ∧
    if f.cfg.rateLimitBackend = "memory" ∨ f.redis = false then w ≠ 0
    else if policy.algorithm = algorithmFixedWindow then 1 ≤ w
    else if policy.algorithm = algorithmSlidingWindow ∨ 0 < capacity policy then
      1 ≤ w ∧ 2 * w * 1000000000 < 2 ^ 63
    else True

theorem newLimiter_defined_iff (f : LimiterFactory) (policy : Policy) :
    NoWrap (policy.windowSeconds * 1000000000) ∧ (f.newLimiter policy).Defined ↔
      f.WindowInRange policy policy.windowSeconds := by
  rw [WindowInRange, ← noWrap_iff]
  refine and_congr_right fun hw => ?_
  -- both scripts are given twice the window
  have hscript : (NoWrap (Duration.ofSeconds policy.windowSeconds * 2) ∧
      0 < ((Duration.ofSeconds policy.windowSeconds).mul 2).milliseconds) ↔
        1 ≤ policy.windowSeconds ∧ 2 * policy.windowSeconds * 1000000000 < 2 ^ 63 := by
    constructor
    · rintro ⟨htwice, httl⟩
      exact ⟨(ttl_pos_iff htwice hw).mp httl, ((noWrap_twice hw).mp htwice).2⟩
    · rintro ⟨hpos, hlt⟩
      have htwice := (noWrap_twice hw).mpr ⟨by omega, hlt⟩
      exact ⟨htwice, (ttl_pos_iff htwice hw).mpr hpos⟩
  unfold newLimiter
  simp only
  split
  · simp only [RateLimiter.Defined, newMemoryTokenBucket, seconds_of_noWrap hw, Int.cast_ne_zero]
  · split
    · simp only [RateLimiter.Defined, newFixedWindow, seconds_of_noWrap hw, truncate_intCast,
        formatSec_ofSeconds hw]
      omega
    · split
      · rename_i hsliding
        rw [if_pos (.inl hsliding), ← hscript]
        simp only [RateLimiter.Defined, newSlidingWindow, SlidingWindow.args, Int.cast_pos,
          forall_const]
      · rename_i hsliding
        rw [← hscript]
        simp only [RateLimiter.Defined, newTokenBucket, TokenBucket.args, Int.cast_pos,
          forall_const, hsliding, false_or, divisor_ne_zero, ne_eq, not_false_iff, true_and]
        split
        · rename_i hcapacity
          exact ⟨fun h => h hcapacity, fun h _ => h⟩
        · rename_i hcapacity
          exact iff_of_true (fun h => absurd h hcapacity) trivial

theorem windowInRange_of_stored (f : LimiterFactory) {policy : Policy} (h : Stored policy) :
    f.WindowInRange policy policy.windowSeconds := by
  have hpos := h.window_pos
  have hlt := h.window_lt
  refine ⟨⟨by omega, by omega⟩, ?_⟩
  split
  · omega
  · split
    · exact hpos
    · split
      · exact ⟨hpos, by omega⟩
      · trivial

/-! ## Every limiter the factory gives -/

/-- The object that `FromPolicy` returns. -/
def Gives (f : LimiterFactory) (heap : Heap) (policy : Policy) (lim : RateLimiter) : Prop :=
  (f.fromPolicy heap policy).2.2[(f.fromPolicy heap policy).1]? = some lim

/-- The arithmetic of the default limiter, whose window `Load` has read as `w`
seconds, and of the limiters of all rows. -/
structure ArithmeticDefined (f : LimiterFactory) (heap : Heap) (w : Int) : Prop where
  load : NoWrap (w * 1000000000)
  default_window : NoWrap ((defaultPolicy f.cfg).windowSeconds * 1000000000)
  default_limiter : ∀ lim, f.Gives heap (defaultPolicy f.cfg) lim → lim.Defined
  row_window : ∀ policy, Stored policy → NoWrap (policy.windowSeconds * 1000000000)
  row_limiter : ∀ policy, Stored policy → ∀ lim, f.Gives heap policy lim → lim.Defined

theorem gives_iff {f : LimiterFactory} {heap : Heap} (h : f.Sound heap) {policy : Policy}
    {lim : RateLimiter} : f.Gives heap policy lim ↔ lim = f.newLimiter policy := by
  unfold Gives
  rw [(fromPolicy_spec h policy).1, Option.some.injEq, eq_comm]

/-- **The limiters' arithmetic is defined** for an environment, at every state of
the factory's cache, iff the seconds of its default window are in range. -/
theorem limiterArithmetic_iff (lines : List String) (environ : Environ) {f : LimiterFactory}
    {heap : Heap} (hcfg : f.cfg = Config.load lines environ) (h : f.Sound heap) :
    f.ArithmeticDefined heap (windowSeconds (loadDotEnv lines environ)) ↔
      f.WindowInRange (defaultPolicy f.cfg) (windowSeconds (loadDotEnv lines environ)) := by
  generalize hw : windowSeconds (loadDotEnv lines environ) = w
  have hdefault : NoWrap (w * 1000000000) → (defaultPolicy f.cfg).windowSeconds = w := by
    intro hwrap
    rw [defaultPolicy, hcfg, Config.load]
    simp only [hw, seconds_of_noWrap hwrap, truncate_intCast]
  constructor
  · intro hdef
    have hpolicy := hdefault hdef.load
    have hrange := (newLimiter_defined_iff f (defaultPolicy f.cfg)).mp
      ⟨hdef.default_window, hdef.default_limiter _ ((gives_iff h).mpr rfl)⟩
    rwa [hpolicy] at hrange
  · intro hrange
    have hload := noWrap_iff.mpr hrange.1
    rw [← hdefault hload] at hrange
    obtain ⟨hwindow, hlimiter⟩ := (newLimiter_defined_iff f (defaultPolicy f.cfg)).mpr hrange
    have hrow := fun policy (hpolicy : Stored policy) =>
      (newLimiter_defined_iff f policy).mpr (windowInRange_of_stored f hpolicy)
    refine ⟨hload, hwindow, fun lim hlim => ?_, fun policy hpolicy => (hrow policy hpolicy).1,
      fun policy hpolicy lim hlim => ?_⟩
    · rw [(gives_iff h).mp hlim]
      exact hlimiter
    · rw [(gives_iff h).mp hlim]
      exact (hrow policy hpolicy).2

/-- Sliding windows by the file, of a quarter of an hour by the environment. -/
def quarterHour : List String × Environ :=
  (["RATE_LIMIT_ALGORITHM=sliding_window"],
    fun key => if key = "RATE_LIMIT_WINDOW_SECONDS" then "900" else "")

theorem limiterArithmetic_quarterHour :
    (new true (Config.load quarterHour.1 quarterHour.2)).ArithmeticDefined []
      (windowSeconds (loadDotEnv quarterHour.1 quarterHour.2)) := by
  have hsound := sound_new true (Config.load quarterHour.1 quarterHour.2)
  refine (limiterArithmetic_iff quarterHour.1 quarterHour.2 rfl hsound).mpr ?_
  have hw : windowSeconds (loadDotEnv quarterHour.1 quarterHour.2) = 900 := by decide +kernel
  rw [hw]
  refine ⟨by norm_num, ?_⟩
  rw [if_neg (by decide +kernel), if_neg (by decide +kernel), if_pos (by decide +kernel)]
  norm_num

/-- `RATE_LIMIT_WINDOW_SECONDS=0` for a fixed window. -/
def zeroWindow : List String := ["RATE_LIMIT_ALGORITHM=fixed_window", "RATE_LIMIT_WINDOW_SECONDS=0"]

theorem limiterArithmetic_zero :
    ¬ (new true (Config.load zeroWindow fun _ => "")).ArithmeticDefined []
      (windowSeconds (loadDotEnv zeroWindow fun _ => "")) := by
  intro hdef
  have hlimiter := hdef.default_limiter _ ((gives_iff (sound_new _ _)).mpr rfl)
  rw [newLimiter, if_neg (by decide +kernel), if_pos (by decide +kernel)] at hlimiter
  exact hlimiter.1 (by decide +kernel)

end LimiterFactory

end RateX
