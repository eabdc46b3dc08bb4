import RateX.TokenBucketLaw

/-!
# What the two token buckets answer

One call of `TokenBucket.Allow` and one of `MemoryTokenBucket.Allow`, each as
one `take` of the key's bucket: the whole `Result`, read off the tokens the call
finds (`tokenResult`, `memoryResult`), and the level it leaves. The two results
differ in `RetryAfter` alone.
-/

namespace RateX

open Redis

variable {C W : ℤ}

/-! ## Redis -/

/-- What `Allow` of a Redis bucket returns to a request that finds `x` tokens. -/
def tokenResult (C W : ℤ) (x : ℚ) : Result :=
  if 1 ≤ x then
    { allowed := true, remaining := ⌊x - 1⌋, retryAfter := 0, limit := C, resetAfter := W }
  else
    { allowed := false, remaining := ⌊x⌋, retryAfter := ⌈(1 - x) / (C / W : ℚ)⌉, limit := C,
      resetAfter := W }

theorem parseReply_tokenReply (x : ℚ) :
    parseReply (.ok (tokenReply C W x)) W = .ok (tokenResult C W x) := by
  unfold tokenReply tokenResult
  split <;> simp [parseReply]

/-- A script that answers does in the store what it does to its slot. -/
theorem run_execute {store : Store} {clock : ℚ} {key : String}
    {script : Slot → Except Error (List Reply × Slot)} {reply : List Reply}
    (h : (execute script (live clock (store key))).1 = .ok reply) :
    (store.run clock key script).1 = .ok reply ∧
      (store.run clock key script).2 key = (execute script (live clock (store key))).2 := by
  unfold execute at h ⊢
  unfold Store.run
  split at h
  · rename_i heq
    rw [heq]
    exact ⟨h, Function.update_self ..⟩
  · cases h

/-- A call of the Redis bucket runs one execution on the key's slot. -/
theorem token_allow (hC : 1 ≤ C) (hW : 1 ≤ W) (hfit : Duration.Fits W) {store : Store}
    {now x : ℚ} {key : String}
    (h : (tokenExecLive C W (store ("rl:token" ++ ":" ++ key)) now).1 = .ok (tokenReply C W x)) :
    let l := newTokenBucket C (.ofSeconds W)
    (l.allow store now key).1 = .ok (tokenResult C W x) ∧
      (l.allow store now key).2 ("rl:token" ++ ":" ++ key) =
        (tokenExecLive C W (store ("rl:token" ++ ":" ++ key)) now).2 := by
  intro l
  obtain ⟨h1, h2⟩ := run_execute h
  have hcap : ¬ l.capacity ≤ 0 := by
    simp only [l, newTokenBucket]
    omega
  have hreset : truncate l.window.seconds = W := by
    simp only [l, newTokenBucket, Duration.seconds_ofSeconds hfit, truncate_intCast]
  simp only [TokenBucket.allow, if_neg hcap, hreset, l, TokenBucket.args_eq hW hfit]
  rw [show (newTokenBucket C (.ofSeconds W)).keyPrefix = "rl:token" from rfl, h1,
    parseReply_tokenReply]
  exact ⟨rfl, h2⟩

/-! ### A key in any state -/

/-- The hash of a key holds no less than nothing. -/
def Funded (key : Slot) : Prop :=
  ∀ fields deadline x, key = some ⟨.hash fields, deadline⟩ → fields "tokens" = some x → 0 ≤ x

theorem Funded.live {key : Slot} (h : Funded key) (clock : ℚ) : Funded (live clock key) := by
  intro fields deadline x hkey
  exact h fields deadline x (live_some hkey).1

theorem Holds.funded {key : Slot} {b : Option (Bucket.Level ℚ)} (h : Holds key b)
    (hb : ∀ l, b = some l → 0 ≤ l.tokens) : Funded key := by
  rintro fields deadline x rfl hx
  match b, h with
  | some l, ⟨fields', hfields, htok, _⟩ =>
      obtain rfl := Value.hash.inj hfields
      obtain rfl := Option.some.inj (hx.symm.trans htok)
      exact hb l rfl

/-- A refill leaves no bucket below nothing, nor above its capacity. -/
theorem refill_mem (argv : TokenArgs) (lastRefill : Option ℚ) {key : Slot} {tokens : Option ℚ}
    (hcap : 0 ≤ argv.capacity) (hrate : 0 ≤ argv.refillRate) (hkey : Funded key)
    (htok : hget key "tokens" = .ok tokens) :
    0 ≤ argv.refill (argv.stored tokens lastRefill) ∧
      argv.refill (argv.stored tokens lastRefill) ≤ argv.capacity := by
  refine ⟨le_min hcap (add_nonneg ?_ ?_), min_le_left ..⟩
  · match key, tokens, lastRefill, htok with
    | _, none, _, _ => exact hcap
    | _, some x, none, _ => exact hcap
    | some ⟨.hash fields, deadline⟩, some x, some t, htok =>
        exact hkey fields deadline x rfl (Except.ok.inj htok)
  · exact mul_nonneg (div_nonneg (le_max_left ..) (by norm_num)) hrate

/-- **An execution on a key in any state**: if it answers at all, it answers by
some number of tokens, and leaves that number less what it grants. -/
theorem tokenExecLive_funded (hC : 1 ≤ C) (hW : 1 ≤ W) {key : Slot} (hkey : Funded key) {now : ℚ}
    {reply : List Reply} (h : (tokenExecLive C W key now).1 = .ok reply) :
    ∃ x : ℚ, 0 ≤ x ∧ x ≤ C ∧ reply = tokenReply C W x ∧
      HoldsUntil W (tokenExecLive C W key now).2
        (some ⟨if 1 ≤ x then x - 1 else x, now⟩) := by
  have hC0 : (0 : ℚ) ≤ C := (cast_pos hC).le
  have hW0 : (0 : ℚ) ≤ W := (cast_pos hW).le
  simp only [tokenExecLive, tokenExec, execute] at h ⊢
  split at h
  · rename_i reply' key' hscript
    obtain rfl := Except.ok.inj h
    obtain ⟨tokens, lastRefill, fields, deadline, htok, -, hreply, hkey', hx, ht⟩ :=
      tokenBucketScript_ok hscript
    obtain ⟨h0, h1⟩ := refill_mem (tokenArgs C W now) lastRefill hC0
      (div_nonneg hC0 hW0) (hkey.live now) htok
    generalize (tokenArgs C W now).refill ((tokenArgs C W now).stored tokens lastRefill) = x at *
    obtain ⟨hdecide, hleft⟩ := decide_tokenArgs C W now x
    rw [tokenArgs_ttlMs, pexpire_some _ (ttlMs_pos hW)] at hkey'
    refine ⟨x, h0, h1, hreply.trans hdecide, ⟨hkey' ▸ ⟨fields, rfl, hx.trans ?_, ht⟩, ?_⟩⟩
    · exact congrArg some hleft
    · intro e l he hl
      obtain rfl := Option.some.inj (hkey'.symm.trans he)
      obtain rfl := Option.some.inj hl
      rfl
  · cases h

/-- What a request that finds `x` tokens leaves. -/
theorem tokens_mem {x : ℚ} (h0 : 0 ≤ x) (hC : x ≤ C) :
    0 ≤ (if 1 ≤ x then x - 1 else x) ∧ (if 1 ≤ x then x - 1 else x) ≤ C := by
  split <;> constructor <;> linarith

/-- So no execution overdraws a key. -/
theorem funded_tokenExecLive (hC : 1 ≤ C) (hW : 1 ≤ W) {key : Slot} (hkey : Funded key) (now : ℚ) :
    Funded (tokenExecLive C W key now).2 := by
  cases hout : (tokenExecLive C W key now).1 with
  | ok reply =>
      obtain ⟨x, h0, hxC, -, hholds, -⟩ := tokenExecLive_funded hC hW hkey hout
      refine hholds.funded fun l hl => ?_
      obtain rfl := Option.some.inj hl
      exact (tokens_mem h0 hxC).1
  | error e =>
      simp only [tokenExecLive, tokenExec, execute] at hout ⊢
      split at hout
      · cases hout
      · exact hkey.live now

/-! ## Memory -/

def memoryBucket (l : Bucket.Level ℚ) : MemoryBucket := { tokens := l.tokens, lastRefill := l.time }

/-- What `Allow` of a memory bucket returns to a request that finds `x` tokens. -/
def memoryResult (C W : ℤ) (x : ℚ) : Result :=
  if 1 ≤ x then
    { allowed := true, remaining := truncate (x - 1), retryAfter := 0, limit := C, resetAfter := W }
  else
    { allowed := false, remaining := truncate x
      retryAfter := max 1 (truncate ((1 - x) / (C / W : ℚ))), limit := C, resetAfter := W }

/-- One call of the memory limiter is one `take` of the key's bucket. It does
not clamp the elapsed time, so the key's last request has to be past. -/
theorem memory_answer {window : Duration} (hW : 1 ≤ W) (hwindow : window.seconds = W)
    (buckets : String → Option MemoryBucket) (key : String) {b : Option (Bucket.Level ℚ)}
    (hb : buckets key = b.map memoryBucket) (now : ℚ) (hnow : ∀ l, b = some l → l.time ≤ now) :
    MemoryTokenBucket.allow { buckets, capacity := C, window } now key =
      (memoryResult C W (found C W b now),
        { buckets := Function.update buckets key ((taken C W b now).2.map memoryBucket)
          capacity := C, window }) := by
  have hfound : min (C : ℚ) (((buckets key).getD { tokens := C, lastRefill := now }).tokens +
      (now - ((buckets key).getD { tokens := C, lastRefill := now }).lastRefill) / 1000 *
        (C / W)) = found C W b now := by
    rw [hb]
    cases b with
    | none => simp [found, Bucket.available]
    | some lvl =>
        have hmax : max 0 (now - lvl.time) = now - lvl.time :=
          max_eq_right (sub_nonneg.mpr (hnow lvl rfl))
        simp only [Option.map_some, Option.getD_some, memoryBucket, found, Bucket.available, hmax,
          ratePerMs]
        congr 2
        ring
  have hne : window ≠ 0 := by
    rintro rfl
    have hpos := cast_pos hW
    rw [← hwindow, Duration.seconds, Int.cast_zero, zero_div] at hpos
    exact hpos.false
  rw [MemoryTokenBucket.allow, if_neg hne]
  simp only [hwindow, hfound, taken_snd, truncate_intCast, decide_eq_true_eq, memoryResult]
  rcases le_or_gt 1 (found C W b now) with h1 | h1
  · simp only [h1, decide_true]
    rfl
  · simp only [not_le.mpr h1, decide_false]
    rfl

end RateX
