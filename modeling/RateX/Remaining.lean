import RateX.Backends
import RateX.Keyspace

/-!
# The requests a client is told remain

`X-RateLimit-Remaining` is a prediction: how many of the requests that follow
at the same instant are let through. Here a limiter that has answered with `k`
is put in simulation with a counter that stands at `k` (`spend`). Redis may be
as any run of `RateX.Keyspace` has left it: other policies on the same key,
callers' clocks that disagree, calls of the fixed window in progress or lost.
What such a run cannot leave is `Sane`: a counter below one, a hash with
a debt, a member that nobody drew.
-/

namespace RateX

open Redis Transducer Steps

/-- What a client reads off an answer: the decision, and the requests that remain. -/
def Outcome.told : Outcome → Option (Bool × Int)
  | .ok r => some (r.allowed, r.remaining)
  | .error _ => none

/-- What a request is told that comes with `k` remaining. -/
def promised : ℕ → Option (Bool × Int)
  | 0 => some (false, 0)
  | k + 1 => some (true, k)

/-- A counter of remaining requests. -/
def spend (k : ℕ) (_ : Arrival) : Option (Bool × Int) × ℕ := (promised k, k - 1)

theorem trace_spend (k : ℕ) (later : List Arrival) :
    (trace spend k later).map Prod.snd =
      (List.range later.length).map fun i => promised (k - i) := by
  induction later generalizing k with
  | nil => rfl
  | cons a later ih =>
      have hrest := ih (k - 1)
      simp only [trace_cons, List.map_cons, List.length_cons, List.range_succ_eq_map, List.map_map]
      refine congrArg₂ List.cons rfl (hrest.trans (List.map_congr_left fun i _ => ?_))
      exact congrArg promised (by simp only [Nat.succ_eq_add_one]; omega)

/-- The answer `r`, given at `t`, tells what is to come: of the requests that
follow at `t`, the next `r.remaining` are allowed, each told one less, and then
none. -/
def Foretells (key : String) (t : ℚ) (drawn : List String) (r : Result) (s : RateLimiter × Store) :
    Prop :=
  ∃ k : ℕ, r.remaining = k ∧ (r.allowed = true → r.remaining < r.limit) ∧
    ∀ later : List Arrival, (∀ a ∈ later, a.now = t ∧ a.member ∉ drawn) →
      later.Pairwise (fun a b => a.member ≠ b.member) →
      (trace (RateLimiter.allow key) s later).map (fun p => p.2.told) =
        (List.range later.length).map fun i => promised (k - i)

/-- A limiter in simulation with a counter that stands at `r.remaining`. -/
theorem foretells_of_sim {key : String} {t : ℚ} {drawn : List String} {r : Result}
    {s : RateLimiter × Store} (S : List (Arrival × Outcome) → RateLimiter × Store → ℕ → Prop)
    {k : ℕ} (h0 : S [] s k) (hr : r.remaining = k)
    (hlimit : r.allowed = true → r.remaining < r.limit)
    (hstep : ∀ past s k a, S past s k → (∀ p ∈ past, p.1.member ≠ a.member) →
      a.now = t ∧ a.member ∉ drawn → (RateLimiter.allow key s a).1.told = promised k ∧
        S (past ++ [(a, (RateLimiter.allow key s a).1)]) (RateLimiter.allow key s a).2 (k - 1)) :
    Foretells key t drawn r s := by
  refine ⟨k, hr, hlimit, fun later hlater hmembers => ?_⟩
  have hsim := (trace_observe (RateLimiter.allow key) spend id Outcome.told id later
    hmembers hlater h0 hstep).1
  have hanswers := congrArg (List.map Prod.snd) hsim
  simpa [Function.comp_def, ← trace_spend] using hanswers

/-! ## What a run cannot leave in Redis -/

def SaneValue (drawn : List String) : Value → Prop
  | .counter n => 1 ≤ n
  | .hash fields => ∀ x, fields "tokens" = some x → 0 ≤ x
  | .zset members => ∀ m ∈ members, m.1 ∈ drawn

def Sane (drawn : List String) (slot : Slot) : Prop := ∀ e, slot = some e → SaneValue drawn e.value

section Sane

variable {drawn : List String} {slot : Slot}

theorem sane_none : Sane drawn none := fun _ h => nomatch h

theorem sane_some {v : Value} (h : SaneValue drawn v) (deadline : Option ℚ) :
    Sane drawn (some ⟨v, deadline⟩) := by
  intro e he
  obtain rfl := Option.some.inj he
  exact h

theorem Sane.live (h : Sane drawn slot) (clock : ℚ) : Sane drawn (live clock slot) :=
  fun e he => h e (live_some he).1

theorem Sane.pexpire (h : Sane drawn slot) (clock ttl : ℚ) :
    Sane drawn (pexpire clock ttl slot) := by
  intro e he
  cases slot with
  | none => cases he
  | some e' =>
      simp only [Redis.pexpire] at he
      split at he
      · cases he
      · obtain rfl := Option.some.inj he
        exact h e' rfl

theorem Sane.draw (h : Sane drawn slot) (member : String) : Sane (member :: drawn) slot := by
  rintro ⟨v, deadline⟩ he
  have hv := h _ he
  cases v with
  | counter n => exact hv
  | hash fields => exact hv
  | zset members => exact fun m hm => List.mem_cons_of_mem _ (hv m hm)

theorem Sane.funded (h : Sane drawn slot) : Funded slot := fun _ _ x hslot hx => h _ hslot x hx

theorem Sane.named (h : Sane drawn slot) {members : List (String × ℚ)} (hset : IsSet slot members) :
    ∀ m ∈ members, m.1 ∈ drawn := by
  obtain ⟨-, rfl⟩ | ⟨deadline, rfl⟩ := hset
  · exact fun _ hm => nomatch hm
  · exact h _ rfl

theorem Sane.incr (h : Sane drawn slot) {count : ℤ} {slot' : Slot}
    (hincr : Redis.incr slot = .ok (count, slot')) :
    1 ≤ count ∧ ∃ deadline, slot' = some ⟨.counter count, deadline⟩ ∧
      ∀ d, deadline = some d → ∃ e, slot = some e ∧ e.expireAt = some d := by
  rcases slot with _ | ⟨v, deadline⟩
  · simp only [Redis.incr, Except.ok.injEq, Prod.mk.injEq] at hincr
    obtain ⟨rfl, rfl⟩ := hincr
    exact ⟨le_rfl, none, rfl, by simp⟩
  · cases v with
    | counter n =>
        simp only [Redis.incr, Except.ok.injEq, Prod.mk.injEq] at hincr
        obtain ⟨rfl, rfl⟩ := hincr
        have hn : 1 ≤ n := h _ rfl
        exact ⟨by omega, deadline, rfl, fun d hd => ⟨_, rfl, hd⟩⟩
    | hash fields => simp [Redis.incr] at hincr
    | zset members => simp [Redis.incr] at hincr

theorem Sane.token {argv : TokenArgs} {clock : ℚ} {slot' : Slot} {reply : List Reply}
    (hcap : 0 ≤ argv.capacity) (hrate : 0 ≤ argv.refillRate) (h : Sane drawn slot)
    (hscript : tokenBucketScript argv clock slot = .ok (reply, slot')) : Sane drawn slot' := by
  obtain ⟨tokens, lastRefill, fields, deadline, htok, -, -, rfl, hx, -⟩ :=
    tokenBucketScript_ok hscript
  have h0 := (refill_mem argv lastRefill hcap hrate h.funded htok).1
  refine (sane_some (v := .hash fields) (fun x hfield => ?_) deadline).pexpire clock argv.ttlMs
  obtain rfl := Option.some.inj (hx.symm.trans hfield)
  unfold TokenArgs.decide
  split
  · rename_i hle
    exact sub_nonneg.mpr hle
  · exact h0

theorem Sane.sliding {argv : SlidingArgs} {clock : ℚ} {slot' : Slot} {reply : List Reply}
    (h : Sane drawn slot) (hscript : slidingWindowScript argv clock slot = .ok (reply, slot')) :
    Sane (argv.member :: drawn) slot' := by
  obtain ⟨members, hset, hout⟩ := slidingWindowScript_ok hscript
  have hkept : ∀ m ∈ argv.kept members, m.1 ∈ argv.member :: drawn := fun m hm =>
    List.mem_cons_of_mem _ (h.named hset m (List.mem_of_mem_filter hm))
  obtain ⟨-, -, deadline, rfl⟩ | ⟨-, -, purged, hpurged, rfl⟩ := hout
  · refine (sane_some (v := .zset _) (fun m hm => ?_) deadline).pexpire clock argv.ttlMs
    rcases List.mem_append.mp hm with hm | hm
    · exact hkept m (List.mem_of_mem_filter hm)
    · rw [List.mem_singleton.mp hm]
      exact List.mem_cons_self ..
  · obtain ⟨rfl, -⟩ | ⟨deadline, rfl⟩ := hpurged
    · exact sane_none.pexpire clock argv.ttlMs
    · exact (sane_some (v := .zset _) hkept deadline).pexpire clock argv.ttlMs

theorem sane_command {s : Keyspace.Sys} (h : ∀ key, Sane s.drawn (s.store key))
    {drawn : List String} (hdrawn : ∀ slot, Sane s.drawn slot → Sane drawn slot) {α : Type}
    (key : String) {command : Slot → Except Error (α × Slot)}
    (hcmd : ∀ slot reply slot', Sane s.drawn slot → command slot = .ok (reply, slot') →
      Sane drawn slot') (k : String) : Sane drawn ((s.command key command).store k) := by
  rcases s.store.run_cases s.now key command with ⟨e, hrun⟩ | ⟨reply, slot, hok, hrun⟩
  · simp only [Keyspace.Sys.command, hrun]
    exact hdrawn _ (h k)
  · simp only [Keyspace.Sys.command, hrun]
    by_cases hk : k = key
    · rw [hk, Function.update_self]
      exact hcmd _ reply slot ((h key).live s.now) hok
    · rw [Function.update_of_ne hk]
      exact hdrawn _ (h k)

theorem TokenBucket.args_nonneg {l : TokenBucket} (hC : 0 < l.capacity) (now : ℚ) :
    0 ≤ (l.args now).capacity ∧ 0 ≤ (l.args now).refillRate := by
  have hC' : (0 : ℚ) ≤ l.capacity := by exact_mod_cast hC.le
  refine ⟨hC', div_nonneg hC' ?_⟩
  split
  · norm_num
  · rename_i hpos
    exact (not_le.mp hpos).le

theorem sane_step {s s' : Keyspace.Sys} {a : Keyspace.Action}
    (h : ∀ key, Sane s.drawn (s.store key)) (hs : Keyspace.step s a = some s') :
    ∀ key, Sane s'.drawn (s'.store key) := by
  cases Keyspace.step_effect hs with
  | tick _ => exact h
  | idle => exact h
  | @token l reading key hC =>
      obtain ⟨hcap, hrate⟩ := l.args_nonneg hC reading
      exact sane_command h (fun _ h => h) _ fun _ _ _ hslot hok => hslot.token hcap hrate hok
  | @sliding l reading member key _ =>
      exact sane_command h (fun _ h => h.draw member) _ fun _ _ _ hslot hok => hslot.sliding hok
  | @incr id l reading key redisKey count slot _ hrun =>
      intro k
      obtain ⟨hcount, deadline, rfl, -⟩ := ((h redisKey).live s.now).incr hrun
      by_cases hk : k = redisKey
      · simp only [Keyspace.Sys.proceed, hk, Function.update_self]
        exact sane_some (v := .counter count) hcount deadline
      · simp only [Keyspace.Sys.proceed, Function.update_of_ne hk]
        exact h k
  | @expire id l redisKey count _ =>
      have hcmd : ∀ slot reply slot', Sane s.drawn slot → l.expire s.now slot = .ok (reply, slot') →
          Sane s.drawn slot' := by
        intro slot reply slot' hslot hok
        obtain rfl : _ = slot' := congrArg Prod.snd (Except.ok.inj hok)
        exact hslot.pexpire _ _
      exact sane_command h (fun _ h => h) redisKey hcmd
  | ends _ _ => exact h

theorem sane_reach {s : Keyspace.Sys} (hs : Reach Keyspace.step Any Keyspace.Sys.init s) :
    ∀ key, Sane s.drawn (s.store key) :=
  hs.invariant (fun _ => sane_none) fun _ _ _ h _ hstep => sane_step h hstep

end Sane

/-! ## The buckets -/

section Buckets

variable {C W : ℤ} {key : String} {t : ℚ} {drawn : List String}

/-- What is told of a bucket that holds `x` tokens, and what it is left with. -/
theorem told_tokenResult {x : ℚ} {k : ℕ} (hk : ⌊x⌋ = (k : ℤ)) :
    Outcome.told (.ok (tokenResult C W x)) = promised k ∧
      ⌊if 1 ≤ x then x - 1 else x⌋ = ((k - 1 : ℕ) : ℤ) := by
  unfold tokenResult
  cases k with
  | zero =>
      have hlt : ¬ 1 ≤ x := by
        have := Int.lt_floor_add_one x
        rw [hk] at this
        push_cast at this
        linarith
      simp only [if_neg hlt, Outcome.told, hk, promised]
      exact ⟨rfl, trivial⟩
  | succ k =>
      have hle : 1 ≤ x := by
        have := Int.floor_le x
        rw [hk] at this
        push_cast at this
        linarith
      have hsub : ⌊x - 1⌋ = (k : ℤ) := by
        rw [Int.floor_sub_one, hk]
        push_cast
        ring
      simp only [if_pos hle, Outcome.told, hsub, promised]
      exact ⟨trivial, rfl⟩

/-- What an answer out of `x` tokens says remains is what is left, in whole tokens. -/
theorem remaining_tokenResult {x : ℚ} (h0 : 0 ≤ x) (hxC : x ≤ C) :
    ∃ k : ℕ, (tokenResult C W x).remaining = k ∧ ⌊if 1 ≤ x then x - 1 else x⌋ = (k : ℤ) ∧
      ((tokenResult C W x).allowed = true →
        (tokenResult C W x).remaining < (tokenResult C W x).limit) := by
  have hleft := Int.floor_nonneg.mpr (tokens_mem h0 hxC).1
  refine ⟨⌊if 1 ≤ x then x - 1 else x⌋.toNat, ?_, (Int.toNat_of_nonneg hleft).symm, ?_⟩
  · rw [Int.toNat_of_nonneg hleft, tokenResult]
    split <;> rfl
  · unfold tokenResult
    split
    · intro _
      exact Int.floor_lt.mpr (by linarith)
    · intro hallowed
      cases hallowed

theorem shown_ok {r r' : Result} (h : Outcome.shown (.ok r) = Outcome.shown (.ok r')) :
    r.allowed = r'.allowed ∧ r.remaining = r'.remaining ∧ r.limit = r'.limit := by
  simp only [Outcome.shown, Except.map, Except.ok.injEq, Shown.mk.injEq] at h
  exact ⟨h.1, h.2.1, h.2.2.1⟩

/-- The Redis bucket of the key was last touched at `t` and holds `k` tokens and
a fraction. -/
def TokenReady (C W : ℤ) (key : String) (t : ℚ) (s : RateLimiter × Store) (k : ℕ) : Prop :=
  s.1 = .token (newTokenBucket C (.ofSeconds W)) ∧ ∃ x : ℚ, 0 ≤ x ∧ x ≤ C ∧ ⌊x⌋ = (k : ℤ) ∧
    HoldsUntil W (s.2 ("rl:token" ++ ":" ++ key)) (some ⟨x, t⟩)

theorem tokenReady_step (hC : 1 ≤ C) (hW : 1 ≤ W) (hfit : Duration.Fits W)
    {s : RateLimiter × Store} {k : ℕ} (h : TokenReady C W key t s k) {a : Arrival}
    (ha : a.now = t) : (RateLimiter.allow key s a).1.told = promised k ∧
      TokenReady C W key t (RateLimiter.allow key s a).2 (k - 1) := by
  obtain ⟨l, store⟩ := s
  obtain ⟨rfl, x, h0, hxC, hk, hkey⟩ := h
  subst ha
  obtain ⟨hreply, hnext⟩ := tokenExecLive_spec hC hW hkey (Bucket.within_some h0 hxC) a.now
  have hfound : found C W (some ⟨x, a.now⟩) a.now = x := Bucket.available_self hxC
  obtain ⟨hout, hslot⟩ := token_allow hC hW hfit hreply
  obtain ⟨htold, hleft⟩ := told_tokenResult (C := C) (W := W) hk
  rw [tokenMachine, taken_snd, hfound] at hnext
  simp only [RateLimiter.allow]
  rw [hout, hfound]
  exact ⟨htold, rfl, _, (tokens_mem h0 hxC).1, (tokens_mem h0 hxC).2, hleft, hslot ▸ hnext⟩

/-- An answer of the Redis bucket is an answer of its script. -/
theorem script_of_allow (hW : 1 ≤ W) (hfit : Duration.Fits W) (hC : 1 ≤ C) {store : Store}
    {now : ℚ} {r : Result}
    (h : ((newTokenBucket C (.ofSeconds W)).allow store now key).1 = .ok r) :
    ∃ reply, (tokenExecLive C W (store ("rl:token" ++ ":" ++ key)) now).1 = .ok reply := by
  have hcap : ¬ (newTokenBucket C (.ofSeconds W)).capacity ≤ 0 := by
    simp only [newTokenBucket]
    omega
  simp only [TokenBucket.allow, if_neg hcap, TokenBucket.args_eq hW hfit] at h
  rw [show (newTokenBucket C (.ofSeconds W)).keyPrefix = "rl:token" from rfl] at h
  simp only [tokenExecLive, tokenExec, execute]
  unfold Store.run at h
  split at h
  · rename_i reply slot hok
    exact ⟨reply, by rw [hok]⟩
  · cases h

theorem foretells_token (hC : 1 ≤ C) (hW : 1 ≤ W) (hfit : Duration.Fits W) {store : Store}
    (hkey : Funded (store ("rl:token" ++ ":" ++ key))) {a : Arrival} {r : Result}
    (hr : (RateLimiter.allow key (.token (newTokenBucket C (.ofSeconds W)), store) a).1 = .ok r) :
    Foretells key a.now drawn r
      (RateLimiter.allow key (.token (newTokenBucket C (.ofSeconds W)), store) a).2 := by
  simp only [RateLimiter.allow] at hr ⊢
  obtain ⟨reply, hreply⟩ := script_of_allow hW hfit hC hr
  obtain ⟨x, h0, hxC, rfl, hheld⟩ := tokenExecLive_funded hC hW hkey hreply
  obtain ⟨hout, hslot⟩ := token_allow hC hW hfit hreply
  obtain rfl := Except.ok.inj (hout.symm.trans hr)
  obtain ⟨k, hk, hleft, hlimit⟩ := remaining_tokenResult (W := W) h0 hxC
  exact foretells_of_sim (fun _ => TokenReady C W key a.now)
    ⟨rfl, _, (tokens_mem h0 hxC).1, (tokens_mem h0 hxC).2, hleft, hslot ▸ hheld⟩ hk hlimit
    fun _ _ _ _ h _ hb => tokenReady_step hC hW hfit h hb.1

/-- The memory bucket of the key was last touched at `t` and holds `k` tokens and
a fraction. -/
def MemoryReady (C W : ℤ) (key : String) (t : ℚ) (s : RateLimiter × Store) (k : ℕ) : Prop :=
  ∃ buckets, s.1 = .memory { buckets, capacity := C, window := .ofSeconds W } ∧
    ∃ x : ℚ, 0 ≤ x ∧ x ≤ C ∧ ⌊x⌋ = (k : ℤ) ∧ buckets key = some (memoryBucket ⟨x, t⟩)

theorem memoryReady_step (hW : 1 ≤ W) (hfit : Duration.Fits W) {s : RateLimiter × Store} {k : ℕ}
    (h : MemoryReady C W key t s k) {a : Arrival} (ha : a.now = t) :
    (RateLimiter.allow key s a).1.told = promised k ∧
      MemoryReady C W key t (RateLimiter.allow key s a).2 (k - 1) := by
  obtain ⟨l, store⟩ := s
  obtain ⟨buckets, rfl, x, h0, hxC, hk, hb⟩ := h
  subst ha
  have hmem := memory_answer (C := C) (b := some ⟨x, a.now⟩) hW
    (Duration.seconds_ofSeconds hfit) buckets key hb a.now
    fun l hl => by
      obtain rfl := Option.some.inj hl
      exact le_rfl
  have hfound : found C W (some ⟨x, a.now⟩) a.now = x := Bucket.available_self hxC
  obtain ⟨htold, hleft⟩ := told_tokenResult (C := C) (W := W) hk
  obtain ⟨hallowed, hremaining, -⟩ := shown_ok (shown_result (C := C) (W := W) h0)
  rw [taken_snd, hfound] at hmem
  simp only [RateLimiter.allow, hmem]
  refine ⟨?_, _, rfl, _, (tokens_mem h0 hxC).1, (tokens_mem h0 hxC).2, hleft,
    Function.update_self ..⟩
  rw [← htold, Outcome.told, Outcome.told, hallowed, hremaining]

theorem foretells_memory (hC : 1 ≤ C) (hW : 1 ≤ W) (hfit : Duration.Fits W)
    {buckets : String → Option MemoryBucket} {b : Option (Bucket.Level ℚ)}
    (hb : buckets key = b.map memoryBucket) (hwithin : Bucket.Within (C : ℚ) b) {a : Arrival}
    (hlast : ∀ l, b = some l → l.time ≤ a.now) {store : Store} {r : Result}
    (hr : (RateLimiter.allow key
      (.memory { buckets, capacity := C, window := .ofSeconds W }, store) a).1 = .ok r) :
    Foretells key a.now drawn r (RateLimiter.allow key
      (.memory { buckets, capacity := C, window := .ofSeconds W }, store) a).2 := by
  have hmem :=
    memory_answer (C := C) hW (Duration.seconds_ofSeconds hfit) buckets key hb a.now hlast
  simp only [RateLimiter.allow, hmem] at hr ⊢
  have hC0 : (0 : ℚ) ≤ C := (cast_pos hC).le
  have h0 : 0 ≤ found C W b a.now :=
    Bucket.available_nonneg hC0 (ratePerMs_nonneg hC hW) hwithin a.now
  have hxC : found C W b a.now ≤ C := Bucket.available_le b a.now
  rw [taken_snd]
  generalize found C W b a.now = x at *
  obtain rfl := Except.ok.inj hr
  obtain ⟨hallowed, hremaining, hlim⟩ := shown_ok (shown_result (C := C) (W := W) h0)
  obtain ⟨k, hk, hleft, hlimit⟩ := remaining_tokenResult (W := W) h0 hxC
  rw [hallowed, hremaining, hlim] at hlimit
  exact foretells_of_sim (fun _ => MemoryReady C W key a.now)
    ⟨_, rfl, _, (tokens_mem h0 hxC).1, (tokens_mem h0 hxC).2, hleft, Function.update_self ..⟩
    (hremaining ▸ hk) hlimit fun _ _ _ _ h _ hb => memoryReady_step hW hfit h hb.1

end Buckets

/-! ## The windows -/

section Windows

variable {L W : ℤ} {key : String} {t : ℚ} {drawn : List String}

/-- The counter of the window that `t` falls into is not about to expire, and
`k` short of the limit. -/
def FixedReady (L W : ℤ) (key : String) (t : ℚ) (s : RateLimiter × Store) (k : ℕ) : Prop :=
  s.1 = .fixed (newFixedWindow L (.ofSeconds W)) ∧ ∃ w count deadline,
    (newFixedWindow L (.ofSeconds W)).windowID t = some w ∧
    s.2 ((newFixedWindow L (.ofSeconds W)).redisKey key w) = some ⟨.counter count, deadline⟩ ∧
    1 ≤ count ∧ (∀ d, deadline = some d → t < d) ∧ (k : ℤ) = max 0 (L - count)

theorem remaining_result (l : FixedWindow) (count : ℤ) (ttl : Duration) :
    (l.result count ttl).remaining = max 0 (l.limit - count) := by
  simp only [FixedWindow.result]
  split <;> omega

/-- What is told of the counter's next value, when it is `k` short of the limit. -/
theorem told_result (l : FixedWindow) {count : ℤ} (ttl : Duration) {k : ℕ}
    (hk : (k : ℤ) = max 0 (l.limit - count)) :
    Outcome.told (.ok (l.result (count + 1) ttl)) = promised k ∧
      ((k - 1 : ℕ) : ℤ) = max 0 (l.limit - (count + 1)) := by
  simp only [FixedWindow.result, Outcome.told]
  cases k with
  | zero =>
      have hover : ¬ count + 1 ≤ l.limit := by omega
      rw [if_pos (by omega), decide_eq_false hover]
      exact ⟨rfl, by omega⟩
  | succ k =>
      have hroom : count + 1 ≤ l.limit := by omega
      have hleft : l.limit - (count + 1) = k := by omega
      rw [if_neg (by omega), decide_eq_true hroom, hleft]
      exact ⟨rfl, by omega⟩

theorem fixedReady_step {s : RateLimiter × Store} {k : ℕ} (h : FixedReady L W key t s k)
    {a : Arrival} (ha : a.now = t) : (RateLimiter.allow key s a).1.told = promised k ∧
      FixedReady L W key t (RateLimiter.allow key s a).2 (k - 1) := by
  obtain ⟨l, store⟩ := s
  obtain ⟨rfl, w, count, deadline, hid, hslot, hcount, hahead, hk⟩ := h
  subst ha
  simp only at hslot
  have hincr : Redis.incr (live a.now (store ((newFixedWindow L (.ofSeconds W)).redisKey key w))) =
      .ok (count + 1, some ⟨.counter (count + 1), deadline⟩) := by
    rw [hslot, live_of_ahead hahead]
    rfl
  obtain ⟨⟨ttl, hout⟩, hnext⟩ := FixedWindow.allow_of_incr hid (Store.run_ok hincr)
  obtain ⟨htold, hk'⟩ := told_result (newFixedWindow L (.ofSeconds W)) ttl hk
  rw [if_neg (by omega)] at hnext
  simp only [RateLimiter.allow, hout, hnext]
  exact ⟨htold, rfl, w, count + 1, deadline, hid, Function.update_self .., by omega, hahead, hk'⟩

/-- The `EXPIRE` of a call does not end its counter at once. -/
theorem expire_ahead (hW : 1 ≤ W) (hfit : Duration.Fits W) {store : Store} {now : ℚ}
    {redisKey : String} {e : Entry} (hslot : store redisKey = some e)
    (hahead : ∀ d, e.expireAt = some d → now < d) :
    ∃ d, (store.run now redisKey ((newFixedWindow L (.ofSeconds W)).expire now)).2 redisKey =
      some ⟨e.value, some d⟩ ∧ now < d := by
  have hpos : (0 : ℚ) < W * 1000 := FixedWindow.window_pos hW
  have hsec : FixedWindow.formatSec (newFixedWindow L (.ofSeconds W)).window = W := by
    rw [show (newFixedWindow L (.ofSeconds W)).window = W * Duration.second from
      Duration.ofSeconds_eq hfit, FixedWindow.formatSec_window hW]
  refine ⟨now + W * 1000, ?_, by linarith⟩
  simp only [Store.run, hslot, live_of_ahead hahead, FixedWindow.expire, hsec, pexpire_some _ hpos,
    Function.update_self]

theorem foretells_fixed (hW : 1 ≤ W) (hfit : Duration.Fits W) {store : Store} {names : List String}
    (hstore : ∀ key, Sane names (store key)) {a : Arrival} {r : Result}
    (hr : (RateLimiter.allow key (.fixed (newFixedWindow L (.ofSeconds W)), store) a).1 = .ok r) :
    Foretells key a.now drawn r
      (RateLimiter.allow key (.fixed (newFixedWindow L (.ofSeconds W)), store) a).2 := by
  simp only [RateLimiter.allow] at hr ⊢
  cases hid : (newFixedWindow L (.ofSeconds W)).windowID a.now with
  | none => simp [FixedWindow.allow, hid] at hr
  | some w =>
      rcases store.run_cases a.now ((newFixedWindow L (.ofSeconds W)).redisKey key w) Redis.incr
        with ⟨e, hrun⟩ | ⟨count, slot, hincr, hrun⟩
      · simp [FixedWindow.allow, hid, hrun] at hr
      · obtain ⟨⟨ttl, hout⟩, hnext⟩ := FixedWindow.allow_of_incr hid hrun
        obtain rfl := Except.ok.inj (hout.symm.trans hr)
        obtain ⟨hcount, deadline, rfl, hdeadline⟩ := ((hstore _).live a.now).incr hincr
        have hahead : ∀ d, deadline = some d → a.now < d := fun d hd => by
          obtain ⟨e, he, hed⟩ := hdeadline d hd
          exact (live_some he).2 d hed
        obtain ⟨deadline', hslot, hahead'⟩ : ∃ deadline',
            ((newFixedWindow L (.ofSeconds W)).allow store a.now key).2
              ((newFixedWindow L (.ofSeconds W)).redisKey key w) =
                some ⟨.counter count, deadline'⟩ ∧ ∀ d, deadline' = some d → a.now < d := by
          rw [hnext]
          split
          · obtain ⟨d, hd, hlt⟩ := expire_ahead (L := L) (e := ⟨.counter count, deadline⟩) hW hfit
              (Function.update_self ..) hahead
            exact ⟨some d, hd, fun d' hd' => Option.some.inj hd' ▸ hlt⟩
          · exact ⟨deadline, Function.update_self .., hahead⟩
        refine foretells_of_sim (fun _ => FixedReady L W key a.now)
          (k := (max 0 (L - count)).toNat)
          ⟨rfl, w, count, deadline', hid, hslot, hcount, hahead', by omega⟩ ?_ ?_
          fun _ _ _ _ h _ hb => fixedReady_step h hb.1
        · rw [remaining_result, Int.toNat_of_nonneg (le_max_left ..)]
          rfl
        · intro hallowed
          have hle : count ≤ L := of_decide_eq_true hallowed
          rw [remaining_result]
          change max 0 (L - count) < L
          omega

/-- The set of the key was last touched at `t`, all of it counts, its members are
none of those to come, and it is `k` short of the limit. -/
def SlidingReady (L W : ℤ) (key : String) (t : ℚ) (drawn : List String)
    (past : List (Arrival × Outcome)) (s : RateLimiter × Store) (k : ℕ) : Prop :=
  s.1 = .sliding (newSlidingWindow L (.ofSeconds W)) ∧ ∃ members,
    s.2 ("rl:sliding" ++ ":" ++ key) = some ⟨.zset members, some (t + 2 * (W * 1000))⟩ ∧
    (∀ m ∈ members, m.1 ∈ drawn ∨ ∃ p ∈ past, p.1.member = m.1) ∧
    purged (W * 1000) members t = members ∧ (k : ℤ) = max 0 (L - members.length)

theorem purged_self (hW : 1 ≤ W) (members : List (String × ℚ)) (e : Execution) :
    purged (W * 1000) (leftMembers L (purged (W * 1000) members e.reading) e) e.reading =
      leftMembers L (purged (W * 1000) members e.reading) e := by
  have hpos := FixedWindow.window_pos hW
  refine List.filter_eq_self.mpr fun m hm => ?_
  rcases mem_leftMembers hm with hm | rfl
  · exact (List.mem_filter.mp hm).2
  · simp only [decide_eq_true_eq, not_and, not_le]
    intro _
    linarith

theorem length_leftMembers (kept : List (String × ℚ)) {e : Execution}
    (hfresh : ∀ m ∈ kept, m.1 ≠ e.member) :
    max 0 (L - (leftMembers L kept e).length) = max 0 (L - kept.length - 1) := by
  have hall : kept.filter (fun m => m.1 ≠ e.member) = kept :=
    List.filter_eq_self.mpr fun m hm => decide_eq_true (hfresh m hm)
  unfold leftMembers
  split
  · rw [hall, List.length_append, List.length_singleton]
    push_cast
    omega
  · omega

/-- One call on a set: what it is told, and the set it leaves. -/
theorem sliding_answer (hL : 1 ≤ L) (hW : 1 ≤ W) (hfit : Duration.Fits W) {store : Store}
    {a : Arrival} {members : List (String × ℚ)}
    (hset : IsSet (live a.now (store ("rl:sliding" ++ ":" ++ key))) members)
    (hfresh : ∀ m ∈ members, m.1 ≠ a.member) :
    let kept := purged (W * 1000) members a.now
    let left := leftMembers L kept a.execution
    ∃ r, ((newSlidingWindow L (.ofSeconds W)).allow store a.now a.member key).1 = .ok r ∧
      r.allowed = decide ((kept.length : ℤ) < L) ∧ r.remaining = max 0 (L - left.length) ∧
      r.limit = L ∧
      ((newSlidingWindow L (.ofSeconds W)).allow store a.now a.member key).2
        ("rl:sliding" ++ ":" ++ key) = some ⟨.zset left, some (a.now + 2 * (W * 1000))⟩ := by
  intro kept left
  have hexec := slidingExec_of_set (e := a.execution) hL (FixedWindow.window_pos hW) hset
  obtain ⟨hout, hslot⟩ := sliding_allow hfit (congrArg Prod.fst hexec)
  obtain ⟨retryAfter, hparse⟩ := parseReply_slidingReply (L := L) (W * 1000)
    (kept.map Prod.snd) a.now (truncate (newSlidingWindow L (.ofSeconds W)).window.seconds)
  rw [List.length_map] at hparse
  refine ⟨_, hout.trans hparse, rfl, ?_, rfl, hslot.trans (congrArg Prod.snd hexec)⟩
  exact (length_leftMembers kept fun m hm => hfresh m (List.mem_of_mem_filter hm)).symm

theorem slidingReady_step (hL : 1 ≤ L) (hW : 1 ≤ W) (hfit : Duration.Fits W)
    {past : List (Arrival × Outcome)} {s : RateLimiter × Store} {k : ℕ}
    (h : SlidingReady L W key t drawn past s k) {a : Arrival}
    (hpast : ∀ p ∈ past, p.1.member ≠ a.member) (ha : a.now = t ∧ a.member ∉ drawn) :
    (RateLimiter.allow key s a).1.told = promised k ∧
      SlidingReady L W key t drawn (past ++ [(a, (RateLimiter.allow key s a).1)])
        (RateLimiter.allow key s a).2 (k - 1) := by
  obtain ⟨l, store⟩ := s
  obtain ⟨rfl, members, hslot, hnames, hpurged, hk⟩ := h
  obtain ⟨rfl, hdrawn⟩ := ha
  have hpos := FixedWindow.window_pos hW
  have hset : IsSet (live a.now (store ("rl:sliding" ++ ":" ++ key))) members := by
    simp only at hslot
    rw [hslot, live_of_lt _ (by linarith)]
    exact isSet_some ..
  have hfresh : ∀ m ∈ members, m.1 ≠ a.member := by
    rintro m hm heq
    rcases hnames m hm with hm | ⟨p, hp, hpm⟩
    · exact hdrawn (heq ▸ hm)
    · exact hpast p hp (hpm.trans heq)
  obtain ⟨r, hr, hallowed, hremaining, -, hnext⟩ := sliding_answer hL hW hfit hset hfresh
  have hself := purged_self (L := L) hW members a.execution
  have hlen := length_leftMembers (L := L) (e := a.execution) members hfresh
  change purged (W * 1000) (leftMembers L (purged (W * 1000) members a.now) a.execution) a.now =
    leftMembers L (purged (W * 1000) members a.now) a.execution at hself
  rw [hpurged] at hallowed hremaining hnext hself
  simp only [RateLimiter.allow]
  refine ⟨?_, rfl, _, hnext, fun m hm => ?_, hself, by omega⟩
  · rw [hr, Outcome.told, hallowed, hremaining, hlen]
    cases k with
    | zero =>
        have hfull : ¬ (members.length : ℤ) < L := by omega
        rw [decide_eq_false hfull, show max 0 (L - members.length - 1) = 0 by omega]
        rfl
    | succ k =>
        have hroom : (members.length : ℤ) < L := by omega
        rw [decide_eq_true hroom, show max 0 (L - members.length - 1) = k by omega]
        rfl
  · rcases mem_leftMembers hm with hm | rfl
    · rcases hnames m hm with hm | ⟨p, hp, hpm⟩
      · exact .inl hm
      · exact .inr ⟨p, List.mem_append_left _ hp, hpm⟩
    · exact .inr ⟨(a, _), List.mem_append_right _ (List.mem_singleton.mpr rfl), rfl⟩

/-- An answer of the sliding window comes from a set. -/
theorem isSet_of_allow (hfit : Duration.Fits W) {store : Store} {a : Arrival} {r : Result}
    (h : ((newSlidingWindow L (.ofSeconds W)).allow store a.now a.member key).1 = .ok r) :
    ∃ members, IsSet (live a.now (store ("rl:sliding" ++ ":" ++ key))) members := by
  simp only [SlidingWindow.allow, SlidingWindow.args_eq (L := L) hfit] at h
  rw [show (newSlidingWindow L (.ofSeconds W)).keyPrefix = "rl:sliding" from rfl] at h
  unfold Store.run at h
  split at h
  · rename_i reply slot hok
    obtain ⟨members, hset, -⟩ := slidingWindowScript_ok hok
    exact ⟨members, hset⟩
  · cases h

theorem foretells_sliding (hL : 1 ≤ L) (hW : 1 ≤ W) (hfit : Duration.Fits W) {store : Store}
    (hkey : Sane drawn (store ("rl:sliding" ++ ":" ++ key))) {a : Arrival}
    (hmember : a.member ∉ drawn) {r : Result}
    (hr : (RateLimiter.allow key (.sliding (newSlidingWindow L (.ofSeconds W)), store) a).1 =
      .ok r) :
    Foretells key a.now (a.member :: drawn) r
      (RateLimiter.allow key (.sliding (newSlidingWindow L (.ofSeconds W)), store) a).2 := by
  simp only [RateLimiter.allow] at hr ⊢
  obtain ⟨members, hset⟩ := isSet_of_allow hfit hr
  have hnames := (hkey.live a.now).named hset
  have hfresh : ∀ m ∈ members, m.1 ≠ a.member := fun m hm heq => hmember (heq ▸ hnames m hm)
  obtain ⟨r', hr', -, hremaining, hlim, hnext⟩ := sliding_answer hL hW hfit hset hfresh
  obtain rfl := Except.ok.inj (hr'.symm.trans hr)
  refine foretells_of_sim (SlidingReady L W key a.now (a.member :: drawn))
    (k := (max 0 (L - (leftMembers L (purged (W * 1000) members a.now)
      a.execution).length)).toNat)
    ⟨rfl, _, hnext, fun m hm => .inl ?_, purged_self hW members a.execution, by omega⟩
    (by rw [hremaining]; omega) (fun _ => ?_)
    fun _ _ _ _ h hpast hb => slidingReady_step hL hW hfit h hpast hb
  · rcases mem_leftMembers hm with hm | rfl
    · exact List.mem_cons_of_mem _ (hnames m (List.mem_of_mem_filter hm))
    · exact List.mem_cons_self ..
  · have hlen := length_leftMembers (L := L) (e := a.execution)
      (purged (W * 1000) members a.now) fun m hm => hfresh m (List.mem_of_mem_filter hm)
    omega

end Windows

/-! ## Every limiter -/

/-- Only a memory bucket changes with its calls; the others keep their state in Redis. -/
theorem after_serveHit {l : RateLimiter} (h : ∀ m, l ≠ .memory m) (store : Store)
    (past : List Hit) : (after serveHit (l, store) past).1 = l := by
  induction past generalizing store with
  | nil => rfl
  | cons hit past ih =>
      cases l with
      | token l => exact ih _
      | sliding l => exact ih _
      | fixed l => exact ih _
      | memory l => exact absurd rfl (h l)

/-- **`Remaining` is exact**, for the limiter of any accepted policy, whatever its
past calls and whatever any others have left in Redis. -/
theorem remaining_exact {policy valid : Policy} (hvalid : validatePolicy policy = .ok valid)
    (hwindow : valid.windowSeconds < 2 ^ 31) (f : LimiterFactory) (past : List Hit)
    (horder : past.Pairwise fun a b => a.arrival.now ≤ b.arrival.now) {s : Keyspace.Sys}
    (hs : Reach Keyspace.step Any Keyspace.Sys.init s) {key : String} {a : Arrival}
    (hpast : ∀ h ∈ past, h.arrival.now ≤ a.now) (hmember : a.member ∉ s.drawn) {r : Result} :
    let l := (after serveHit (f.newLimiter valid, Store.empty) past).1
    (RateLimiter.allow key (l, s.store) a).1 = .ok r →
      Foretells key a.now (a.member :: s.drawn) r (RateLimiter.allow key (l, s.store) a).2 := by
  intro l hr
  have hsane := sane_reach hs
  have haccepted := accepted_of_validatePolicy hvalid
  have hW := haccepted.window_pos
  have hfit : Duration.Fits valid.windowSeconds := ⟨by omega, by omega⟩
  have hbuilt := built_newLimiter haccepted f
  simp only [l] at hr ⊢
  cases hl : f.newLimiter valid with
  | token m =>
      rw [hl] at hbuilt hr
      cases hbuilt with
      | token hC =>
          rw [after_serveHit (by simp)] at hr ⊢
          exact foretells_token hC hW hfit (hsane _).funded hr
  | sliding m =>
      rw [hl] at hbuilt hr
      cases hbuilt with
      | sliding hL =>
          rw [after_serveHit (by simp)] at hr ⊢
          exact foretells_sliding hL hW hfit (hsane _) hmember hr
  | fixed m =>
      rw [hl] at hbuilt hr
      cases hbuilt with
      | fixed hL =>
          rw [after_serveHit (by simp)] at hr ⊢
          exact foretells_fixed hW hfit hsane hr
  | memory m =>
      rw [hl] at hbuilt hr
      cases hbuilt with
      | memory hC =>
          obtain ⟨-, level, htwins⟩ := twins_run hC hW hfit horder
          rw [htwins.memory] at hr ⊢
          refine foretells_memory hC hW hfit rfl (htwins.within key) (fun lvl hlvl => ?_) hr
          obtain ⟨p, hp, htime⟩ := htwins.past key lvl hlvl
          exact htime ▸ hpast p.1 (mem_of_mem_trace hp)

/-- A bucket of five, used once. -/
def usedBucket : List Keyspace.Action := [.token (newTokenBucket 5 (.ofSeconds 60)) 0 "ip:a:/"]

/-- Its policy, edited to a bucket of two. -/
def smallerBucket : Policy :=
  { id := "1", name := "api", algorithm := algorithmTokenBucket, requestLimit := 2,
    windowSeconds := 60, burstCapacity := 2 }

def redisConfig : Config := ⟨algorithmTokenBucket, 100, 60000000000, 100, "redis", "closed"⟩

/-- Four tokens were left; two fit, and the first request takes one of them. -/
theorem remaining_exact_edited :
    ∃ s r, exec Keyspace.step Keyspace.Sys.init usedBucket = some s ∧ r.remaining = 1 ∧
      Foretells "ip:a:/" 0 ["1"] r (RateLimiter.allow "ip:a:/"
        ((LimiterFactory.new true redisConfig).newLimiter smallerBucket, s.store)
        (.atEpoch "1")).2 := by
  have hvalid : validatePolicy smallerBucket = .ok smallerBucket :=
    validatePolicy_of_accepted ⟨.inl rfl, by decide, by decide, by decide⟩
  obtain ⟨s, hs, hdrawn, hr⟩ : ∃ s, exec Keyspace.step Keyspace.Sys.init usedBucket = some s ∧
      s.drawn = [] ∧ (RateLimiter.allow "ip:a:/"
        ((LimiterFactory.new true redisConfig).newLimiter smallerBucket, s.store)
        (.atEpoch "1")).1 = .ok ⟨true, 1, 0, 2, 60⟩ :=
    ⟨_, rfl, rfl, by decide +kernel⟩
  have h := remaining_exact hvalid (by decide) (LimiterFactory.new true redisConfig) [] .nil
    (reach_exec .init hs) (fun _ hh => nomatch hh) (by simp [hdrawn]) hr
  rw [hdrawn] at h
  exact ⟨s, _, hs, rfl, h⟩

end RateX
