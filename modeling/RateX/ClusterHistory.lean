import RateX.Admission
import RateX.ClusterIsolation
import RateX.LateScripts

/-!
# Histories of calls

The calls on one key, in the order in which Redis carried out their first
commands, as one limiter would have served them one after the other, each at
the reading of its clock. `Told` is what the history answers a call; `Follows`
is what the keys hold after it while scripts come later than they were read
for, and the commands that follow an `INCR` late or not at all. A call of the
cluster either is not carried out, or is the next of the history and is told
what the history tells it (`Follows.call`).
-/

namespace RateX

namespace Cluster

open Redis Steps Transducer Timeline

/-! ## Calls one after the other -/

/-- The call of a task. -/
def ask (key : String) (s : RateLimiter × Store) (q : ℕ × Arrival) :
    Outcome × (RateLimiter × Store) :=
  RateLimiter.allow key s q.2

/-- Redis after the calls. -/
def kept (key : String) (l : RateLimiter) (past : List (ℕ × Arrival)) : Store :=
  (after (ask key) (l, Store.empty) past).2

/-- The same result; that of a fixed window may differ in its times, which a
`TTL` of its own reads. -/
def Agree (r r' : Result) : RateLimiter → Prop
  | .fixed _ => r'.allowed = r.allowed ∧ r'.remaining = r.remaining ∧ r'.limit = r.limit
  | _ => r' = r

theorem agree_refl (r : Result) (l : RateLimiter) : Agree r r l := by
  cases l with
  | fixed l => exact ⟨rfl, rfl, rfl⟩
  | _ => rfl

theorem Agree.allowed {r r' : Result} {l : RateLimiter} (h : Agree r r' l) :
    r'.allowed = r.allowed := by
  cases l with
  | fixed l => exact h.1
  | _ => exact congrArg Result.allowed h

/-- The call of `n`, read at `reading`, was told `r` in this history. -/
def Told (key : String) (l : RateLimiter) (past : List (ℕ × Arrival)) (n : ℕ) (reading : ℚ)
    (r : Result) : Prop :=
  ∃ a r', ((n, a), Except.ok r') ∈ trace (ask key) (l, Store.empty) past ∧ a.now = reading ∧
    Agree r r' l

section History

variable {W : ℤ} {key : String} {l : RateLimiter} {past : List (ℕ × Arrival)} {n : ℕ}
  {reading now : ℚ} {r : Result} {store : Store}

theorem OfRedis.allow_snd (hl : OfRedis l) (store : Store) (a : Arrival) :
    RateLimiter.allow key (l, store) a = ((RateLimiter.allow key (l, store) a).1,
      (l, (RateLimiter.allow key (l, store) a).2.2)) := by
  obtain ⟨w, op, -, hop⟩ := allow_local hl.ne_memory key a
  rw [hop]

/-- A limiter on Redis is what it was. -/
theorem after_ask (hl : OfRedis l) (past : List (ℕ × Arrival)) :
    after (ask key) (l, Store.empty) past = (l, kept key l past) := by
  have hfst : ∀ (past : List (ℕ × Arrival)) (store : Store),
      (after (ask key) (l, store) past).1 = l := by
    intro past
    induction past with
    | nil => exact fun _ => rfl
    | cons q past ih =>
        intro store
        rw [after_cons, ask, hl.allow_snd store q.2]
        exact ih _
  exact Prod.ext (hfst past Store.empty) rfl

theorem kept_append (hl : OfRedis l) (n : ℕ) (a : Arrival) :
    kept key l (past ++ [(n, a)]) = (RateLimiter.allow key (l, kept key l past) a).2.2 := by
  rw [kept, after_append, after_ask hl]
  rfl

/-- What the last call of a history is told. -/
theorem told_append (hl : OfRedis l) {a : Arrival} {r' : Result}
    (h : (RateLimiter.allow key (l, kept key l past) a).1 = .ok r') (hr : Agree r r' l) :
    Told key l (past ++ [(n, a)]) n a.now r := by
  refine ⟨a, r', ?_, rfl, hr⟩
  rw [trace_append, after_ask hl, ← h]
  exact List.mem_append_right _ (List.mem_singleton.mpr rfl)

theorem Told.append (h : Told key l past n reading r) (q : ℕ × Arrival) :
    Told key l (past ++ [q]) n reading r := by
  obtain ⟨a, r', hmem, hrest⟩ := h
  refine ⟨a, r', ?_, hrest⟩
  rw [trace_append]
  exact List.mem_append_left _ hmem

theorem Told.mem (h : Told key l past n reading r) : ∃ a, (n, a) ∈ past ∧ a.now = reading := by
  obtain ⟨a, r', hmem, hnow, -⟩ := h
  exact ⟨a, mem_of_mem_trace hmem, hnow⟩

/-! ## What Redis holds of a history -/

/-- The calls of the history in window `w`. -/
def inWindow (W : ℤ) (past : List (ℕ × Arrival)) (w : ℤ) : ℕ :=
  past.countP fun q => ⌊q.2.now / (W * 1000 : ℚ)⌋ = w

/-- The keys of a pair hold what the history leaves in them, each to its own
deadline; a counter may lack one. -/
def Follows (W : ℤ) (key : String) (now : ℚ) (store : Store) (past : List (ℕ × Arrival)) :
    RateLimiter → Prop
  | .token l => ∃ b, Bucket.Within (l.capacity : ℚ) b ∧
      HoldsBeyond W (store (storeKey (.token l) key 0)) b ∧
      HoldsBeyond W (kept key (.token l) past (storeKey (.token l) key 0)) b
  | .sliding l => ∃ set, SetBeyond (W * 1000) (store (storeKey (.sliding l) key 0)) set ∧
      SetBeyond (W * 1000) (kept key (.sliding l) past (storeKey (.sliding l) key 0)) set ∧
      ∀ s, set = some s → ∃ q ∈ past, q.2.now = s.touched
  | .fixed l => ∀ w, now < FixedWindow.windowEnd W w →
      FixedWindow.Counts (store (l.redisKey key w)) (inWindow W past w) (FixedWindow.windowEnd W w)
  | .memory _ => True

theorem follows_init (hl : OfRedis l) (now : ℚ) : Follows W key now Store.empty [] l := by
  cases hl with
  | token C window => exact ⟨none, Bucket.within_none, holdsBeyond_none W, holdsBeyond_none W⟩
  | sliding L window => exact ⟨none, rfl, rfl, fun _ h => nomatch h⟩
  | fixed L window => exact fun w _ => FixedWindow.counts_none _

theorem Follows.later (h : Follows W key now store past l) {now' : ℚ} (hle : now ≤ now') :
    Follows W key now' store past l := by
  cases l with
  | fixed l => exact fun w hw => h w (hle.trans_lt hw)
  | _ => exact h

theorem Follows.frame (h : Follows W key now store past l) {store' : Store}
    (hkeys : ∀ w, store' (storeKey l key w) = store (storeKey l key w)) :
    Follows W key now store' past l := by
  cases l with
  | token l =>
      obtain ⟨b, hb, hstore, hkept⟩ := h
      exact ⟨b, hb, (hkeys 0).symm ▸ hstore, hkept⟩
  | sliding l =>
      obtain ⟨set, hstore, hrest⟩ := h
      exact ⟨set, (hkeys 0).symm ▸ hstore, hrest⟩
  | fixed l =>
      intro w hw
      have hkey : store' (l.redisKey key w) = _ := hkeys w
      rw [hkey]
      exact h w hw
  | memory l => trivial

/-! ### The scripts -/

/-- A call of one command, of which Redis makes `outcome` and `store'`. -/
def sent (net : Network) (outcome : Outcome) (l : RateLimiter) (store store' : Store) :
    Reached × (RateLimiter × Store) :=
  match net with
  | .up => (.answer outcome, l, store')
  | .answerLost => (.answer (.error (.redis .connection)), l, store')
  | .down => (.answer (.error (.redis .connection)), l, store)

/-- A call that comes at once is `Allow`. -/
theorem call_up (key : String) (hl : OfRedis l) (hbuilt : Built W l) (hscript : ∀ f, l ≠ .fixed f)
    (a : Arrival) (store : Store) : call .up a.now a.now a.member key (l, store) =
      (.answer (RateLimiter.allow key (l, store) a).1, (RateLimiter.allow key (l, store) a).2) := by
  cases hl with
  | token C window =>
      have hcap : ¬ (newTokenBucket C window).capacity ≤ 0 := by
        cases hbuilt with
        | token hC => exact not_le.mpr (show 0 < C by omega)
      simp only [call, RateLimiter.allow, TokenBucket.allow, if_neg hcap]
      rfl
  | sliding L window => rfl
  | fixed L window => exact absurd rfl (hscript _)

theorem token_call {C : ℤ} (hC : 1 ≤ C) (hW : 1 ≤ W) (hfit : Duration.Fits W)
    {b : Option (Bucket.Level ℚ)} (hb : Bucket.Within (C : ℚ) b) :
    let l := RateLimiter.token (newTokenBucket C (.ofSeconds W))
    HoldsBeyond W (store (storeKey l key 0)) b → reading ≤ now → now ≤ reading + W * 1000 →
      ∀ member, ∃ store', (∀ net, call net now reading member key (l, store) =
          sent net (.ok (tokenResult C W (found C W b reading))) l store store') ∧
        HoldsBeyond W (store' (storeKey l key 0)) (taken C W b reading).2 := by
  intro l hstore hle hlate member
  obtain ⟨slot, hscript, hslot⟩ := tokenBucketScript_late hC hW hstore hb hle hlate
  have hcap : ¬ (newTokenBucket C (.ofSeconds W)).capacity ≤ 0 :=
    not_le.mpr (show 0 < C by omega)
  have hreset : truncate (newTokenBucket C (.ofSeconds W)).window.seconds = W := by
    simp only [newTokenBucket, Duration.seconds_ofSeconds hfit, truncate_intCast]
  have hrun : store.run now ((newTokenBucket C (.ofSeconds W)).keyPrefix ++ ":" ++ key)
      (tokenBucketScript (tokenArgs C W reading) now) = _ := Store.run_ok hscript
  refine ⟨Function.update store (storeKey l key 0) slot, fun net => ?_, ?_⟩
  · simp only [l, call, if_neg hcap, TokenBucket.args_eq hW hfit, hreset]
    cases net with
    | up =>
        rw [send, hrun, parseReply_tokenReply]
        rfl
    | answerLost =>
        rw [send, hrun]
        rfl
    | down => rfl
  · rw [Function.update_self]
    exact hslot

theorem sliding_call {L : ℤ} (hL : 1 ≤ L) (hW : 1 ≤ W) (hfit : Duration.Fits W)
    {set : Option SetAt} {a : Arrival} (hset : ∀ s, set = some s → s.touched ≤ a.now) :
    let l := RateLimiter.sliding (newSlidingWindow L (.ofSeconds W))
    let scores := (purged (W * 1000) (SetAt.stored set) a.now).map Prod.snd
    let left := leftMembers L (purged (W * 1000) (SetAt.stored set) a.now) ⟨now, a.now, a.member⟩
    SetBeyond (W * 1000) (store (storeKey l key 0)) set → a.now ≤ now → now ≤ a.now + W * 1000 →
      ∃ store', (∀ net, call net now a.now a.member key (l, store) =
          sent net (parseReply (.ok (slidingReply L (W * 1000) scores a.now)) W) l store store') ∧
        SetBeyond (W * 1000) (store' (storeKey l key 0)) (some ⟨left, a.now⟩) := by
  intro l scores left hstore hle hlate
  obtain ⟨hreply, hleft⟩ := slidingExec_late (e := ⟨now, a.now, a.member⟩) hL
    (FixedWindow.window_pos hW) hstore a.nonneg hset hle hlate
  obtain ⟨hrun, hslot⟩ := run_execute hreply
  have hargs : (newSlidingWindow L (.ofSeconds W)).args a.now a.member =
      slidingArgs L (W * 1000) ⟨now, a.now, a.member⟩ := SlidingWindow.args_eq hfit a.now a.member
  have hreset : truncate (newSlidingWindow L (.ofSeconds W)).window.seconds = W := by
    simp only [newSlidingWindow, Duration.seconds_ofSeconds hfit, truncate_intCast]
  refine ⟨_, fun net => ?_, hslot.symm ▸ hleft⟩
  simp only [l, call, hargs, hreset]
  cases net with
  | up => exact congrArg (fun reply => (Reached.answer (parseReply reply W), l, _)) hrun
  | answerLost => rfl
  | down => rfl

/-- A call of one command, no more than a window late, is the next of the history. -/
theorem Follows.script (hW : 1 ≤ W) (hfit : Duration.Fits W) (hl : OfRedis l) (hbuilt : Built W l)
    (hscript : ∀ f, l ≠ .fixed f) {a : Arrival} (ha : ∀ q ∈ past, q.2.now ≤ a.now)
    (hle : a.now ≤ now) (hlate : now ≤ a.now + W * 1000) (h : Follows W key now store past l)
    (n : ℕ) : ∃ store', (∀ net, call net now a.now a.member key (l, store) =
        sent net (RateLimiter.allow key (l, kept key l past) a).1 l store store') ∧
      Follows W key now store' (past ++ [(n, a)]) l := by
  have hms := FixedWindow.window_pos hW
  have hnow : a.now ≤ a.now + W * 1000 := by linarith
  have hallow := call_up key hl hbuilt hscript a (kept key l past)
  cases hbuilt with
  | @token C hC =>
      obtain ⟨b, hb, hstore, hkept⟩ := h
      obtain ⟨store', hcall, hheld⟩ := token_call hC hW hfit hb hstore hle hlate a.member
      obtain ⟨kept', hcall', hheld'⟩ := token_call hC hW hfit hb hkept le_rfl hnow a.member
      obtain ⟨hout, hnext⟩ := Prod.mk.inj (hallow.symm.trans (hcall' .up))
      refine ⟨store', fun net => (hcall net).trans ?_, _, ?_, hheld, ?_⟩
      · rw [Reached.answer.inj hout]
      · exact Bucket.within_take (cast_pos hC).le (ratePerMs_nonneg hC hW) hb a.now
      · rw [kept_append hl, hnext]
        exact hheld'
  | @sliding L hL =>
      obtain ⟨set, hstore, hkept, htouched⟩ := h
      have hset : ∀ s, set = some s → s.touched ≤ a.now := fun s hs => by
        obtain ⟨q, hq, htime⟩ := htouched s hs
        exact htime ▸ ha q hq
      obtain ⟨store', hcall, hheld⟩ := sliding_call hL hW hfit hset hstore hle hlate
      obtain ⟨kept', hcall', hheld'⟩ := sliding_call hL hW hfit hset hkept le_rfl hnow
      obtain ⟨hout, hnext⟩ := Prod.mk.inj (hallow.symm.trans (hcall' .up))
      refine ⟨store', fun net => (hcall net).trans ?_, _, hheld, ?_, fun s hs => ?_⟩
      · rw [Reached.answer.inj hout]
      · rw [kept_append hl, hnext]
        exact hheld'
      · obtain rfl := Option.some.inj hs
        exact ⟨(n, a), List.mem_append_right _ (List.mem_singleton.mpr rfl), rfl⟩
  | fixed hL => exact absurd rfl (hscript _)
  | memory hC => exact absurd rfl (hl.ne_memory _)

/-! ### The counters -/

theorem inWindow_append (W : ℤ) (past : List (ℕ × Arrival)) (n : ℕ) (a : Arrival) (w : ℤ) :
    inWindow W (past ++ [(n, a)]) w =
      inWindow W past w + if w = ⌊a.now / (W * 1000)⌋ then 1 else 0 := by
  simp only [inWindow, List.countP_append, List.countP_singleton, decide_eq_true_eq,
    eq_comm (a := w)]

/-- What a history told a call of a fixed window that it has made next. -/
theorem history_fixed (key : String) {L : ℤ} (hW : 1 ≤ W) (hfit : Duration.Fits W)
    (hrun : InOrder (past.map Prod.snd)) {a : Arrival}
    (ha : ∀ q ∈ past, q.2.now ≤ a.now) :
    let l := newFixedWindow L (.ofSeconds W)
    ∃ ttl, (RateLimiter.allow key (.fixed l, kept key (.fixed l) past) a).1 =
      .ok (l.result (inWindow W past ⌊a.now / (W * 1000)⌋ + 1) ttl) := by
  intro l
  have hl : l.window = W * Duration.second := Duration.ofSeconds_eq hfit
  have hinv := fixedInv_trace (L := L) hW hfit key hrun
  have hstore : (after (RateLimiter.allow key) (.fixed l, Store.empty) (past.map Prod.snd)).2 =
      kept key (.fixed l) past := by
    have hafter : ∀ (past : List (ℕ × Arrival)) (s : RateLimiter × Store),
        after (RateLimiter.allow key) s (past.map Prod.snd) = after (ask key) s past := by
      intro past
      induction past with
      | nil => exact fun _ => rfl
      | cons q past ih => exact fun s => ih _
    rw [hafter, kept]
  have hcounted := hinv.counted a.now a.nonneg fun p hp => by
    obtain ⟨q, hq, heq⟩ := List.mem_map.mp (mem_of_mem_trace hp)
    exact heq ▸ ha q hq
  rw [hstore] at hcounted
  have hnumber : requested W key (trace (RateLimiter.allow key) (.fixed l, Store.empty)
      (past.map Prod.snd)) key ⌊a.now / (W * 1000)⌋ = inWindow W past ⌊a.now / (W * 1000)⌋ := by
    have hcount := congrArg (List.countP fun b : Arrival =>
      decide (⌊b.now / (W * 1000 : ℚ)⌋ = ⌊a.now / (W * 1000)⌋))
        (@trace_map_fst _ _ _ (RateLimiter.allow key) (.fixed l, Store.empty)
          (past.map Prod.snd))
    rw [List.countP_map, List.countP_map] at hcount
    simp only [requested, if_true]
    exact hcount
  obtain ⟨store', hincr, -⟩ := hcounted.incr hW key
  rw [hnumber] at hincr
  exact (FixedWindow.allow_of_incr (FixedWindow.windowID_eq hl hW a.nonneg) hincr).1

/-- The `INCR` of a call counts the calls of its window so far. -/
theorem Follows.incr {l : FixedWindow} (h : Follows W key now store past (.fixed l)) (n : ℕ)
    {a : Arrival} (hw : now < FixedWindow.windowEnd W ⌊a.now / (W * 1000)⌋) :
    let w := ⌊a.now / (W * 1000)⌋
    ∃ store', store.run now (l.redisKey key w) Redis.incr = (.ok (inWindow W past w + 1), store') ∧
      Follows W key now store' (past ++ [(n, a)]) (.fixed l) := by
  intro w
  obtain ⟨slot, hincr, hcounts⟩ := ((h w hw).live hw).incr
  refine ⟨_, Store.run_ok hincr, fun w' hw' => ?_⟩
  rw [inWindow_append]
  by_cases heq : w' = w
  · rw [if_pos heq, heq, Function.update_self]
    exact hcounts
  · have hne : l.redisKey key w' ≠ l.redisKey key w := fun hkey =>
      heq (FixedWindow.redisKey_inj l hkey).2
    rw [if_neg heq, Function.update_of_ne hne]
    exact h w' hw'

/-- An `EXPIRE` for a window that has begun. -/
theorem Follows.expire {l : FixedWindow} (hl : l.window = W * Duration.second) (hW : 1 ≤ W)
    (h : Follows W key now store past (.fixed l)) (hle : reading ≤ now) (net : Network) :
    Follows W key now
      (send net store now (l.redisKey key ⌊reading / (W * 1000)⌋) (l.expire now)).2 past
        (.fixed l) := by
  have hcarried : Follows W key now
      (store.run now (l.redisKey key ⌊reading / (W * 1000)⌋) (l.expire now)).2 past (.fixed l) := by
    intro w hw
    by_cases heq : l.redisKey key w = l.redisKey key ⌊reading / (W * 1000)⌋
    · obtain rfl := (FixedWindow.redisKey_inj l heq).2
      have hend := FixedWindow.windowEnd_le hW reading
      simp only [Store.run, FixedWindow.expire, Function.update_self, hl,
        FixedWindow.formatSec_window hW]
      exact ((h _ hw).live hw).pexpire (FixedWindow.window_pos hW) (by linarith)
    · rw [Store.run_other _ _ _ _ heq]
      exact h w hw
  cases net with
  | down => exact h
  | _ => exact hcarried

theorem agree_result (f : FixedWindow) (count : ℤ) (ttl ttl' : Duration) :
    Agree (f.result count ttl) (f.result count ttl') (.fixed f) := ⟨rfl, rfl, rfl⟩

/-! ## A call of the pair -/

/-- What a call has reached is what the history, with the call in it, says. -/
def Reached.Judged (W : ℤ) (key : String) (l : RateLimiter) (past : List (ℕ × Arrival)) (n : ℕ)
    (reading : ℚ) : Reached → Prop
  | .answer (.ok r) => Told key l past n reading r
  | .answer (.error _) => True
  | .counted f redisKey count => .fixed f = l ∧
      redisKey = f.redisKey key ⌊reading / (W * 1000)⌋ ∧
      ∀ ttl, Told key l past n reading (f.result count ttl)

/-- A call read at `reading` comes in time at `now`: a script up to a window
later, an `INCR` before its window ends. -/
def InTime (W : ℤ) (reading now : ℚ) : RateLimiter → Prop
  | .fixed _ => now < FixedWindow.windowEnd W ⌊reading / (W * 1000)⌋
  | _ => now ≤ reading + W * 1000

theorem InTime.script (h : InTime W reading now l) (hscript : ∀ f, l ≠ .fixed f) :
    now ≤ reading + W * 1000 := by
  cases l with
  | fixed f => exact absurd rfl (hscript f)
  | _ => exact h

/-- A call either is not carried out, or is the next of the history. -/
theorem Follows.call (hW : 1 ≤ W) (hfit : Duration.Fits W) (hl : OfRedis l) (hbuilt : Built W l)
    (hrun : InOrder (past.map Prod.snd)) {a : Arrival} (ha : ∀ q ∈ past, q.2.now ≤ a.now)
    (hle : a.now ≤ now) (hintime : InTime W a.now now l) (h : Follows W key now store past l)
    (n : ℕ) (net : Network) {reached : Reached} {l' : RateLimiter} {store' : Store}
    (hcall : call net now a.now a.member key (l, store) = (reached, l', store')) :
    (Follows W key now store' past l ∧ ∃ e, reached = .answer (.error e)) ∨
      (Follows W key now store' (past ++ [(n, a)]) l ∧
        reached.Judged W key l (past ++ [(n, a)]) n a.now) := by
  by_cases hscript : ∀ f, l ≠ .fixed f
  · obtain ⟨carried, hsent, hfollows⟩ :=
      h.script hW hfit hl hbuilt hscript ha hle (hintime.script hscript) n
    rw [hsent] at hcall
    cases net with
    | down =>
        cases hcall
        exact .inl ⟨h, _, rfl⟩
    | answerLost =>
        cases hcall
        exact .inr ⟨hfollows, trivial⟩
    | up =>
        cases hcall
        refine .inr ⟨hfollows, ?_⟩
        cases hanswer : (RateLimiter.allow key (l, kept key l past) a).1 with
        | error e => exact trivial
        | ok r => exact told_append hl hanswer (agree_refl r l)
  · obtain ⟨f, rfl⟩ := not_forall_not.mp hscript
    obtain ⟨L, rfl⟩ : ∃ L, f = newFixedWindow L (.ofSeconds W) := by
      cases hbuilt with
      | @fixed L hL => exact ⟨L, rfl⟩
    have hid := FixedWindow.windowID_eq (l := newFixedWindow L (.ofSeconds W))
      (Duration.ofSeconds_eq hfit) hW a.nonneg
    obtain ⟨store'', hincr, hfollows⟩ := h.incr n hintime
    have htold : ∀ ttl, Told key (.fixed (newFixedWindow L (.ofSeconds W))) (past ++ [(n, a)]) n
        a.now ((newFixedWindow L (.ofSeconds W)).result
          (inWindow W past ⌊a.now / (W * 1000)⌋ + 1) ttl) := by
      intro ttl
      obtain ⟨ttl', hanswer⟩ := history_fixed key (L := L) hW hfit hrun ha
      exact told_append hl hanswer (agree_result ..)
    cases net with
    | down =>
        simp only [Cluster.call, hid, send, Reached.ofIncr, Prod.mk.injEq] at hcall
        obtain ⟨rfl, -, rfl⟩ := hcall
        exact .inl ⟨h, _, rfl⟩
    | answerLost =>
        simp only [Cluster.call, hid, send, hincr, Reached.ofIncr, Prod.mk.injEq] at hcall
        obtain ⟨rfl, -, rfl⟩ := hcall
        exact .inr ⟨hfollows, trivial⟩
    | up =>
        simp only [Cluster.call, hid, send, hincr, Reached.ofIncr, Prod.mk.injEq] at hcall
        obtain ⟨rfl, -, rfl⟩ := hcall
        exact .inr ⟨hfollows, rfl, rfl, htold⟩

end History

end Cluster

end RateX
