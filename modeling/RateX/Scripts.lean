import RateX.Duration
import RateX.Redis

/-!
# The two Lua scripts

`tokenBucketScript` and `slidingWindowScript` as Redis runs them: atomically,
on the one key `KEYS[1]`, whose slot they get as the server found it at its
own time `clock`. `ARGV` is a record; `now_ms` in it is the caller's clock
reading and need not agree with `clock`. Lua's doubles are exact rationals
here, and a number returned to the client is cut to an integer.
-/

namespace RateX

open Redis

/-- A Lua number as an integer reply: Redis drops the fraction. -/
def luaReply (x : ℚ) : Reply := .integer (truncate x)

@[simp] theorem luaReply_intCast (n : Int) : luaReply n = .integer n := by
  simp [luaReply]

/-- `ARGV` of `TokenBucketScript`. -/
structure TokenArgs where
  capacity : ℚ
  refillRate : ℚ
  nowMs : ℚ
  requested : ℚ
  ttlMs : ℚ

/-- The two fields of the hash; a key without both stands for a full bucket. -/
def TokenArgs.stored (argv : TokenArgs) : Option ℚ → Option ℚ → ℚ × ℚ
  | some tokens, some lastRefill => (tokens, lastRefill)
  | _, _ => (argv.capacity, argv.nowMs)

/-- The tokens after the refill since `lastRefill`. -/
def TokenArgs.refill (argv : TokenArgs) (stored : ℚ × ℚ) : ℚ :=
  let (tokens, lastRefill) := stored
  let elapsed := max 0 (argv.nowMs - lastRefill) / 1000
  min argv.capacity (tokens + elapsed * argv.refillRate)

/-- `allowed`, the tokens left, `retry_after`. -/
def TokenArgs.decide (argv : TokenArgs) (tokens : ℚ) : Int × ℚ × Int :=
  if argv.requested ≤ tokens then (1, tokens - argv.requested, 0)
  else
    let missing := argv.requested - tokens
    (0, tokens, ⌈missing / argv.refillRate⌉)

def tokenBucketScript (argv : TokenArgs) (clock : ℚ) (key : Slot) :
    Except Error (List Reply × Slot) := do
  let tokens ← hget key "tokens"
  let lastRefill ← hget key "last_refill"
  let tokens := argv.refill (argv.stored tokens lastRefill)
  let (allowed, tokens, retryAfter) := argv.decide tokens
  let key ← hset key [("tokens", tokens), ("last_refill", argv.nowMs)]
  let key := pexpire clock argv.ttlMs key
  return ([.integer allowed, .integer ⌊tokens⌋, .integer retryAfter, luaReply argv.capacity], key)

/-- What the script answers and leaves, when its key is not of another type. -/
theorem tokenBucketScript_ok {argv : TokenArgs} {clock : ℚ} {key key' : Slot} {reply : List Reply}
    (h : tokenBucketScript argv clock key = .ok (reply, key')) :
    ∃ tokens lastRefill fields deadline,
      hget key "tokens" = .ok tokens ∧ hget key "last_refill" = .ok lastRefill ∧
      let out := argv.decide (argv.refill (argv.stored tokens lastRefill))
      reply = [.integer out.1, .integer ⌊out.2.1⌋, .integer out.2.2, luaReply argv.capacity] ∧
        key' = pexpire clock argv.ttlMs (some ⟨.hash fields, deadline⟩) ∧
        fields "tokens" = some out.2.1 ∧ fields "last_refill" = some argv.nowMs := by
  match key with
  | none =>
      simp only [tokenBucketScript, hget, hset, bind, Except.bind, pure, Except.pure,
        Except.ok.injEq, Prod.mk.injEq] at h
      obtain ⟨rfl, rfl⟩ := h
      exact ⟨_, _, _, _, rfl, rfl, rfl, rfl, by simp, by simp⟩
  | some ⟨.hash fields, deadline⟩ =>
      simp only [tokenBucketScript, hget, hset, bind, Except.bind, pure, Except.pure,
        Except.ok.injEq, Prod.mk.injEq] at h
      obtain ⟨rfl, rfl⟩ := h
      exact ⟨_, _, _, _, rfl, rfl, rfl, rfl, by simp, by simp⟩
  | some ⟨.counter n, deadline⟩ => simp [tokenBucketScript, hget, bind, Except.bind] at h
  | some ⟨.zset members, deadline⟩ => simp [tokenBucketScript, hget, bind, Except.bind] at h

/-- `ARGV` of `SlidingWindowScript`. -/
structure SlidingArgs where
  limit : ℚ
  windowMs : ℚ
  nowMs : ℚ
  member : String
  ttlMs : ℚ

def slidingWindowScript (argv : SlidingArgs) (clock : ℚ) (key : Slot) :
    Except Error (List Reply × Slot) := do
  let key ← zremrangebyscore key 0 (argv.nowMs - argv.windowMs)
  let count ← zcard key
  if (count : ℚ) < argv.limit then
    let key ← zadd key argv.nowMs argv.member
    let key := pexpire clock argv.ttlMs key
    return ([.integer 1, luaReply (argv.limit - count - 1), .integer 0, luaReply argv.limit], key)
  else
    let oldest ← zrangeFirst key
    let retryAfter : Int := match oldest with
      | none => 1
      | some score => max 1 ⌈(score + argv.windowMs - argv.nowMs) / 1000⌉
    let key := pexpire clock argv.ttlMs key
    return ([.integer 0, .integer 0, .integer retryAfter, luaReply argv.limit], key)

/-- The members the script keeps. -/
def SlidingArgs.kept (argv : SlidingArgs) (members : List (String × ℚ)) : List (String × ℚ) :=
  members.filter fun m => ¬(0 ≤ m.2 ∧ m.2 ≤ argv.nowMs - argv.windowMs)

/-- The wait it answers a request that it refuses. -/
def SlidingArgs.retryAfter (argv : SlidingArgs) (scores : List ℚ) : Int :=
  match scores.min? with
  | none => 1
  | some score => max 1 ⌈(score + argv.windowMs - argv.nowMs) / 1000⌉

/-- **The sliding window's script** on a sorted set: it is never refused. -/
theorem slidingWindowScript_set {key : Slot} {members : List (String × ℚ)} (h : IsSet key members)
    (argv : SlidingArgs) (clock : ℚ) :
    ((argv.kept members).length < argv.limit ∧
      ∃ deadline, slidingWindowScript argv clock key =
        .ok ([.integer 1, luaReply (argv.limit - (argv.kept members).length - 1), .integer 0,
            luaReply argv.limit],
          pexpire clock argv.ttlMs (some ⟨.zset ((argv.kept members).filter
            (fun m => m.1 ≠ argv.member) ++ [(argv.member, argv.nowMs)]), deadline⟩))) ∨
    (argv.limit ≤ (argv.kept members).length ∧
      ∃ purged, IsSet purged (argv.kept members) ∧ slidingWindowScript argv clock key =
        .ok ([.integer 0, .integer 0,
            .integer (argv.retryAfter ((argv.kept members).map Prod.snd)), luaReply argv.limit],
          pexpire clock argv.ttlMs purged)) := by
  obtain ⟨purged, hpurge, hkept⟩ := h.zremrangebyscore 0 (argv.nowMs - argv.windowMs)
  change IsSet purged (argv.kept members) at hkept
  rcases lt_or_ge ((argv.kept members).length : ℚ) argv.limit with hlt | hge
  · obtain ⟨deadline, hadd⟩ := hkept.zadd argv.nowMs argv.member
    refine .inl ⟨hlt, deadline, ?_⟩
    simp only [slidingWindowScript, hpurge, hkept.zcard, bind, Except.bind, pure, Except.pure,
      if_pos hlt, hadd]
  · refine .inr ⟨hge, purged, hkept, ?_⟩
    simp only [slidingWindowScript, hpurge, hkept.zcard, bind, Except.bind, pure, Except.pure,
      if_neg (not_lt.mpr hge), hkept.zrangeFirst]
    rfl

/-- What the script answers and leaves, when its key is not of another type. -/
theorem slidingWindowScript_ok {argv : SlidingArgs} {clock : ℚ} {key key' : Slot}
    {reply : List Reply} (h : slidingWindowScript argv clock key = .ok (reply, key')) :
    ∃ members, IsSet key members ∧
      (((argv.kept members).length < argv.limit ∧
        reply = [.integer 1, luaReply (argv.limit - (argv.kept members).length - 1), .integer 0,
          luaReply argv.limit] ∧
        ∃ deadline, key' = pexpire clock argv.ttlMs (some ⟨.zset ((argv.kept members).filter
          (fun m => m.1 ≠ argv.member) ++ [(argv.member, argv.nowMs)]), deadline⟩)) ∨
      (argv.limit ≤ (argv.kept members).length ∧
        reply = [.integer 0, .integer 0,
          .integer (argv.retryAfter ((argv.kept members).map Prod.snd)), luaReply argv.limit] ∧
        ∃ purged, IsSet purged (argv.kept members) ∧
          key' = pexpire clock argv.ttlMs purged)) := by
  have hset : ∃ members, IsSet key members := by
    match key with
    | none => exact ⟨[], isSet_none⟩
    | some ⟨.zset members, deadline⟩ => exact ⟨members, isSet_some members deadline⟩
    | some ⟨.counter n, deadline⟩ =>
        simp [slidingWindowScript, zremrangebyscore, bind, Except.bind] at h
    | some ⟨.hash fields, deadline⟩ =>
        simp [slidingWindowScript, zremrangebyscore, bind, Except.bind] at h
  obtain ⟨members, hmembers⟩ := hset
  refine ⟨members, hmembers, ?_⟩
  obtain ⟨hlt, deadline, heq⟩ | ⟨hge, purged, hkept, heq⟩ :=
    slidingWindowScript_set hmembers argv clock
  · obtain ⟨rfl, rfl⟩ := Prod.ext_iff.mp (Except.ok.inj (heq.symm.trans h))
    exact .inl ⟨hlt, rfl, deadline, rfl⟩
  · obtain ⟨rfl, rfl⟩ := Prod.ext_iff.mp (Except.ok.inj (heq.symm.trans h))
    exact .inr ⟨hge, rfl, purged, hkept, rfl⟩

end RateX
