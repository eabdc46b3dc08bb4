import RateX.Scripts

/-!
# The four limiters

`Allow` of `TokenBucket`, `SlidingWindow`, `FixedWindow` (on Redis) and of
`MemoryTokenBucket`. A clock reading is a rational number of milliseconds;
the memory bucket's map of buckets is part of the limiter object, the Redis
limiters keep everything in the shared `Store`.

`FixedWindow.allow` sends three commands. Here they run back to back; the
interleavings of several calls are the subject of `RateX.FixedWindowCalls`.
-/

namespace RateX

open Redis

structure Result where
  allowed : Bool
  remaining : Int
  retryAfter : Int
  limit : Int
  resetAfter : Int
deriving Repr, DecidableEq

/-- What `Allow` fails with; `panic` is a run-time panic, not an error value. -/
inductive AllowError where
  | redis (e : Redis.Error)
  | unexpectedResult
  | unexpectedType
  | scan
  | panic
deriving Repr, DecidableEq

abbrev Outcome := Except AllowError Result

/-- The protected request goes through: `Allow` returned, and allowed it. -/
def Outcome.admits : Outcome → Bool
  | .ok r => r.allowed
  | .error _ => false

/-! ## Reading a script's answer -/

/-- `fmt.Sscanf(text, "%d", &parsed)`: blanks, a sign, decimal digits, the
rest of the text is ignored; the number has to fit an `int`. -/
def scanInt (text : String) : Except AllowError Int :=
  let chars := text.toList.dropWhile fun c => c = ' ' || c = '\t'
  let (negative, chars) := match chars with
    | '-' :: rest => (true, rest)
    | '+' :: rest => (false, rest)
    | rest => (false, rest)
  let digits := chars.takeWhile Char.isDigit
  let magnitude : Int := digits.foldl (fun n c => 10 * n + (c.toNat - '0'.toNat : Nat)) 0
  let parsed := if negative then -magnitude else magnitude
  if digits.isEmpty then .error .scan
  else if -2 ^ 63 ≤ parsed ∧ parsed < 2 ^ 63 then .ok parsed
  else .error .scan

def toInt : Reply → Except AllowError Int
  | .integer n => .ok n
  | .bulk text => scanInt text
  | .nil => .error .unexpectedType

def parseScriptResult (values : List Reply) (resetAfter : Int) : Outcome :=
  match values with
  | allowed :: remaining :: retryAfter :: limit :: _ => do
      let allowed ← toInt allowed
      let remaining ← toInt remaining
      let retryAfter ← toInt retryAfter
      let limit ← toInt limit
      return { allowed := allowed = 1, remaining, retryAfter, limit, resetAfter }
  | _ => .error .unexpectedResult

/-- `Eval(…).Slice()` and the parse of what it returned. -/
def parseReply (reply : Except Redis.Error (List Reply)) (resetAfter : Int) : Outcome :=
  match reply with
  | .ok values => parseScriptResult values resetAfter
  | .error e => .error (.redis e)

@[simp] theorem parseScriptResult_integers (a b c d : Int) (resetAfter : Int) :
    parseScriptResult [.integer a, .integer b, .integer c, .integer d] resetAfter =
      .ok { allowed := a = 1, remaining := b, retryAfter := c, limit := d, resetAfter } := rfl

/-! ## Token bucket -/

structure TokenBucket where
  capacity : Int
  window : Duration
  keyPrefix : String := "rl:token"

def newTokenBucket (capacity : Int) (window : Duration) : TokenBucket := { capacity, window }

def TokenBucket.args (l : TokenBucket) (now : ℚ) : TokenArgs :=
  let windowSeconds := if l.window.seconds ≤ 0 then 60 else l.window.seconds
  { capacity := l.capacity
    refillRate := l.capacity / windowSeconds
    nowMs := now
    requested := 1
    ttlMs := (l.window.mul 2).milliseconds }

def TokenBucket.allow (l : TokenBucket) (store : Store) (now : ℚ) (key : String) :
    Outcome × Store :=
  if l.capacity ≤ 0 then
    (.ok { allowed := false, remaining := 0, retryAfter := 1, limit := l.capacity,
           resetAfter := 0 }, store)
  else
    let (reply, store) := store.run now (l.keyPrefix ++ ":" ++ key)
      (tokenBucketScript (l.args now) now)
    (parseReply reply (truncate l.window.seconds), store)

/-! ## Sliding window -/

structure SlidingWindow where
  limit : Int
  window : Duration
  keyPrefix : String := "rl:sliding"

def newSlidingWindow (limit : Int) (window : Duration) : SlidingWindow := { limit, window }

def SlidingWindow.args (l : SlidingWindow) (now : ℚ) (member : String) : SlidingArgs :=
  { limit := l.limit
    windowMs := l.window.milliseconds
    nowMs := now
    member
    ttlMs := (l.window.mul 2).milliseconds }

/-- `member` is the string `uuid.NewString` returned. -/
def SlidingWindow.allow (l : SlidingWindow) (store : Store) (now : ℚ) (member key : String) :
    Outcome × Store :=
  let (reply, store) := store.run now (l.keyPrefix ++ ":" ++ key)
    (slidingWindowScript (l.args now member) now)
  (parseReply reply (truncate l.window.seconds), store)

/-! ## Fixed window -/

structure FixedWindow where
  limit : Int
  window : Duration
  keyPrefix : String := "rl:fixed"

def newFixedWindow (limit : Int) (window : Duration) : FixedWindow := { limit, window }

namespace FixedWindow

/-- `now.Unix() / int64(l.window.Seconds())`; a zero divisor panics. -/
def windowID (l : FixedWindow) (now : ℚ) : Option Int :=
  let divisor := truncate l.window.seconds
  if divisor = 0 then none else some (⌊now / 1000⌋.tdiv divisor)

def redisKey (l : FixedWindow) (key : String) (windowID : Int) : String :=
  l.keyPrefix ++ ":" ++ key ++ ":" ++ toString windowID

/-- The seconds go-redis sends with `EXPIRE`: a positive part of a second is `1`. -/
def formatSec (d : Duration) : Int :=
  if 0 < d ∧ d < Duration.second then 1 else d.tdiv Duration.second

def expire (l : FixedWindow) (clock : ℚ) (key : Slot) : Except Error (Unit × Slot) :=
  .ok ((), pexpire clock (formatSec l.window * 1000) key)

/-- The duration go-redis makes of a `TTL` reply: `-1` and `-2` are kept as
nanoseconds. -/
def ttlDuration (reply : Int) : Duration :=
  if reply = -1 ∨ reply = -2 then reply else Duration.mul reply Duration.second

def result (l : FixedWindow) (count : Int) (ttl : Duration) : Result :=
  let resetAfter := truncate ttl.seconds
  let resetAfter := if resetAfter < 0 then truncate l.window.seconds else resetAfter
  let remaining := l.limit - count
  let remaining := if remaining < 0 then 0 else remaining
  { allowed := count ≤ l.limit, remaining, retryAfter := resetAfter, limit := l.limit, resetAfter }

def allow (l : FixedWindow) (store : Store) (now : ℚ) (key : String) : Outcome × Store :=
  match l.windowID now with
  | none => (.error .panic, store)
  | some windowID =>
      let redisKey := l.redisKey key windowID
      match store.run now redisKey incr with
      | (.error e, store) => (.error (.redis e), store)
      | (.ok count, store) =>
          let store := if count = 1 then (store.run now redisKey (l.expire now)).2 else store
          let ttl := ttlDuration (Redis.ttl now (live now (store redisKey)))
          (.ok (l.result count ttl), store)

end FixedWindow

/-! ## Memory token bucket -/

structure MemoryBucket where
  tokens : ℚ
  lastRefill : ℚ

structure MemoryTokenBucket where
  buckets : String → Option MemoryBucket
  capacity : Int
  window : Duration

def newMemoryTokenBucket (capacity : Int) (window : Duration) : MemoryTokenBucket :=
  { buckets := fun _ => none, capacity, window }

/-- The body of `Allow` under the mutex, at the clock reading `now`. A window of zero
makes the tokens of every key NaN, for good: no request is let through, and `remaining` is
what the conversion of a NaN gives on amd64. -/
def MemoryTokenBucket.allow (l : MemoryTokenBucket) (now : ℚ) (key : String) :
    Result × MemoryTokenBucket :=
  if l.window = 0 then
    ({ allowed := false, remaining := -2 ^ 63, retryAfter := 1, limit := l.capacity,
       resetAfter := 0 }, l)
  else
    let bucket := (l.buckets key).getD { tokens := l.capacity, lastRefill := now }
    let refillRate := l.capacity / l.window.seconds
    let elapsed := (now - bucket.lastRefill) / 1000
    let tokens := min (l.capacity : ℚ) (bucket.tokens + elapsed * refillRate)
    let allowed : Bool := 1 ≤ tokens
    let retryAfter := if allowed then 0 else max 1 (truncate ((1 - tokens) / refillRate))
    let tokens := if allowed then tokens - 1 else tokens
    ({ allowed
       remaining := truncate tokens
       retryAfter
       limit := l.capacity
       resetAfter := truncate l.window.seconds },
     { l with buckets := Function.update l.buckets key (some { tokens, lastRefill := now }) })

section MemoryTokenBucket

variable (l : MemoryTokenBucket) (now : ℚ) {key key' : String}

@[simp] theorem MemoryTokenBucket.allow_capacity : (l.allow now key).2.capacity = l.capacity := by
  unfold MemoryTokenBucket.allow
  split <;> rfl

@[simp] theorem MemoryTokenBucket.allow_window : (l.allow now key).2.window = l.window := by
  unfold MemoryTokenBucket.allow
  split <;> rfl

/-- A call leaves the buckets of the other keys alone. -/
theorem MemoryTokenBucket.allow_other (h : key' ≠ key) :
    (l.allow now key).2.buckets key' = l.buckets key' := by
  unfold MemoryTokenBucket.allow
  split
  · rfl
  · exact Function.update_of_ne h ..

end MemoryTokenBucket

/-! ## The interface -/

inductive RateLimiter where
  | token (l : TokenBucket)
  | sliding (l : SlidingWindow)
  | fixed (l : FixedWindow)
  | memory (l : MemoryTokenBucket)

/-- A call of `Allow`: the clock reading it takes, a Unix timestamp and so
never negative, and the member `uuid.NewString` gives it. -/
structure Arrival where
  now : ℚ
  nonneg : 0 ≤ now
  member : String

def Arrival.atEpoch (member : String) : Arrival := { now := 0, nonneg := le_rfl, member }

/-- `Allow` of a limiter object beside the shared Redis. -/
def RateLimiter.allow (key : String) :
    RateLimiter × Store → Arrival → Outcome × (RateLimiter × Store)
  | (.token l, store), a =>
      let (outcome, store) := l.allow store a.now key
      (outcome, (.token l, store))
  | (.sliding l, store), a =>
      let (outcome, store) := l.allow store a.now a.member key
      (outcome, (.sliding l, store))
  | (.fixed l, store), a =>
      let (outcome, store) := l.allow store a.now key
      (outcome, (.fixed l, store))
  | (.memory l, store), a =>
      let (result, l) := l.allow a.now key
      (.ok result, (.memory l, store))

end RateX
