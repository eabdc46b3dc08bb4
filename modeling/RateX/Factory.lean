import RateX.Delimited
import RateX.Limiter
import RateX.Policy

/-!
# The limiter factory

`FromPolicy` keeps one limiter object per cache key. Objects live on a heap
and are known by their address (`Ref`), so that two requests may hold the same
one. The two sections under the mutex are `lookup` and `insert`, and between
them, unlocked, `newLimiter` builds what a missed lookup inserts;
`fromPolicy` runs the three in a row.
-/

namespace RateX

/-- What the middleware and the factory read of the configuration. -/
structure Config where
  defaultAlgorithm : String
  defaultLimit : Int
  defaultWindow : Duration
  defaultBurstCapacity : Int
  rateLimitBackend : String
  rateLimitFailureMode : String

abbrev Ref := ℕ

abbrev Heap := List RateLimiter

structure LimiterFactory where
  redis : Bool
  cfg : Config
  limiter : String → Option Ref

namespace LimiterFactory

def new (redis : Bool) (cfg : Config) : LimiterFactory := { redis, cfg, limiter := fun _ => none }

def cacheKey (cfg : Config) (policy : Policy) : String :=
  policy.algorithm ++ ":" ++ toString policy.requestLimit ++ ":" ++
    toString policy.windowSeconds ++ ":" ++ toString policy.burstCapacity ++ ":" ++
    cfg.rateLimitBackend

def capacity (policy : Policy) : Int :=
  if policy.burstCapacity ≤ 0 then policy.requestLimit else policy.burstCapacity

def newLimiter (f : LimiterFactory) (policy : Policy) : RateLimiter :=
  let window := Duration.ofSeconds policy.windowSeconds
  if f.cfg.rateLimitBackend = "memory" ∨ f.redis = false then
    .memory (newMemoryTokenBucket (capacity policy) window)
  else if policy.algorithm = algorithmFixedWindow then
    .fixed (newFixedWindow policy.requestLimit window)
  else if policy.algorithm = algorithmSlidingWindow then
    .sliding (newSlidingWindow policy.requestLimit window)
  else
    .token (newTokenBucket (capacity policy) window)

def lookup (f : LimiterFactory) (policy : Policy) : Option Ref := f.limiter (cacheKey f.cfg policy)

theorem lookup_congr {f : LimiterFactory} {p q : Policy}
    (h : cacheKey f.cfg p = cacheKey f.cfg q) : f.lookup p = f.lookup q :=
  congrArg f.limiter h

def insert (f : LimiterFactory) (policy : Policy) (lim : Ref) : LimiterFactory :=
  { f with limiter := Function.update f.limiter (cacheKey f.cfg policy) (some lim) }

def fromPolicy (f : LimiterFactory) (heap : Heap) (policy : Policy) :
    Ref × LimiterFactory × Heap :=
  match f.lookup policy with
  | some lim => (lim, f, heap)
  | none => (heap.length, f.insert policy heap.length, heap ++ [f.newLimiter policy])

def defaultPolicy (cfg : Config) : Policy :=
  { id := "", name := "", algorithm := cfg.defaultAlgorithm, requestLimit := cfg.defaultLimit,
    windowSeconds := truncate cfg.defaultWindow.seconds,
    burstCapacity := cfg.defaultBurstCapacity }

def default (f : LimiterFactory) (heap : Heap) : Ref × LimiterFactory × Heap :=
  f.fromPolicy heap (defaultPolicy f.cfg)

/-- The algorithm may hold colons; the three numbers after it cannot. -/
theorem cacheKey_inj {cfg : Config} {p q : Policy} (h : cacheKey cfg p = cacheKey cfg q) :
    p.algorithm = q.algorithm ∧ p.requestLimit = q.requestLimit ∧
      p.windowSeconds = q.windowSeconds ∧ p.burstCapacity = q.burstCapacity := by
  have hsplit : ∀ p : Policy, (cacheKey cfg p).toList =
      (((p.algorithm.toList ++ ':' :: (toString p.requestLimit).toList) ++
        ':' :: (toString p.windowSeconds).toList) ++ ':' :: (toString p.burstCapacity).toList) ++
        ':' :: cfg.rateLimitBackend.toList := by
    intro p
    simp [cacheKey]
  have hcut : ∀ {m n : Int} {head head' : List Char},
      head ++ ':' :: (toString m).toList = head' ++ ':' :: (toString n).toList →
        head = head' ∧ m = n := by
    intro m n head head' heq
    obtain ⟨hhead, htail⟩ := Delimited.last_inj (Delimited.colon_notMem_toString m)
      (Delimited.colon_notMem_toString n) heq
    exact ⟨hhead, Delimited.toString_int_inj (String.toList_inj.mp htail)⟩
  have hlist := congrArg String.toList h
  rw [hsplit, hsplit] at hlist
  obtain ⟨h1, hburst⟩ := hcut (List.append_cancel_right hlist)
  obtain ⟨h2, hwindow⟩ := hcut h1
  obtain ⟨h3, hlimit⟩ := hcut h2
  exact ⟨String.toList_inj.mp h3, hlimit, hwindow, hburst⟩

theorem newLimiter_congr {f : LimiterFactory} {p q : Policy}
    (h : cacheKey f.cfg p = cacheKey f.cfg q) : f.newLimiter p = f.newLimiter q := by
  obtain ⟨halg, hlimit, hwindow, hburst⟩ := cacheKey_inj h
  simp only [newLimiter, capacity, halg, hlimit, hwindow, hburst]

/-! ## The cache -/

theorem limiter_insert (f : LimiterFactory) (policy : Policy) (lim : Ref) (ck : String) :
    (f.insert policy lim).limiter ck =
      if ck = cacheKey f.cfg policy then some lim else f.limiter ck := by
  simp only [insert, Function.update_apply]

theorem lookup_insert (f : LimiterFactory) (policy q : Policy) (lim : Ref) :
    (f.insert policy lim).lookup q =
      if cacheKey f.cfg q = cacheKey f.cfg policy then some lim else f.lookup q :=
  f.limiter_insert policy lim _

/-- Every cached object is what the factory builds for the policies of its key. -/
def Sound (f : LimiterFactory) (heap : Heap) : Prop :=
  ∀ policy lim, f.lookup policy = some lim → heap[lim]? = some (f.newLimiter policy)

theorem sound_new (redis : Bool) (cfg : Config) : Sound (new redis cfg) [] := nofun

/-- A new object for a policy, cached under its key. -/
theorem Sound.insert {f : LimiterFactory} {heap : Heap} (h : Sound f heap) (policy : Policy) :
    Sound (f.insert policy heap.length) (heap ++ [f.newLimiter policy]) := by
  intro p lim hp
  rw [lookup_insert] at hp
  change (heap ++ [f.newLimiter policy])[lim]? = some (f.newLimiter p)
  split at hp
  · rename_i hkey
    obtain rfl := Option.some.inj hp
    rw [List.getElem?_concat_length, newLimiter_congr hkey]
  · have hget := h p lim hp
    rwa [List.getElem?_append_left (List.getElem?_eq_some_iff.mp hget).1]

/-- The cached objects are on the heap, each under one key. -/
structure Owned (f : LimiterFactory) (heap : Heap) : Prop where
  allocated : ∀ ck lim, f.limiter ck = some lim → lim < heap.length
  single : ∀ ck ck' lim, f.limiter ck = some lim → f.limiter ck' = some lim → ck = ck'

theorem owned_new (redis : Bool) (cfg : Config) : Owned (new redis cfg) [] := ⟨nofun, nofun⟩

theorem Owned.insert {f : LimiterFactory} {heap : Heap} (h : Owned f heap) (policy : Policy)
    (l : RateLimiter) : Owned (f.insert policy heap.length) (heap ++ [l]) where
  allocated := by
    intro ck lim hck
    rw [List.length_append, List.length_singleton]
    rw [limiter_insert] at hck
    split at hck
    · exact Option.some.inj hck ▸ Nat.lt_succ_self _
    · exact (h.allocated ck lim hck).trans (Nat.lt_succ_self _)
  single := by
    intro ck ck' lim hck hck'
    -- the new object is cached nowhere else, it was just allocated
    have hnew : ∀ ck, f.limiter ck ≠ some heap.length := fun ck hck => (h.allocated ck _ hck).false
    rw [limiter_insert] at hck hck'
    split at hck <;> split at hck'
    · rename_i heq heq'
      exact heq.trans heq'.symm
    · exact absurd (hck'.trans hck.symm) (hnew ck')
    · exact absurd (hck.trans hck'.symm) (hnew ck)
    · exact h.single ck ck' lim hck hck'

/-- `FromPolicy` returns the object that is cached for the policy from then on, and leaves what
was cached. -/
theorem Owned.fromPolicy {f : LimiterFactory} {heap : Heap} (h : Owned f heap) (policy : Policy) :
    let out := f.fromPolicy heap policy
    Owned out.2.1 out.2.2 ∧ out.2.1.lookup policy = some out.1 ∧
      ∀ q lim, f.lookup q = some lim → out.2.1.lookup q = some lim := by
  unfold LimiterFactory.fromPolicy
  cases hlook : f.lookup policy with
  | some lim => exact ⟨h, hlook, fun _ _ hq => hq⟩
  | none =>
      refine ⟨h.insert policy _, by rw [lookup_insert, if_pos rfl], fun q lim hq => ?_⟩
      rw [lookup_insert, if_neg, hq]
      intro hkey
      rw [lookup, hkey, ← lookup, hlook] at hq
      cases hq

/-- `FromPolicy` keeps the cache sound and what was on the heap, and returns an
object built for the policy. -/
theorem fromPolicy_spec {f : LimiterFactory} {heap : Heap} (h : Sound f heap) (policy : Policy) :
    let out := f.fromPolicy heap policy
    out.2.2[out.1]? = some (f.newLimiter policy) ∧ Sound out.2.1 out.2.2 ∧ heap <+: out.2.2 ∧
      out.2.1.redis = f.redis ∧ out.2.1.cfg = f.cfg := by
  unfold fromPolicy
  cases hlook : f.lookup policy with
  | some lim => exact ⟨h policy lim hlook, h, List.prefix_rfl, rfl, rfl⟩
  | none =>
      exact ⟨List.getElem?_concat_length, h.insert policy, List.prefix_append .., rfl, rfl⟩

end LimiterFactory

end RateX
