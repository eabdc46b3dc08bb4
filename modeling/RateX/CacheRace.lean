import RateX.Admission
import RateX.Steps

/-!
# Concurrent requests on the memory backend

Requests of any number, each in three atomic sections: the locked lookup of
`FromPolicy`, its locked insert after a miss, and the locked body of
`MemoryTokenBucket.Allow` on the object the request got hold of. `FromPolicy`
gives the lock up between the miss and the insert; a second request of the
same cache key that misses meanwhile gets an object of its own, and with it a
second budget (`cacheRace_two_budgets`).

If no lookup of a cache key misses while another request of that key is
between its miss and its insert (`NoRace`), all requests of the key hold one
object, and its books bound what they are admitted (`cacheRace_budget`).
-/

namespace RateX

namespace CacheRace

open Steps Timeline LimiterFactory

inductive Phase where
  | missed
  | holding (lim : Ref)
  | done (r : Result)

structure Request where
  policy : Policy
  key : String
  phase : Phase

structure Grant where
  policy : Policy
  key : String
  time : ℚ

/-- `log` is a ghost: the requests admitted, in order. -/
structure Sys where
  now : ℚ
  factory : LimiterFactory
  heap : Heap
  requests : ℕ → Option Request
  log : List Grant

def Sys.init (redis : Bool) (cfg : Config) : Sys :=
  { now := 0, factory := LimiterFactory.new redis cfg, heap := [], requests := fun _ => none,
    log := [] }

inductive Action where
  | tick (now : ℚ)
  | lookup (id : ℕ) (policy : Policy) (key : String)
  | insert (id : ℕ)
  | allow (id : ℕ)

def Sys.put (s : Sys) (id : ℕ) (q : Request) : Sys :=
  { s with requests := Function.update s.requests id (some q) }

def step (s : Sys) : Action → Option Sys
  | .tick now => if s.now ≤ now then some { s with now } else none
  | .lookup id policy key =>
      match s.requests id with
      | some _ => none
      | none =>
          match s.factory.lookup policy with
          | some lim => some (s.put id ⟨policy, key, .holding lim⟩)
          | none => some (s.put id ⟨policy, key, .missed⟩)
  | .insert id =>
      match s.requests id with
      | some ⟨policy, key, .missed⟩ =>
          let lim := s.heap.length
          let s := { s with
            factory := s.factory.insert policy lim
            heap := s.heap ++ [s.factory.newLimiter policy] }
          some (s.put id ⟨policy, key, .holding lim⟩)
      | _ => none
  | .allow id =>
      match s.requests id with
      | some ⟨policy, key, .holding lim⟩ =>
          match s.heap[lim]? with
          | some (.memory l) =>
              let (result, l) := l.allow s.now key
              let s := { s with
                heap := s.heap.set lim (.memory l)
                log := s.log ++ if result.allowed then [Grant.mk policy key s.now] else [] }
              some (s.put id ⟨policy, key, .done result⟩)
          | _ => none
      | _ => none

/-- When requests under this cache key were admitted on `key`. -/
def Sys.admitted (s : Sys) (cfg : Config) (policy : Policy) (key : String) : List ℚ :=
  (s.log.filter fun g => cacheKey cfg g.policy = cacheKey cfg policy ∧ g.key = key).map Grant.time

/-- No lookup of the policy's cache key misses while another request of that
key is between its miss and its insert. -/
def NoRace (cfg : Config) (policy : Policy) (s : Sys) : Action → Prop
  | .lookup _ p _ => cacheKey cfg p = cacheKey cfg policy → s.factory.lookup p = none →
      ∀ id q, s.requests id = some q → q.phase = .missed →
        cacheKey cfg q.policy ≠ cacheKey cfg policy
  | _ => True

/-! ## The race -/

def once : Policy := ⟨"", "once", "token_bucket", 1, 60, 1⟩

def memoryConfig : Config := ⟨"token_bucket", 100, 60000000000, 100, "memory", "closed"⟩

def racing : List Action :=
  [.lookup 0 once "ip:x:/", .lookup 1 once "ip:x:/", .insert 0, .insert 1, .allow 0, .allow 1]

/-- Two requests at one instant, on one key, under a policy of one a minute:
both are admitted. -/
theorem cacheRace_two_budgets :
    ∃ s, Reach step Any (Sys.init false memoryConfig) s ∧
      ¬ (within (0 : ℚ) (0 + 0) (s.admitted memoryConfig once "ip:x:/") : ℚ) ≤
        capacity once + capacity once * 0 / once.windowSeconds := by
  have hrun : (exec step (Sys.init false memoryConfig) racing).map
      (fun s => within (0 : ℚ) (0 + 0) (s.admitted memoryConfig once "ip:x:/")) = some 2 := by
    decide +kernel
  obtain ⟨s, hs, htwo⟩ := Option.map_eq_some_iff.mp hrun
  refine ⟨s, reach_exec .init hs, ?_⟩
  rw [htwo]
  decide +kernel

/-! ## Without the race -/

/-- The books of the cached object of `policy`'s key: it is the memory limiter
the policy asks for, and each of its buckets accounts for what was admitted. -/
def Booked (cfg : Config) (policy : Policy) (s : Sys) (lim : Ref) : Prop :=
  ∃ buckets, s.heap[lim]? = some (.memory
      ⟨buckets, capacity policy, .ofSeconds policy.windowSeconds⟩) ∧
    ∀ key, ∃ b, buckets key = b.map memoryBucket ∧ (∀ l, b = some l → l.time ≤ s.now) ∧
      Bucket.Balanced (capacity policy : ℚ) (ratePerMs (capacity policy) policy.windowSeconds) b
        (s.admitted cfg policy key)

/-- Addresses in use are allocated; the policy's cached object belongs to its
cache key alone, and every request of the key holds it; at most one of them is
between miss and insert, and only before there is an object. -/
structure Inv (redis : Bool) (cfg : Config) (policy : Policy) (s : Sys) : Prop where
  wired : s.factory.cfg = cfg ∧ s.factory.redis = redis
  cached : ∀ ck lim, s.factory.limiter ck = some lim → lim < s.heap.length
  held : ∀ id q lim, s.requests id = some q → q.phase = .holding lim → lim < s.heap.length
  own : ∀ ck lim, s.factory.limiter ck = some lim →
    s.factory.limiter (cacheKey cfg policy) = some lim → ck = cacheKey cfg policy
  shared : ∀ id q lim, s.requests id = some q → q.phase = .holding lim →
    (cacheKey cfg q.policy = cacheKey cfg policy ↔
      s.factory.limiter (cacheKey cfg policy) = some lim)
  single : ∀ id id' q q', s.requests id = some q → s.requests id' = some q' →
    q.phase = .missed → q'.phase = .missed → cacheKey cfg q.policy = cacheKey cfg policy →
      cacheKey cfg q'.policy = cacheKey cfg policy → id = id'
  first : ∀ id q, s.requests id = some q → q.phase = .missed →
    cacheKey cfg q.policy = cacheKey cfg policy → s.factory.limiter (cacheKey cfg policy) = none
  booked : ∀ lim, s.factory.limiter (cacheKey cfg policy) = some lim → Booked cfg policy s lim
  unused : s.factory.limiter (cacheKey cfg policy) = none → ∀ key, s.admitted cfg policy key = []

theorem inv_init (redis : Bool) (cfg : Config) (policy : Policy) :
    Inv redis cfg policy (Sys.init redis cfg) where
  wired := ⟨rfl, rfl⟩
  cached := fun _ _ h => nomatch h
  held := fun _ _ _ h => nomatch h
  own := fun _ _ h => nomatch h
  shared := fun _ _ _ h => nomatch h
  single := fun _ _ _ _ h => nomatch h
  first := fun _ _ h => nomatch h
  booked := fun _ h => nomatch h
  unused := fun _ _ => rfl

section Inv

variable {redis : Bool} {cfg : Config} {policy : Policy} {s s' : Sys}

theorem requests_put {id id' : ℕ} {q q' : Request} (h : (s.put id q).requests id' = some q') :
    (id' = id ∧ q' = q) ∨ (id' ≠ id ∧ s.requests id' = some q') := by
  by_cases hid : id' = id
  · subst hid
    simp only [Sys.put, Function.update_self, Option.some.injEq] at h
    exact .inl ⟨rfl, h.symm⟩
  · simp only [Sys.put, Function.update_of_ne hid] at h
    exact .inr ⟨hid, h⟩

theorem Inv.single_put (h : Inv redis cfg policy s) {id : ℕ} {q : Request}
    (hq : q.phase ≠ .missed) {id₁ id₂ : ℕ} {q₁ q₂ : Request}
    (h₁ : (s.put id q).requests id₁ = some q₁) (h₂ : (s.put id q).requests id₂ = some q₂)
    (hm₁ : q₁.phase = .missed) (hm₂ : q₂.phase = .missed)
    (hck₁ : cacheKey cfg q₁.policy = cacheKey cfg policy)
    (hck₂ : cacheKey cfg q₂.policy = cacheKey cfg policy) : id₁ = id₂ := by
  rcases requests_put h₁ with ⟨-, rfl⟩ | ⟨-, old₁⟩
  · exact absurd hm₁ hq
  rcases requests_put h₂ with ⟨-, rfl⟩ | ⟨-, old₂⟩
  · exact absurd hm₂ hq
  exact h.single id₁ id₂ q₁ q₂ old₁ old₂ hm₁ hm₂ hck₁ hck₂

theorem Inv.tick (h : Inv redis cfg policy s) {now : ℚ} (hle : s.now ≤ now) :
    Inv redis cfg policy { s with now } where
  wired := h.wired
  cached := h.cached
  held := h.held
  own := h.own
  shared := h.shared
  single := h.single
  first := h.first
  booked := by
    intro lim hlim
    obtain ⟨buckets, hheap, hbooks⟩ := h.booked lim hlim
    refine ⟨buckets, hheap, fun key => ?_⟩
    obtain ⟨b, hb, htime, hbal⟩ := hbooks key
    exact ⟨b, hb, fun l hl => (htime l hl).trans hle, hbal⟩
  unused := h.unused

/-- A lookup that hits: the request holds the cached object of its key. -/
theorem Inv.hit (h : Inv redis cfg policy s) {id : ℕ} {p : Policy} {key : String} {lim : Ref}
    (hlim : s.factory.lookup p = some lim) :
    Inv redis cfg policy (s.put id ⟨p, key, .holding lim⟩) := by
  have hcfg := h.wired.1
  rw [lookup, hcfg] at hlim
  exact
    { wired := h.wired
      cached := h.cached
      held := by
        intro id' q lim' hq hphase
        rcases requests_put hq with ⟨-, rfl⟩ | ⟨-, hq⟩
        · obtain rfl := Phase.holding.inj hphase
          exact h.cached _ _ hlim
        · exact h.held id' q lim' hq hphase
      own := h.own
      shared := by
        intro id' q lim' hq hphase
        rcases requests_put hq with ⟨-, rfl⟩ | ⟨-, hq⟩
        · obtain rfl := Phase.holding.inj hphase
          exact ⟨fun hck => hck ▸ hlim, fun hck => h.own _ _ hlim hck⟩
        · exact h.shared id' q lim' hq hphase
      single := fun _ _ _ _ => h.single_put (by simp)
      first := by
        intro id' q hq hm
        rcases requests_put hq with ⟨-, rfl⟩ | ⟨-, hq⟩
        · cases hm
        · exact h.first id' q hq hm
      booked := h.booked
      unused := h.unused }

/-- A lookup that misses, and is the only one of its key to have missed. -/
theorem Inv.miss (h : Inv redis cfg policy s) {id : ℕ} {p : Policy} {key : String}
    (hnone : s.factory.lookup p = none) (hrace : NoRace cfg policy s (.lookup id p key)) :
    Inv redis cfg policy (s.put id ⟨p, key, .missed⟩) := by
  have hcfg := h.wired.1
  exact
    { wired := h.wired
      cached := h.cached
      held := by
        intro id' q lim hq hphase
        rcases requests_put hq with ⟨-, rfl⟩ | ⟨-, hq⟩
        · cases hphase
        · exact h.held id' q lim hq hphase
      own := h.own
      shared := by
        intro id' q lim hq hphase
        rcases requests_put hq with ⟨-, rfl⟩ | ⟨-, hq⟩
        · cases hphase
        · exact h.shared id' q lim hq hphase
      single := by
        intro id₁ id₂ q₁ q₂ h₁ h₂ hm₁ hm₂ hck₁ hck₂
        rcases requests_put h₁ with ⟨hid₁, rfl⟩ | ⟨-, old₁⟩
        · rcases requests_put h₂ with ⟨hid₂, rfl⟩ | ⟨-, old₂⟩
          · exact hid₁.trans hid₂.symm
          · exact absurd hck₂ (hrace hck₁ hnone id₂ q₂ old₂ hm₂)
        · rcases requests_put h₂ with ⟨hid₂, rfl⟩ | ⟨-, old₂⟩
          · exact absurd hck₁ (hrace hck₂ hnone id₁ q₁ old₁ hm₁)
          · exact h.single id₁ id₂ q₁ q₂ old₁ old₂ hm₁ hm₂ hck₁ hck₂
      first := by
        intro id' q hq hm hck
        rcases requests_put hq with ⟨-, rfl⟩ | ⟨-, hq⟩
        · rw [lookup, hcfg] at hnone
          exact hck ▸ hnone
        · exact h.first id' q hq hm hck
      booked := h.booked
      unused := h.unused }

theorem newLimiter_memory (hwired : s.factory.cfg = cfg ∧ s.factory.redis = redis)
    (hmem : cfg.rateLimitBackend = "memory" ∨ redis = false) (p : Policy) :
    s.factory.newLimiter p =
      .memory ⟨fun _ => none, capacity p, .ofSeconds p.windowSeconds⟩ := by
  obtain ⟨rfl, rfl⟩ := hwired
  exact if_pos hmem

theorem capacity_of_cacheKey {p : Policy} (h : cacheKey cfg p = cacheKey cfg policy) :
    capacity p = capacity policy ∧ p.windowSeconds = policy.windowSeconds := by
  obtain ⟨-, hlimit, hwindow, hburst⟩ := cacheKey_inj h
  unfold capacity
  rw [hlimit, hburst]
  exact ⟨rfl, hwindow⟩

def inserted (s : Sys) (id : ℕ) (p : Policy) (key : String) : Sys :=
  { s with
    factory := s.factory.insert p s.heap.length
    heap := s.heap ++ [s.factory.newLimiter p] }.put id ⟨p, key, .holding s.heap.length⟩

theorem limiter_inserted (hcfg : s.factory.cfg = cfg) (id : ℕ) (p : Policy) (key ck : String) :
    (inserted s id p key).factory.limiter ck =
      if ck = cacheKey cfg p then some s.heap.length else s.factory.limiter ck :=
  hcfg ▸ s.factory.limiter_insert p s.heap.length ck

theorem requests_inserted {id id' : ℕ} {p : Policy} {key : String} {q : Request}
    (h : (inserted s id p key).requests id' = some q) :
    (id' = id ∧ q = ⟨p, key, .holding s.heap.length⟩) ∨ (id' ≠ id ∧ s.requests id' = some q) :=
  requests_put h

theorem Inv.inserted_allocated (h : Inv redis cfg policy s) (id : ℕ) (p : Policy) (key : String) :
    (∀ ck lim, (inserted s id p key).factory.limiter ck = some lim →
      lim < (inserted s id p key).heap.length) ∧
    ∀ id' q lim, (inserted s id p key).requests id' = some q → q.phase = .holding lim →
      lim < (inserted s id p key).heap.length := by
  have hlen : (inserted s id p key).heap.length = s.heap.length + 1 := by simp [inserted, Sys.put]
  rw [hlen]
  constructor
  · intro ck lim hl
    rw [limiter_inserted h.wired.1] at hl
    split at hl
    · obtain rfl := Option.some.inj hl
      exact Nat.lt_succ_self _
    · exact (h.cached ck lim hl).trans (Nat.lt_succ_self _)
  · intro id' q lim hq hphase
    rcases requests_inserted hq with ⟨-, rfl⟩ | ⟨-, hq⟩
    · obtain rfl := Phase.holding.inj hphase
      exact Nat.lt_succ_self _
    · exact (h.held id' q lim hq hphase).trans (Nat.lt_succ_self _)

/-- The insert of the policy's own key: it is the first, so the log is empty,
and no request holds an object of the key yet but the inserting one. -/
theorem Inv.insert_own (hmem : cfg.rateLimitBackend = "memory" ∨ redis = false)
    (h : Inv redis cfg policy s) {id : ℕ} {p : Policy} {key : String}
    (hreq : s.requests id = some ⟨p, key, .missed⟩)
    (hck : cacheKey cfg p = cacheKey cfg policy) : Inv redis cfg policy (inserted s id p key) := by
  have hnone := h.first id _ hreq rfl hck
  have hlim := limiter_inserted h.wired.1 id p key
  have hown : (inserted s id p key).factory.limiter (cacheKey cfg policy) = some s.heap.length := by
    rw [hlim, if_pos hck.symm]
  exact
    { wired := h.wired
      cached := (h.inserted_allocated id p key).1
      held := (h.inserted_allocated id p key).2
      own := by
        intro ck lim hl hp
        by_contra hne
        rw [hown] at hp
        rw [hlim, hck, if_neg hne] at hl
        have := h.cached ck lim hl
        obtain rfl := Option.some.inj hp
        exact lt_irrefl _ this
      shared := by
        intro id' q lim hq hphase
        rw [hown]
        rcases requests_inserted hq with ⟨-, rfl⟩ | ⟨-, hq⟩
        · obtain rfl := Phase.holding.inj hphase
          exact iff_of_true hck rfl
        · have hlt := h.held id' q lim hq hphase
          rw [h.shared id' q lim hq hphase, hnone]
          exact iff_of_false (by simp) fun heq => hlt.ne (Option.some.inj heq).symm
      single := fun _ _ _ _ => h.single_put (by simp)
      first := by
        intro id' q hq hm hckq
        rcases requests_inserted hq with ⟨-, rfl⟩ | ⟨hne, hq⟩
        · cases hm
        · exact absurd (h.single id' id q _ hq hreq hm rfl hckq hck) hne
      booked := by
        intro lim hl
        rw [hown] at hl
        obtain rfl := Option.some.inj hl
        obtain ⟨hcap, hwin⟩ := capacity_of_cacheKey hck
        refine ⟨fun _ => none, ?_, fun k => ⟨none, rfl, fun _ h => (nomatch h), h.unused hnone k⟩⟩
        simp [inserted, Sys.put, newLimiter_memory h.wired hmem, hcap, hwin]
      unused := by
        intro hl
        rw [hown] at hl
        cases hl }

theorem Inv.insert_other (h : Inv redis cfg policy s) {id : ℕ} {p : Policy} {key : String}
    (hck : cacheKey cfg p ≠ cacheKey cfg policy) : Inv redis cfg policy (inserted s id p key) := by
  have hlim := limiter_inserted h.wired.1 id p key
  have hown : (inserted s id p key).factory.limiter (cacheKey cfg policy) =
      s.factory.limiter (cacheKey cfg policy) := by
    rw [hlim, if_neg hck.symm]
  exact
    { wired := h.wired
      cached := (h.inserted_allocated id p key).1
      held := (h.inserted_allocated id p key).2
      own := by
        intro ck lim hl hp
        rw [hown] at hp
        rw [hlim] at hl
        split at hl
        · obtain rfl := Option.some.inj hl
          exact absurd (h.cached _ _ hp) (lt_irrefl _)
        · exact h.own ck lim hl hp
      shared := by
        intro id' q lim hq hphase
        rw [hown]
        rcases requests_inserted hq with ⟨-, rfl⟩ | ⟨-, hq⟩
        · obtain rfl := Phase.holding.inj hphase
          exact iff_of_false hck fun hl => lt_irrefl _ (h.cached _ _ hl)
        · exact h.shared id' q lim hq hphase
      single := fun _ _ _ _ => h.single_put (by simp)
      first := by
        intro id' q hq hm hckq
        rw [hown]
        rcases requests_inserted hq with ⟨-, rfl⟩ | ⟨-, hq⟩
        · cases hm
        · exact h.first id' q hq hm hckq
      booked := by
        intro lim hl
        rw [hown] at hl
        obtain ⟨buckets, hheap, hbooks⟩ := h.booked lim hl
        refine ⟨buckets, ?_, hbooks⟩
        simp only [inserted, Sys.put]
        rw [List.getElem?_append_left (h.cached _ _ hl)]
        exact hheap
      unused := by
        intro hl
        rw [hown] at hl
        exact h.unused hl }

def allowed (s : Sys) (id : ℕ) (p : Policy) (key : String) (lim : Ref) (l : MemoryTokenBucket) :
    Sys :=
  { s with
    heap := s.heap.set lim (.memory (l.allow s.now key).2)
    log := s.log ++ if (l.allow s.now key).1.allowed then [Grant.mk p key s.now] else []
    }.put id ⟨p, key, .done (l.allow s.now key).1⟩

theorem admitted_allowed (id : ℕ) (p : Policy) (key : String) (lim : Ref) (l : MemoryTokenBucket)
    (k : String) : (allowed s id p key lim l).admitted cfg policy k = s.admitted cfg policy k ++
      if (l.allow s.now key).1.allowed ∧ cacheKey cfg p = cacheKey cfg policy ∧ key = k
        then [s.now] else [] := by
  simp only [allowed, Sys.put, Sys.admitted, List.filter_append, List.map_append]
  congr 1
  by_cases ha : (l.allow s.now key).1.allowed = true
  · by_cases hk : cacheKey cfg p = cacheKey cfg policy ∧ key = k
    · obtain ⟨hck, rfl⟩ := hk
      simp [ha, hck]
    · simp [ha, hk]
  · simp [ha]

theorem Booked.allow_own (hfit : Duration.Fits policy.windowSeconds) (hC : 1 ≤ capacity policy)
    (hW : 1 ≤ policy.windowSeconds) {id : ℕ} {p : Policy} {key : String} {lim : Ref}
    {l : MemoryTokenBucket} (h : Booked cfg policy s lim) (hl : s.heap[lim]? = some (.memory l))
    (hck : cacheKey cfg p = cacheKey cfg policy) :
    Booked cfg policy (allowed s id p key lim l) lim := by
  obtain ⟨buckets, hheap, hbooks⟩ := h
  obtain rfl : l = ⟨buckets, capacity policy, .ofSeconds policy.windowSeconds⟩ := by
    simpa using hl.symm.trans hheap
  obtain ⟨b, hb, htime, hbal⟩ := hbooks key
  obtain ⟨hout, hnext⟩ := memory_allow (C := capacity policy) hW hfit hb s.now htime
  refine ⟨Function.update buckets key ((taken (capacity policy) policy.windowSeconds b
    s.now).2.map memoryBucket), ?_, fun k => ?_⟩
  · simp only [allowed, Sys.put]
    rw [List.getElem?_set_self (List.getElem?_eq_some_iff.mp hl).1, hnext]
  · rw [admitted_allowed]
    by_cases hk : key = k
    · subst hk
      refine ⟨_, Function.update_self .., ?_, ?_⟩
      · intro lvl hlvl
        rw [taken_snd] at hlvl
        obtain rfl := Option.some.inj hlvl
        exact le_rfl
      · have hC0 : (0 : ℚ) ≤ capacity policy := by
          exact_mod_cast (by omega : (0 : ℤ) ≤ capacity policy)
        have hstep := Bucket.balanced_take hC0 (ratePerMs_nonneg hC hW) hbal htime
        simpa only [hout, hck, and_true] using hstep
    · obtain ⟨b', hb', htime', hbal'⟩ := hbooks k
      refine ⟨b', ?_, htime', ?_⟩
      · rw [Function.update_of_ne (Ne.symm hk)]
        exact hb'
      · simpa only [hk, and_false, if_false, List.append_nil] using hbal'

theorem Booked.allow_other {id : ℕ} {p : Policy} {key : String} {lim own : Ref}
    {l : MemoryTokenBucket} (h : Booked cfg policy s own)
    (hck : cacheKey cfg p ≠ cacheKey cfg policy) (hne : lim ≠ own) :
    Booked cfg policy (allowed s id p key lim l) own := by
  obtain ⟨buckets, hheap, hbooks⟩ := h
  refine ⟨buckets, ?_, fun k => ?_⟩
  · simp only [allowed, Sys.put]
    rw [List.getElem?_set_ne hne]
    exact hheap
  · rw [admitted_allowed]
    simp only [hck, false_and, and_false, if_false, List.append_nil]
    exact hbooks k

theorem Inv.allow (hfit : Duration.Fits policy.windowSeconds) (hC : 1 ≤ capacity policy)
    (hW : 1 ≤ policy.windowSeconds) (h : Inv redis cfg policy s) {id : ℕ} {p : Policy}
    {key : String} {lim : Ref} {l : MemoryTokenBucket}
    (hreq : s.requests id = some ⟨p, key, .holding lim⟩) (hl : s.heap[lim]? = some (.memory l)) :
    Inv redis cfg policy (allowed s id p key lim l) := by
  have hshared := h.shared id _ lim hreq rfl
  have hlen : (allowed s id p key lim l).heap.length = s.heap.length := by simp [allowed, Sys.put]
  exact
    { wired := h.wired
      cached := by
        intro ck lim' hlim
        rw [hlen]
        exact h.cached ck lim' hlim
      held := by
        intro id' q lim' hq hphase
        rw [hlen]
        rcases requests_put hq with ⟨-, rfl⟩ | ⟨-, hq⟩
        · cases hphase
        · exact h.held id' q lim' hq hphase
      own := h.own
      shared := by
        intro id' q lim' hq hphase
        rcases requests_put hq with ⟨-, rfl⟩ | ⟨-, hq⟩
        · cases hphase
        · exact h.shared id' q lim' hq hphase
      single := fun _ _ _ _ => h.single_put (by simp)
      first := by
        intro id' q hq hm
        rcases requests_put hq with ⟨-, rfl⟩ | ⟨-, hq⟩
        · cases hm
        · exact h.first id' q hq hm
      booked := by
        intro own hown
        by_cases hck : cacheKey cfg p = cacheKey cfg policy
        · obtain rfl : lim = own := Option.some.inj ((hshared.mp hck).symm.trans hown)
          exact (h.booked lim hown).allow_own hfit hC hW hl hck
        · exact (h.booked own hown).allow_other hck fun heq => hck (hshared.mpr (heq ▸ hown))
      unused := by
        intro hnone k
        have hck : cacheKey cfg p ≠ cacheKey cfg policy := fun hck => by
          have := hshared.mp hck
          rw [show s.factory.limiter (cacheKey cfg policy) = none from hnone] at this
          cases this
        rw [admitted_allowed]
        simpa only [hck, false_and, and_false, if_false, List.append_nil] using h.unused hnone k }

theorem inv_step (hmem : cfg.rateLimitBackend = "memory" ∨ redis = false)
    (hfit : Duration.Fits policy.windowSeconds) (hC : 1 ≤ capacity policy)
    (hW : 1 ≤ policy.windowSeconds) (h : Inv redis cfg policy s) {a : Action}
    (hrace : NoRace cfg policy s a) (hs : step s a = some s') : Inv redis cfg policy s' := by
  cases a with
  | tick now =>
      simp only [step] at hs
      split at hs
      · rename_i hle
        exact Option.some.inj hs ▸ h.tick hle
      · cases hs
  | lookup id p key =>
      simp only [step] at hs
      split at hs
      · cases hs
      · split at hs
        · rename_i lim hlim
          exact Option.some.inj hs ▸ h.hit hlim
        · rename_i hnone
          exact Option.some.inj hs ▸ h.miss hnone hrace
  | insert id =>
      simp only [step] at hs
      split at hs
      · rename_i p key hreq
        rw [← Option.some.inj hs]
        by_cases hck : cacheKey cfg p = cacheKey cfg policy
        · exact h.insert_own hmem hreq hck
        · exact h.insert_other hck
      · cases hs
  | allow id =>
      simp only [step] at hs
      split at hs
      · rename_i p key lim hreq
        split at hs
        · rename_i l hl
          exact Option.some.inj hs ▸ h.allow hfit hC hW hreq hl
        · cases hs
      · cases hs

end Inv

/-- **One budget.** On the memory backend, in every run none of whose lookups
of the policy's cache key races an insert of it, any interval of `T` seconds
admits on one key at most the capacity and what the interval earns. -/
theorem cacheRace_budget {redis : Bool} {cfg : Config}
    (hmem : cfg.rateLimitBackend = "memory" ∨ redis = false) {policy : Policy}
    (hC : 1 ≤ capacity policy) (hW : 1 ≤ policy.windowSeconds)
    (hcolumn : policy.windowSeconds < 2 ^ 31) {s : Sys}
    (hs : Reach step (NoRace cfg policy) (Sys.init redis cfg) s) (key : String) (a : ℚ) {T : ℚ}
    (hT : 0 ≤ T) : (within a (a + T * 1000) (s.admitted cfg policy key) : ℚ) ≤
      capacity policy + capacity policy * T / policy.windowSeconds := by
  have hfit : Duration.Fits policy.windowSeconds := ⟨by omega, by omega⟩
  have h : Inv redis cfg policy s := hs.invariant (inv_init redis cfg policy)
    fun _ _ _ h hG hstep => inv_step hmem hfit hC hW h hG hstep
  have hC0 : (0 : ℚ) ≤ capacity policy := (cast_pos hC).le
  have hrate := ratePerMs_nonneg hC hW
  have hline : (capacity policy : ℚ) +
      ratePerMs (capacity policy) policy.windowSeconds * (a + T * 1000 - a) =
        capacity policy + capacity policy * T / policy.windowSeconds := by
    rw [ratePerMs]
    ring
  rw [← hline]
  cases hlim : s.factory.limiter (cacheKey cfg policy) with
  | none =>
      rw [h.unused hlim key]
      have : 0 ≤ ratePerMs (capacity policy) policy.windowSeconds * (a + T * 1000 - a) :=
        mul_nonneg hrate (by linarith)
      simp only [within_nil, Nat.cast_zero]
      linarith
  | some lim =>
      obtain ⟨_, _, hbooks⟩ := h.booked lim hlim
      obtain ⟨b, -, -, hbal⟩ := hbooks key
      exact hbal.interval hC0 hrate (by linarith)

/-- The same two requests, the second's lookup after the first's insert. -/
def queued : List Action := [.lookup 1 once "ip:x:/", .allow 0, .allow 1]

theorem cacheRace_budget_queued :
    ∃ s, exec step (Sys.init false memoryConfig) ([.lookup 0 once "ip:x:/", .insert 0] ++ queued) =
        some s ∧
      (within (0 : ℚ) (0 + 0 * 1000) (s.admitted memoryConfig once "ip:x:/") : ℚ) ≤
        capacity once + capacity once * 0 / once.windowSeconds := by
  have hhit : (exec step (Sys.init false memoryConfig) [.lookup 0 once "ip:x:/", .insert 0]).map
      (fun s => s.factory.lookup once) = some (some 0) := by decide +kernel
  have hall : (exec step (Sys.init false memoryConfig)
      ([.lookup 0 once "ip:x:/", .insert 0] ++ queued)).isSome = true := by decide +kernel
  obtain ⟨s₂, h₂, hlim⟩ := Option.map_eq_some_iff.mp hhit
  obtain ⟨s, hs⟩ := Option.isSome_iff_exists.mp hall
  have hrest := hs
  rw [exec_append, h₂, Option.bind_some] at hrest
  obtain ⟨s₁, hs₁, h₁⟩ := Option.bind_eq_some_iff.mp h₂
  obtain ⟨t₂, hs₂, heq⟩ := Option.bind_eq_some_iff.mp h₁
  obtain rfl := Option.some.inj heq
  obtain ⟨s₃, hs₃, h₃⟩ := Option.bind_eq_some_iff.mp hrest
  obtain ⟨s₄, hs₄, h₄⟩ := Option.bind_eq_some_iff.mp h₃
  obtain ⟨s₅, hs₅, heq⟩ := Option.bind_eq_some_iff.mp h₄
  obtain rfl := Option.some.inj heq
  have hmiss : NoRace memoryConfig once (Sys.init false memoryConfig) (.lookup 0 once "ip:x:/") :=
    fun _ _ _ _ h => nomatch h
  have hfound : NoRace memoryConfig once t₂ (.lookup 1 once "ip:x:/") :=
    fun _ hnone => nomatch hlim.symm.trans hnone
  have hinsert : NoRace memoryConfig once s₁ (.insert 0) := trivial
  have hallow : ∀ t id, NoRace memoryConfig once t (.allow id) := fun _ _ => trivial
  have hreach := ((((Reach.init.next hmiss hs₁).next hinsert hs₂).next hfound hs₃).next
    (hallow _ 0) hs₄).next (hallow _ 1) hs₅
  exact ⟨_, hs, cacheRace_budget (.inl rfl) (by decide) (by decide) (by decide) hreach _ _ le_rfl⟩

end CacheRace

end RateX
