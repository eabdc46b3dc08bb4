import RateX.Factory
import RateX.Transducer

/-!
# The limiter cache

One factory, its heap and Redis, through any calls of `FromPolicy` and
`Default`, and any calls of `Allow` on the objects in between. A memory bucket
changes with its calls; what it was built with, its `parameters`, does not.

The cache gives each cache key one object for ever, and each object to one
cache key (`Interned`). The key is the policy's algorithm and three numbers
joined by colons, and determines them, so two calls return one object iff their
policies agree on these four (`cache_transparent`).
-/

namespace RateX

open Redis Transducer

inductive LimiterKind where
  | token
  | sliding
  | fixed
  | memory
deriving DecidableEq

/-- What a limiter was built with: its limit, or capacity, and its window. -/
structure Parameters where
  kind : LimiterKind
  limit : Int
  window : Duration
deriving DecidableEq

def RateLimiter.parameters : RateLimiter → Parameters
  | .token l => ⟨.token, l.capacity, l.window⟩
  | .sliding l => ⟨.sliding, l.limit, l.window⟩
  | .fixed l => ⟨.fixed, l.limit, l.window⟩
  | .memory l => ⟨.memory, l.capacity, l.window⟩

/-- The fields of a policy that a limiter is built from. -/
structure Policy.Agree (p q : Policy) : Prop where
  algorithm : p.algorithm = q.algorithm
  requestLimit : p.requestLimit = q.requestLimit
  windowSeconds : p.windowSeconds = q.windowSeconds
  burstCapacity : p.burstCapacity = q.burstCapacity

namespace LimiterFactory

structure Objects where
  factory : LimiterFactory
  heap : Heap
  store : Store

inductive FactoryCall where
  | fromPolicy (policy : Policy)
  | default
  | allow (lim : Ref) (key : String) (a : Arrival)

/-- The policy that a call asks a limiter for. -/
def FactoryCall.policy (cfg : Config) : FactoryCall → Option Policy
  | .fromPolicy policy => some policy
  | .default => some (defaultPolicy cfg)
  | .allow .. => none

/-- One call, and the object it returns. -/
def serveCall (s : Objects) : FactoryCall → Option Ref × Objects
  | .fromPolicy policy =>
      let (lim, factory, heap) := s.factory.fromPolicy s.heap policy
      (some lim, { s with factory, heap })
  | .default =>
      let (lim, factory, heap) := s.factory.default s.heap
      (some lim, { s with factory, heap })
  | .allow lim key a =>
      match s.heap[lim]? with
      | some limiter =>
          let (_, limiter, store) := RateLimiter.allow key (limiter, s.store) a
          (none, { s with heap := s.heap.set lim limiter, store })
      | none => (none, s)

/-- The limiter that a factory with an empty cache builds. -/
def built (redis : Bool) (cfg : Config) (policy : Policy) : Option RateLimiter :=
  let (lim, _, heap) := (new redis cfg).fromPolicy [] policy
  heap[lim]?

/-! ## Objects and keys -/

theorem parameters_allow (key : String) (l : RateLimiter) (store : Store) (a : Arrival) :
    (RateLimiter.allow key (l, store) a).2.1.parameters = l.parameters := by
  cases l with
  | memory l => simp [RateLimiter.allow, RateLimiter.parameters]
  | _ => rfl

theorem cacheKey_eq_iff (cfg : Config) {p q : Policy} :
    cacheKey cfg p = cacheKey cfg q ↔ p.Agree q := by
  constructor
  · intro h
    obtain ⟨halg, hlimit, hwindow, hburst⟩ := cacheKey_inj h
    exact ⟨halg, hlimit, hwindow, hburst⟩
  · rintro ⟨halg, hlimit, hwindow, hburst⟩
    simp only [cacheKey, halg, hlimit, hwindow, hburst]

theorem built_eq (f : LimiterFactory) (policy : Policy) :
    built f.redis f.cfg policy = some (f.newLimiter policy) :=
  (fromPolicy_spec (sound_new f.redis f.cfg) policy).1

/-- The cache after the calls `past`. Every policy asked for is cached, under
the object that was returned for it; an object is cached under one key, and is
as it was built, but for the calls it has served. -/
structure Interned (redis : Bool) (cfg : Config) (past : List (FactoryCall × Option Ref))
    (s : Objects) : Prop where
  wired : s.factory.redis = redis ∧ s.factory.cfg = cfg
  returned : ∀ p ∈ past, ∀ policy, p.1.policy cfg = some policy →
    ∃ lim, p.2 = some lim ∧ s.factory.lookup policy = some lim
  object : ∀ policy lim, s.factory.lookup policy = some lim →
    s.heap[lim]?.map RateLimiter.parameters = some (s.factory.newLimiter policy).parameters
  owned : s.factory.Owned s.heap

section Interned

variable {redis : Bool} {cfg : Config} {past : List (FactoryCall × Option Ref)} {s : Objects}

theorem interned_new (redis : Bool) (cfg : Config) (store : Store) :
    Interned redis cfg [] ⟨new redis cfg, [], store⟩ where
  wired := ⟨rfl, rfl⟩
  returned _ h := nomatch h
  object _ _ h := nomatch h
  owned := owned_new redis cfg

/-- A call that returns the object of its policy from a cache that holds it. -/
theorem Interned.hit (h : Interned redis cfg past s) {c : FactoryCall} {policy : Policy}
    (hc : c.policy cfg = some policy) {lim : Ref} (hlim : s.factory.lookup policy = some lim) :
    Interned redis cfg (past ++ [(c, some lim)]) s where
  wired := h.wired
  returned := by
    intro p hp q hq
    rcases List.mem_append.mp hp with hp | hp
    · exact h.returned p hp q hq
    · obtain rfl := List.mem_singleton.mp hp
      obtain rfl := Option.some.inj (hc.symm.trans hq)
      exact ⟨lim, rfl, hlim⟩
  object := h.object
  owned := h.owned

/-- A miss puts a new object behind a key that had none. -/
theorem Interned.miss (h : Interned redis cfg past s) {policy : Policy}
    (hnone : s.factory.lookup policy = none) :
    Interned redis cfg past { s with
      factory := s.factory.insert policy s.heap.length
      heap := s.heap ++ [s.factory.newLimiter policy] } where
  wired := h.wired
  returned := by
    intro p hp q hq
    obtain ⟨lim, hlim, hlookup⟩ := h.returned p hp q hq
    refine ⟨lim, hlim, ?_⟩
    rw [lookup_insert, if_neg, hlookup]
    intro hck
    rw [lookup, hck, ← lookup, hnone] at hlookup
    cases hlookup
  object := by
    intro q lim hq
    rw [lookup_insert] at hq
    change Option.map _ (s.heap ++ [s.factory.newLimiter policy])[lim]? =
      some (s.factory.newLimiter q).parameters
    split at hq
    · rename_i hck
      obtain rfl := Option.some.inj hq
      rw [List.getElem?_concat_length, newLimiter_congr hck, Option.map_some]
    · rw [List.getElem?_append_left (h.owned.allocated _ lim hq)]
      exact h.object q lim hq
  owned := h.owned.insert policy _

/-- `FromPolicy`, whichever call makes it. -/
theorem Interned.fromPolicy (h : Interned redis cfg past s) {c : FactoryCall} {policy : Policy}
    (hc : c.policy cfg = some policy) :
    let out := s.factory.fromPolicy s.heap policy
    Interned redis cfg (past ++ [(c, some out.1)])
      { s with factory := out.2.1, heap := out.2.2 } := by
  unfold LimiterFactory.fromPolicy
  cases hlook : s.factory.lookup policy with
  | some lim => exact h.hit hc hlook
  | none => exact (h.miss hlook).hit hc (by rw [lookup_insert, if_pos rfl])

theorem Interned.quiet (h : Interned redis cfg past s) {c : FactoryCall}
    (hc : c.policy cfg = none) : Interned redis cfg (past ++ [(c, none)]) s where
  wired := h.wired
  returned := by
    intro p hp q hq
    rcases List.mem_append.mp hp with hp | hp
    · exact h.returned p hp q hq
    · obtain rfl := List.mem_singleton.mp hp
      cases hc.symm.trans hq
  object := h.object
  owned := h.owned

/-- An object may change, but not what it was built with. -/
theorem Interned.set (h : Interned redis cfg past s) {lim : Ref} {l l' : RateLimiter}
    (hlim : s.heap[lim]? = some l) (hl : l'.parameters = l.parameters) (store : Store) :
    Interned redis cfg past { s with heap := s.heap.set lim l', store } where
  wired := h.wired
  returned := h.returned
  object := by
    intro q lim' hq
    have hold := h.object q lim' hq
    by_cases heq : lim = lim'
    · subst heq
      rw [hlim, Option.map_some, ← hl] at hold
      rw [List.getElem?_set_self (List.getElem?_eq_some_iff.mp hlim).1, Option.map_some]
      exact hold
    · rw [List.getElem?_set_ne heq]
      exact hold
  owned := by
    refine ⟨fun ck lim' hck => ?_, h.owned.single⟩
    rw [List.length_set]
    exact h.owned.allocated ck lim' hck

theorem interned_serveCall (h : Interned redis cfg past s) (c : FactoryCall) :
    Interned redis cfg (past ++ [(c, (serveCall s c).1)]) (serveCall s c).2 := by
  cases c with
  | fromPolicy policy => exact h.fromPolicy rfl
  | default =>
      have hdefault := h.fromPolicy (c := .default) rfl
      rw [← h.wired.2] at hdefault
      exact h.wired.2 ▸ hdefault
  | allow lim key a =>
      have hc : FactoryCall.policy cfg (.allow lim key a) = none := rfl
      cases hlim : s.heap[lim]? with
      | some l =>
          simp only [serveCall, hlim]
          exact (h.set hlim (parameters_allow key l s.store a) _).quiet hc
      | none =>
          simp only [serveCall, hlim]
          exact h.quiet hc

end Interned

/-- **The cache is transparent.** Through any calls, the object that a policy's
call returns is what a factory with an empty cache would build for it, and two
calls return one object iff their policies agree. -/
theorem cache_transparent (redis : Bool) (cfg : Config) (store : Store) (calls : List FactoryCall) :
    let s : Objects := ⟨new redis cfg, [], store⟩
    (∀ p ∈ trace serveCall s calls, ∀ policy, p.1.policy cfg = some policy →
      ∃ lim l l', p.2 = some lim ∧ (after serveCall s calls).heap[lim]? = some l ∧
        built redis cfg policy = some l' ∧ l.parameters = l'.parameters) ∧
      ∀ p ∈ trace serveCall s calls, ∀ q ∈ trace serveCall s calls, ∀ policy policy',
        p.1.policy cfg = some policy → q.1.policy cfg = some policy' →
          (p.2 = q.2 ↔ policy.Agree policy') := by
  intro s
  have h : Interned redis cfg (trace serveCall s calls) (after serveCall s calls) :=
    trace_invariant serveCall (I := Interned redis cfg) (R := fun _ _ => True) (P := fun _ => True)
      (List.pairwise_of_forall fun _ _ => trivial) (fun _ _ => trivial)
      (interned_new redis cfg store) fun _ _ c h _ _ => interned_serveCall h c
  generalize trace serveCall s calls = past at h
  generalize after serveCall s calls = s' at h
  obtain ⟨hredis, hcfg⟩ := h.wired
  constructor
  · intro p hp policy hpolicy
    obtain ⟨lim, hlim, hlookup⟩ := h.returned p hp policy hpolicy
    obtain ⟨l, hl, hparameters⟩ := Option.map_eq_some_iff.mp (h.object policy lim hlookup)
    refine ⟨lim, l, _, hlim, hl, ?_, hparameters⟩
    rw [← hredis, ← hcfg]
    exact built_eq s'.factory policy
  · intro p hp q hq policy policy' hpolicy hpolicy'
    obtain ⟨lim, hlim, hlookup⟩ := h.returned p hp policy hpolicy
    obtain ⟨lim', hlim', hlookup'⟩ := h.returned q hq policy' hpolicy'
    rw [hlim, hlim', Option.some.injEq, ← cacheKey_eq_iff s'.factory.cfg]
    constructor
    · rintro rfl
      exact h.owned.single _ _ lim hlookup hlookup'
    · intro hck
      exact Option.some.inj (hlookup.symm.trans ((congrArg _ hck).trans hlookup'))

end LimiterFactory

end RateX
