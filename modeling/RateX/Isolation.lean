import RateX.FixedWindowCounter
import RateX.Transducer

/-!
# Isolation of budgets

A budget belongs to a pair of an identity and a route; its store key is the
two joined by a colon, unescaped. Identities are arbitrary texts (a client
chooses what follows `ip:`), but a route starts with a slash and has no slash
right after a colon, so the pair's route starts after the last `:/` of the key
(`Pair.key_inj`), and a window number is what follows the last colon.

From there the limiters need one fact each: a call reads and writes only the
`footprint` of its key. Requests of other pairs can then be deleted from a run
without a trace in the answers to this pair (`budgets_isolated`), by the
unwinding theorem for transducers.
-/

namespace RateX

open Redis Transducer

/-! ## Pairs and their keys -/

/-- A Gin pattern: rooted, and every wildcard in it has a name. -/
structure Route where
  text : String
  rooted : text.toList.head? = some '/'
  named : Delimited.NoneStarts ':' (fun tail => tail.head? = some '/') text.toList
deriving DecidableEq

structure Pair where
  identity : String
  route : Route
deriving DecidableEq

/-- `fmt.Sprintf("%s:%s", identity, route)`. -/
def Pair.key (p : Pair) : String := p.identity ++ ":" ++ p.route.text

theorem Pair.key_inj {p q : Pair} (h : p.key = q.key) : p = q := by
  have hsplit : ∀ p : Pair, p.key.toList = p.identity.toList ++ ':' :: p.route.text.toList := by
    intro p
    simp [Pair.key]
  have hlist := congrArg String.toList h
  rw [hsplit, hsplit] at hlist
  obtain ⟨hid, hroute⟩ := Delimited.append_cons_inj (fun tail => tail.head? = some '/')
    p.route.rooted q.route.rooted p.route.named q.route.named hlist
  obtain ⟨identity, ⟨text, _, _⟩⟩ := p
  obtain ⟨identity', ⟨text', _, _⟩⟩ := q
  obtain rfl := String.toList_inj.mp hid
  obtain rfl := String.toList_inj.mp hroute
  rfl

/-- The Redis keys a limiter uses for a key; the window number varies. -/
def storeKey (l : RateLimiter) (key : String) (w : ℤ) : String :=
  match l with
  | .token l => l.keyPrefix ++ ":" ++ key
  | .sliding l => l.keyPrefix ++ ":" ++ key
  | .fixed l => l.redisKey key w
  | .memory _ => key

theorem storeKey_inj {l : RateLimiter} {p q : Pair} {w w' : ℤ}
    (h : storeKey l p.key w = storeKey l q.key w') : p = q := by
  have hcut : ∀ keyPrefix : String,
      keyPrefix ++ ":" ++ p.key = keyPrefix ++ ":" ++ q.key → p = q := by
    intro keyPrefix heq
    have hlist := congrArg String.toList heq
    simp only [String.toList_append] at hlist
    exact Pair.key_inj (String.toList_inj.mp (List.append_cancel_left hlist))
  cases l with
  | token l => exact hcut _ h
  | sliding l => exact hcut _ h
  | fixed l => exact Pair.key_inj (FixedWindow.redisKey_inj l h).1
  | memory l => exact Pair.key_inj h

/-! ## Footprints -/

/-- A Redis limiter, with its window fixed, touches one key of the store. -/
theorem TokenBucket.allow_local (l : TokenBucket) (now : ℚ) (key : String) :
    Local (l.keyPrefix ++ ":" ++ key) fun store => l.allow store now key := by
  unfold TokenBucket.allow
  by_cases hcap : l.capacity ≤ 0
  · simp only [if_pos hcap]
    exact Local.pure ..
  · simp only [if_neg hcap]
    exact (Store.run_local now (l.keyPrefix ++ ":" ++ key) (tokenBucketScript (l.args now) now)).map
      fun reply => parseReply reply (truncate l.window.seconds)

theorem SlidingWindow.allow_local (l : SlidingWindow) (now : ℚ) (member key : String) :
    Local (l.keyPrefix ++ ":" ++ key) fun store => l.allow store now member key :=
  (Store.run_local now (l.keyPrefix ++ ":" ++ key)
    (slidingWindowScript (l.args now member) now)).map
      fun reply => parseReply reply (truncate l.window.seconds)

theorem FixedWindow.allow_local (l : FixedWindow) (now : ℚ) (key : String) {w : ℤ}
    (hw : l.windowID now = some w) :
    Local (l.redisKey key w) fun store => l.allow store now key := by
  -- the two commands after the `INCR`, which the count decides on
  let rest : Except Error Int → Store → Outcome × Store := fun reply store =>
    match reply with
    | .error e => (.error (.redis e), store)
    | .ok count =>
        let store :=
          if count = 1 then (store.run now (l.redisKey key w) (l.expire now)).2 else store
        (.ok (l.result count (FixedWindow.ttlDuration
          (Redis.ttl now (live now (store (l.redisKey key w)))))), store)
  have hrest : ∀ reply, Local (l.redisKey key w) (rest reply) := by
    intro reply
    cases reply with
    | error e => exact Local.pure ..
    | ok count =>
        have hexp := Store.run_local now (l.redisKey key w) (l.expire now)
        constructor
        · intro store store' h
          by_cases h1 : count = 1
          · simp only [rest, if_pos h1, (hexp.congr h).2, and_self]
          · simp only [rest, if_neg h1, h, and_self]
        · intro store other hne
          by_cases h1 : count = 1
          · simp only [rest, if_pos h1]
            exact hexp.frame store hne
          · simp only [rest, if_neg h1]
  have heq : (fun store => l.allow store now key) = fun store =>
      rest (store.run now (l.redisKey key w) incr).1 (store.run now (l.redisKey key w) incr).2 := by
    funext store
    simp only [FixedWindow.allow, hw, rest]
    rcases store.run now (l.redisKey key w) incr with ⟨_ | count, store'⟩ <;> rfl
  rw [heq]
  exact (Store.run_local ..).bind hrest

/-- Every call of a Redis limiter is an operation on one store key of its key. -/
theorem allow_local {l : RateLimiter} (hl : ∀ m, l ≠ .memory m) (key : String) (a : Arrival) :
    ∃ w op, Local (storeKey l key w) op ∧
      ∀ store, RateLimiter.allow key (l, store) a = ((op store).1, (l, (op store).2)) := by
  cases l with
  | token l => exact ⟨0, _, l.allow_local a.now key, fun _ => rfl⟩
  | sliding l => exact ⟨0, _, l.allow_local a.now a.member key, fun _ => rfl⟩
  | fixed l =>
      cases hw : l.windowID a.now with
      | some w => exact ⟨w, _, l.allow_local a.now key hw, fun _ => rfl⟩
      | none =>
          refine ⟨0, _, Local.pure _ (.error .panic), fun store => ?_⟩
          simp only [RateLimiter.allow, FixedWindow.allow, hw]
  | memory l => exact absurd rfl (hl l)

/-- The two states agree on all that a call for `key` can read. -/
inductive Agree (key : String) : RateLimiter × Store → RateLimiter × Store → Prop
  | redis {l : RateLimiter} {store store' : Store} (hl : ∀ m, l ≠ .memory m)
      (h : ∀ w, store (storeKey l key w) = store' (storeKey l key w)) :
      Agree key (l, store) (l, store')
  | memory {buckets buckets' : String → Option MemoryBucket} {capacity : Int} {window : Duration}
      {store store' : Store} (h : buckets key = buckets' key) :
      Agree key (.memory ⟨buckets, capacity, window⟩, store)
        (.memory ⟨buckets', capacity, window⟩, store')

theorem Agree.refl (key : String) (s : RateLimiter × Store) : Agree key s s := by
  obtain ⟨l, store⟩ := s
  cases l with
  | memory l => exact .memory rfl
  | token l => exact .redis nofun fun _ => rfl
  | sliding l => exact .redis nofun fun _ => rfl
  | fixed l => exact .redis nofun fun _ => rfl

/-- Agreeing states answer the key's own calls alike, and go on agreeing. -/
theorem Agree.allow {key : String} {s t : RateLimiter × Store} (h : Agree key s t) (a : Arrival) :
    (RateLimiter.allow key s a).1 = (RateLimiter.allow key t a).1 ∧
      Agree key (RateLimiter.allow key s a).2 (RateLimiter.allow key t a).2 := by
  cases h with
  | @redis l store store' hl h =>
      obtain ⟨w, op, hlocal, hop⟩ := allow_local hl key a
      obtain ⟨hout, hnext⟩ := hlocal.congr (h w)
      rw [hop, hop]
      refine ⟨hout, .redis hl fun w' => ?_⟩
      by_cases hw : storeKey l key w' = storeKey l key w
      · rw [hw]
        exact hnext
      · rw [hlocal.frame _ hw, hlocal.frame _ hw]
        exact h w'
  | memory h =>
      simp only [RateLimiter.allow, MemoryTokenBucket.allow, h]
      split
      · exact ⟨rfl, .memory h⟩
      · exact ⟨rfl, .memory (by simp)⟩

/-- A call for another pair's key leaves the state agreeing with what it was. -/
theorem Agree.allow_other {p q : Pair} (hpq : q ≠ p) {s t : RateLimiter × Store}
    (h : Agree p.key s t) (a : Arrival) : Agree p.key (RateLimiter.allow q.key s a).2 t := by
  cases h with
  | @redis l store store' hl h =>
      obtain ⟨w, op, hlocal, hop⟩ := allow_local hl q.key a
      rw [hop]
      refine .redis hl fun w' => ?_
      have hne : storeKey l p.key w' ≠ storeKey l q.key w := fun heq => hpq (storeKey_inj heq).symm
      rw [hlocal.frame _ hne]
      exact h w'
  | memory h =>
      have hne : p.key ≠ q.key := fun heq => hpq (Pair.key_inj heq).symm
      simp only [RateLimiter.allow, MemoryTokenBucket.allow]
      split
      · exact .memory h
      · refine .memory ?_
        rw [Function.update_of_ne hne]
        exact h

/-! ## Two runs -/

structure Visit where
  pair : Pair
  arrival : Arrival

def serveVisit (s : RateLimiter × Store) (v : Visit) : Outcome × (RateLimiter × Store) :=
  RateLimiter.allow v.pair.key s v.arrival

/-- **Isolation.** Whatever the other pairs do, and whichever limiter serves
them, a pair is answered as if it were alone; for the store key, with or
without a window number, tells the pair. -/
theorem budgets_isolated (l : RateLimiter) (store : Store) (run : List Visit) (p : Pair) :
    (trace serveVisit (l, store) run).filter (fun x => x.1.pair = p) =
        trace serveVisit (l, store) (run.filter fun v => v.pair = p) ∧
      ∀ q w w', storeKey l p.key w = storeKey l q.key w' → p = q := by
  refine ⟨?_, fun q w w' h => storeKey_inj h⟩
  refine trace_filter_eq (p := fun v : Visit => decide (v.pair = p)) (E := Agree p.key) ?_ ?_
    (Agree.refl p.key _) run
  · intro s t v hv h
    obtain rfl := of_decide_eq_true hv
    exact h.allow v.arrival
  · intro s t v hv h
    exact h.allow_other (of_decide_eq_false hv) v.arrival

end RateX
