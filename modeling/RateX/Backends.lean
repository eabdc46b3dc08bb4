import RateX.Admission
import RateX.Isolation

/-!
# One token bucket, two backends

`TokenBucket` keeps a hash per key in Redis, dated twice the window ahead;
`MemoryTokenBucket` keeps a map of buckets for ever. Both are, key by key, the
same `Bucket.Level` (`Twins`), so a run in order of time over any keys gets the
same answers from either (`backends_agree`). What they tell a refused client
about waiting is not part of that: the script rounds up, the memory bucket
truncates.
-/

namespace RateX

open Redis Transducer

/-- A call of `Allow` for a key. -/
structure Hit where
  key : String
  arrival : Arrival

def serveHit (s : RateLimiter × Store) (h : Hit) : Outcome × (RateLimiter × Store) :=
  RateLimiter.allow h.key s h.arrival

/-- The part of the answer both backends are to agree on. -/
structure Shown where
  allowed : Bool
  remaining : Int
  limit : Int
  resetAfter : Int
deriving DecidableEq

def Outcome.shown (o : Outcome) : Except AllowError Shown :=
  o.map fun r => ⟨r.allowed, r.remaining, r.limit, r.resetAfter⟩

section Twins

variable {C W : ℤ}

theorem shown_result {x : ℚ} (hx : 0 ≤ x) :
    Outcome.shown (.ok (tokenResult C W x)) = Outcome.shown (.ok (memoryResult C W x)) := by
  rcases le_or_gt 1 x with h1 | h1
  · have hleft : 0 ≤ x - 1 := sub_nonneg.mpr h1
    simp only [tokenResult, memoryResult, if_pos h1, truncate, if_pos hleft]
  · simp only [tokenResult, memoryResult, if_neg (not_le.mpr h1), truncate, if_pos hx]
    rfl

/-- Every key of the two limiters is at the same level, none later than the
past requests. -/
structure Twins (C W : ℤ) (past : List (Hit × Outcome)) (s t : RateLimiter × Store)
    (level : String → Option (Bucket.Level ℚ)) : Prop where
  token : s.1 = .token (newTokenBucket C (.ofSeconds W))
  memory : t.1 = .memory
    { buckets := fun key => (level key).map memoryBucket, capacity := C, window := .ofSeconds W }
  stored : ∀ key, HoldsUntil W (s.2 ("rl:token" ++ ":" ++ key)) (level key)
  within : ∀ key, Bucket.Within (C : ℚ) (level key)
  past : ∀ key l, level key = some l → ∃ p ∈ past, p.1.arrival.now = l.time

theorem twins_start (C W : ℤ) :
    Twins C W [] (.token (newTokenBucket C (.ofSeconds W)), Store.empty)
      (.memory (newMemoryTokenBucket C (.ofSeconds W)), Store.empty) fun _ => none where
  token := rfl
  memory := rfl
  stored _ := holdsUntil_none W
  within _ := Bucket.within_none
  past _ _ h := nomatch h

/-- One call on both: the same answer, and the key moves to the same level. -/
theorem Twins.serve (hC : 1 ≤ C) (hW : 1 ≤ W) (hfit : Duration.Fits W)
    {past : List (Hit × Outcome)} {s t : RateLimiter × Store}
    {level : String → Option (Bucket.Level ℚ)} (h : Twins C W past s t level) {hit : Hit}
    (hpast : ∀ p ∈ past, p.1.arrival.now ≤ hit.arrival.now) :
    (serveHit s hit).1.shown = (serveHit t hit).1.shown ∧
      Twins C W (past ++ [(hit, (serveHit s hit).1)]) (serveHit s hit).2 (serveHit t hit).2
        (Function.update level hit.key (taken C W (level hit.key) hit.arrival.now).2) := by
  obtain ⟨l, store⟩ := s
  obtain ⟨m, store'⟩ := t
  obtain ⟨rfl, rfl, hstored, hwithin, hlast⟩ := h
  obtain ⟨key, a⟩ := hit
  have hC0 : (0 : ℚ) ≤ C := (cast_pos hC).le
  have hrate := ratePerMs_nonneg hC hW
  obtain ⟨hreply, hnext⟩ := tokenExecLive_spec hC hW (hstored key) (hwithin key) a.now
  obtain ⟨hout, hslot⟩ := token_allow hC hW hfit hreply
  have hmem := memory_answer (C := C) hW (Duration.seconds_ofSeconds hfit)
    (fun key => (level key).map memoryBucket) key rfl a.now fun lvl hlvl => by
      obtain ⟨p, hp, htime⟩ := hlast key lvl hlvl
      exact htime ▸ hpast p hp
  simp only [serveHit, RateLimiter.allow, hmem]
  refine ⟨?_, rfl, ?_, ?_, ?_, ?_⟩
  · rw [hout]
    exact shown_result (Bucket.available_nonneg hC0 hrate (hwithin key) a.now)
  · simp only
    congr 2
    funext key'
    by_cases hkey : key' = key
    · subst hkey
      simp only [Function.update_self]
    · simp only [Function.update_of_ne hkey]
  · intro key'
    by_cases hkey : key' = key
    · subst hkey
      rw [hslot, Function.update_self]
      exact hnext
    · have hne : "rl:token" ++ ":" ++ key' ≠ "rl:token" ++ ":" ++ key := fun heq => by
        have hlist := congrArg String.toList heq
        simp only [String.toList_append] at hlist
        exact hkey (String.toList_inj.mp (List.append_cancel_left hlist))
      have hframe := (TokenBucket.allow_local (newTokenBucket C (.ofSeconds W)) a.now key).frame
        store hne
      rw [hframe, Function.update_of_ne hkey]
      exact hstored key'
  · intro key'
    by_cases hkey : key' = key
    · subst hkey
      rw [Function.update_self]
      exact Bucket.within_take hC0 hrate (hwithin key') a.now
    · rw [Function.update_of_ne hkey]
      exact hwithin key'
  · intro key' lvl hlvl
    by_cases hkey : key' = key
    · subst hkey
      rw [Function.update_self, taken_snd] at hlvl
      obtain rfl := Option.some.inj hlvl
      exact ⟨(⟨key', a⟩, _), List.mem_append_right _ (List.mem_singleton.mpr rfl), rfl⟩
    · rw [Function.update_of_ne hkey] at hlvl
      obtain ⟨p, hp, htime⟩ := hlast key' lvl hlvl
      exact ⟨p, List.mem_append_left _ hp, htime⟩

/-- A run in order of time on both, from empty stores. -/
theorem twins_run (hC : 1 ≤ C) (hW : 1 ≤ W) (hfit : Duration.Fits W) {run : List Hit}
    (horder : run.Pairwise fun a b => a.arrival.now ≤ b.arrival.now) :
    let s : RateLimiter × Store := (.token (newTokenBucket C (.ofSeconds W)), Store.empty)
    let t : RateLimiter × Store := (.memory (newMemoryTokenBucket C (.ofSeconds W)), Store.empty)
    (trace serveHit s run).map (fun p => (p.1, p.2.shown)) =
        (trace serveHit t run).map (fun p => (p.1, p.2.shown)) ∧
      ∃ level, Twins C W (trace serveHit s run) (after serveHit s run) (after serveHit t run)
        level := by
  have h := trace_observe serveHit serveHit id Outcome.shown Outcome.shown run
    (S := fun past s t => ∃ level, Twins C W past s t level) (P := fun _ => True) horder
    (fun _ _ => trivial) ⟨_, twins_start C W⟩ fun past s t hit ⟨level, h⟩ hpast _ => by
      obtain ⟨hshown, hnext⟩ := h.serve hC hW hfit hpast
      exact ⟨hshown, _, hnext⟩
  simpa only [id, List.map_id] using h

end Twins

/-- **The backends agree.** From empty stores, on a run in order of time over
any keys, neither bucket fails and every request gets the same decision,
remaining tokens, limit and reset from both. -/
theorem backends_agree {C W : ℤ} (hC : 1 ≤ C) (hW : 1 ≤ W) (hfit : Duration.Fits W)
    {run : List Hit} (horder : run.Pairwise fun a b => a.arrival.now ≤ b.arrival.now) :
    (trace serveHit (.token (newTokenBucket C (.ofSeconds W)), Store.empty) run).map
        (fun p => (p.1, p.2.shown)) =
      (trace serveHit (.memory (newMemoryTokenBucket C (.ofSeconds W)), Store.empty) run).map
        (fun p => (p.1, p.2.shown)) :=
  (twins_run hC hW hfit horder).1

/-- Two keys, one of them idle for longer than Redis keeps it. -/
def idleKeys : List Hit :=
  [⟨"ip:a:/", .atEpoch "1"⟩, ⟨"ip:b:/", ⟨250, by norm_num, "2"⟩⟩,
    ⟨"ip:a:/", ⟨250, by norm_num, "3"⟩⟩, ⟨"ip:a:/", ⟨5000, by norm_num, "4"⟩⟩]

theorem backends_agree_idle :
    (trace serveHit (.token (newTokenBucket 1 (.ofSeconds 1)), Store.empty) idleKeys).map
        (fun p => (p.1, p.2.shown)) =
      (trace serveHit (.memory (newMemoryTokenBucket 1 (.ofSeconds 1)), Store.empty) idleKeys).map
        (fun p => (p.1, p.2.shown)) :=
  backends_agree le_rfl le_rfl ⟨by decide, by decide⟩ (by
    simp [idleKeys, Arrival.atEpoch]
    norm_num)

end RateX
