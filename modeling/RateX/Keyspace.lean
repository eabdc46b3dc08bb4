import RateX.FixedWindowCalls

/-!
# The keys of the limiters in Redis

All the calls of the three Redis limiters, of any policies, on one Redis. A
script is one step. A call of `FixedWindow.Allow` is its separate commands, as
in `RateX.FixedWindowCalls`, but each call has its own limiter here. Every call
brings the clock reading of its own instance, and may stop anywhere; a script
that is not carried out is no step at all. `drawn` is a ghost: the members that
`uuid.NewString` has returned, each of them once.

Both scripts date their key. A counter is dated by the one call whose `INCR`
answered `1`, and by nobody if that call does not get so far: so no key is left
without an expiry as long as no such call is lost (`keys_dated`).
-/

namespace RateX

namespace Keyspace

open Redis Steps

structure Sys where
  now : ℚ
  store : Store
  drawn : List String
  calls : ℕ → Option (FixedWindow × FixedWindow.Call)

def Sys.init : Sys := { now := 0, store := Store.empty, drawn := [], calls := fun _ => none }

inductive Action where
  | tick (now : ℚ)
  | token (l : TokenBucket) (reading : ℚ) (key : String)
  | sliding (l : SlidingWindow) (reading : ℚ) (member key : String)
  | incr (id : ℕ) (l : FixedWindow) (reading : ℚ) (key : String)
  | incrFails (id : ℕ) (l : FixedWindow)
  | expire (id : ℕ)
  | expireFails (id : ℕ)
  | ttl (id : ℕ)
  | ttlFails (id : ℕ)
  | stop (id : ℕ)

def Sys.proceed (s : Sys) (id : ℕ) (l : FixedWindow) (c : FixedWindow.Call) : Sys :=
  { s with calls := Function.update s.calls id (some (l, c)) }

/-- One command or script at the server's time. -/
def Sys.command {α : Type} (s : Sys) (key : String) (command : Slot → Except Error (α × Slot)) :
    Sys :=
  { s with store := (s.store.run s.now key command).2 }

def step (s : Sys) : Action → Option Sys
  | .tick now => if s.now ≤ now then some { s with now } else none
  | .token l reading key =>
      if l.capacity ≤ 0 then some s
      else some (s.command (l.keyPrefix ++ ":" ++ key) (tokenBucketScript (l.args reading) s.now))
  | .sliding l reading member key =>
      if member ∈ s.drawn then none
      else some { s.command (l.keyPrefix ++ ":" ++ key)
        (slidingWindowScript (l.args reading member) s.now) with drawn := member :: s.drawn }
  | .incr id l reading key =>
      match s.calls id, l.windowID reading with
      | some _, _ => none
      | none, none => some (s.proceed id l .failed)
      | none, some windowID =>
          let redisKey := l.redisKey key windowID
          match s.store.run s.now redisKey Redis.incr with
          | (.error _, _) => some (s.proceed id l .failed)
          | (.ok count, store) => some ({ s with store }.proceed id l
              (.running (if count = 1 then .expire else .ttl) redisKey count))
  | .incrFails id l =>
      match s.calls id with
      | none => some (s.proceed id l .failed)
      | some _ => none
  | .expire id =>
      match s.calls id with
      | some (l, .running .expire redisKey count) =>
          some ((s.command redisKey (l.expire s.now)).proceed id l (.running .ttl redisKey count))
      | _ => none
  | .expireFails id =>
      match s.calls id with
      | some (l, .running .expire _ _) => some (s.proceed id l .failed)
      | _ => none
  | .ttl id =>
      match s.calls id with
      | some (l, .running .ttl redisKey count) =>
          let ttl := FixedWindow.ttlDuration (Redis.ttl s.now (live s.now (s.store redisKey)))
          some (s.proceed id l (.returned (l.result count ttl)))
      | _ => none
  | .ttlFails id =>
      match s.calls id with
      | some (l, .running .ttl _ count) => some (s.proceed id l (.returned (l.result count 0)))
      | _ => none
  | .stop id =>
      match s.calls id with
      | some (l, .running ..) => some (s.proceed id l .failed)
      | _ => none

/-! ## What a step does to the keys -/

/-- A step carries out at most one command; each comes with what it leaves. -/
inductive Effect (s : Sys) : Action → Sys → Prop
  | tick {now : ℚ} (hle : s.now ≤ now) : Effect s (.tick now) { s with now }
  | idle {l : TokenBucket} {reading : ℚ} {key : String} : Effect s (.token l reading key) s
  | token {l : TokenBucket} {reading : ℚ} {key : String} (hC : 0 < l.capacity) :
      Effect s (.token l reading key) (s.command (l.keyPrefix ++ ":" ++ key)
        (tokenBucketScript (l.args reading) s.now))
  | sliding {l : SlidingWindow} {reading : ℚ} {member key : String} (hnew : member ∉ s.drawn) :
      Effect s (.sliding l reading member key) { s.command (l.keyPrefix ++ ":" ++ key)
        (slidingWindowScript (l.args reading member) s.now) with drawn := member :: s.drawn }
  | incr {id : ℕ} {l : FixedWindow} {reading : ℚ} {key redisKey : String} {count : ℤ} {slot : Slot}
      (hid : s.calls id = none)
      (hrun : Redis.incr (live s.now (s.store redisKey)) = .ok (count, slot)) :
      Effect s (.incr id l reading key)
        ({ s with store := Function.update s.store redisKey slot }.proceed id l
          (.running (if count = 1 then .expire else .ttl) redisKey count))
  | expire {id : ℕ} {l : FixedWindow} {redisKey : String} {count : ℤ}
      (hid : s.calls id = some (l, .running .expire redisKey count)) :
      Effect s (.expire id) ((s.command redisKey (l.expire s.now)).proceed id l
        (.running .ttl redisKey count))
  | ends {a : Action} {id : ℕ} {l : FixedWindow} {c : FixedWindow.Call}
      (hid : ∀ l redisKey count, s.calls id = some (l, .running .expire redisKey count) →
        a = .expireFails id ∨ a = .stop id) (hc : ∀ next redisKey count,
          c ≠ .running next redisKey count) : Effect s a (s.proceed id l c)

section Step

variable {s s' : Sys} {a : Action}

theorem step_effect (hs : step s a = some s') : Effect s a s' := by
  cases a with
  | tick now =>
      simp only [step] at hs
      split at hs
      · rename_i hle
        exact Option.some.inj hs ▸ .tick hle
      · cases hs
  | token l reading key =>
      simp only [step] at hs
      split at hs
      · exact Option.some.inj hs ▸ .idle
      · rename_i hC
        exact Option.some.inj hs ▸ .token (not_le.mp hC)
  | sliding l reading member key =>
      simp only [step] at hs
      split at hs
      · cases hs
      · rename_i hnew
        exact Option.some.inj hs ▸ .sliding hnew
  | incr id l reading key =>
      simp only [step] at hs
      split at hs
      · cases hs
      · rename_i hid _
        exact Option.some.inj hs ▸ .ends (by simp [hid]) (by simp)
      · rename_i windowID hid _
        rcases s.store.run_cases s.now (l.redisKey key windowID) Redis.incr with
          ⟨e, hrun⟩ | ⟨count, slot, hincr, hrun⟩
        · rw [hrun] at hs
          exact Option.some.inj hs ▸ .ends (by simp [hid]) (by simp)
        · rw [hrun] at hs
          exact Option.some.inj hs ▸ .incr hid hincr
  | incrFails id l =>
      simp only [step] at hs
      split at hs
      · rename_i hid
        exact Option.some.inj hs ▸ .ends (by simp [hid]) (by simp)
      · cases hs
  | expire id =>
      simp only [step] at hs
      split at hs
      · rename_i hid
        exact Option.some.inj hs ▸ .expire hid
      · cases hs
  | expireFails id =>
      simp only [step] at hs
      split at hs
      · exact Option.some.inj hs ▸ .ends (fun _ _ _ _ => .inl rfl) (by simp)
      · cases hs
  | ttl id =>
      simp only [step] at hs
      split at hs
      · rename_i hid
        exact Option.some.inj hs ▸ .ends (by simp [hid]) (by simp)
      · cases hs
  | ttlFails id =>
      simp only [step] at hs
      split at hs
      · rename_i hid
        exact Option.some.inj hs ▸ .ends (by simp [hid]) (by simp)
      · cases hs
  | stop id =>
      simp only [step] at hs
      split at hs
      · exact Option.some.inj hs ▸ .ends (fun _ _ _ _ => .inr rfl) (by simp)
      · cases hs

/-! ## Keys with an expiry -/

/-- A call is about to set the expiry of the key. -/
def Pending (s : Sys) (key : String) : Prop :=
  ∃ id l count, s.calls id = some (l, .running .expire key count)

/-- A key without an expiry is about to get one. -/
def Dating (s : Sys) : Prop :=
  ∀ key e, s.store key = some e → e.expireAt = none → Pending s key

/-- No call that is about to set an expiry fails or stops instead. -/
def Completes (s : Sys) (a : Action) : Prop :=
  ∀ id l key count, s.calls id = some (l, .running .expire key count) →
    a ≠ .expireFails id ∧ a ≠ .stop id

/-- No call is in progress. -/
def Idle (s : Sys) : Prop :=
  ∀ id l next key count, s.calls id ≠ some (l, .running next key count)

def AllDated (s : Sys) : Prop := ∀ key e, s.store key = some e → e.expireAt ≠ none

theorem Pending.proceed {key : String} (h : Pending s key) {id : ℕ} {l : FixedWindow}
    {c : FixedWindow.Call}
    (hid : ∀ l count, s.calls id ≠ some (l, .running .expire key count)) :
    Pending (s.proceed id l c) key := by
  obtain ⟨id', l', count, hc⟩ := h
  have hne : id' ≠ id := fun heq => hid l' count (heq ▸ hc)
  exact ⟨id', l', count, (Function.update_of_ne hne ..).trans hc⟩

/-- A command that dates its key. -/
theorem Dating.command (h : Dating s) {α : Type} (key : String)
    {command : Slot → Except Error (α × Slot)} (hcmd : ∀ slot reply e,
      command slot = .ok (reply, some e) → e.expireAt ≠ none) : Dating (s.command key command) := by
  intro k e he hnone
  rcases s.store.run_cases s.now key command with ⟨err, hrun⟩ | ⟨reply, slot, hok, hrun⟩
  · simp only [Sys.command, hrun] at he
    exact h k e he hnone
  · simp only [Sys.command, hrun] at he
    by_cases hk : k = key
    · rw [hk, Function.update_self] at he
      exact absurd hnone (hcmd _ reply e (he ▸ hok))
    · rw [Function.update_of_ne hk] at he
      exact h k e he hnone

/-- A new counter is dated by the call that made it, an old one by its own. -/
theorem Dating.incr (h : Dating s) {id : ℕ} {l : FixedWindow} {redisKey : String} {count : ℤ}
    {slot : Slot} (hid : s.calls id = none)
    (hrun : Redis.incr (live s.now (s.store redisKey)) = .ok (count, slot)) :
    Dating ({ s with store := Function.update s.store redisKey slot }.proceed id l
      (.running (if count = 1 then .expire else .ttl) redisKey count)) := by
  intro k e he hnone
  have hfresh : ∀ l count, s.calls id ≠ some (l, .running .expire k count) := by simp [hid]
  by_cases hk : k = redisKey
  · subst hk
    simp only [Sys.proceed, Function.update_self] at he
    subst he
    match hlive : live s.now (s.store k), hrun with
    | none, hrun =>
        simp only [Redis.incr, Except.ok.injEq, Prod.mk.injEq] at hrun
        obtain ⟨rfl, -⟩ := hrun
        exact ⟨id, l, 1, Function.update_self ..⟩
    | some ⟨.counter n, d⟩, hrun =>
        simp only [Redis.incr, Except.ok.injEq, Prod.mk.injEq, Option.some.injEq] at hrun
        obtain ⟨-, rfl⟩ := hrun
        obtain rfl : d = none := hnone
        exact (h k _ (live_some hlive).1 rfl).proceed hfresh
    | some ⟨.hash fields, d⟩, hrun => simp [Redis.incr] at hrun
    | some ⟨.zset members, d⟩, hrun => simp [Redis.incr] at hrun
  · simp only [Sys.proceed, Function.update_of_ne hk] at he
    exact (h k e he hnone).proceed hfresh

theorem Dating.expire (h : Dating s) {id : ℕ} {l : FixedWindow} {redisKey : String} {count : ℤ}
    (hid : s.calls id = some (l, .running .expire redisKey count)) :
    Dating ((s.command redisKey (l.expire s.now)).proceed id l (.running .ttl redisKey count)) := by
  intro k e he hnone
  simp only [Sys.proceed, Sys.command, Store.run, FixedWindow.expire] at he
  by_cases hk : k = redisKey
  · rw [hk, Function.update_self] at he
    exact absurd hnone (pexpire_dated he)
  · rw [Function.update_of_ne hk] at he
    refine (h k e he hnone).proceed (s := s.command redisKey (l.expire s.now))
      fun l' count' hc => ?_
    cases hid.symm.trans hc
    exact hk rfl

theorem dating_step (h : Dating s) (ha : Completes s a) (hs : step s a = some s') :
    Dating s' := by
  cases step_effect hs with
  | tick _ => exact h
  | idle => exact h
  | token _ =>
      refine h.command _ fun slot reply e hok => ?_
      obtain ⟨_, _, _, _, -, -, -, hslot, -⟩ := tokenBucketScript_ok hok
      exact pexpire_dated hslot.symm
  | @sliding l reading member key _ =>
      have hset : ∀ slot reply e, slidingWindowScript (l.args reading member) s.now slot =
          .ok (reply, some e) → e.expireAt ≠ none := by
        intro slot reply e hok
        obtain ⟨_, -, ⟨-, -, _, hslot⟩ | ⟨-, -, _, -, hslot⟩⟩ := slidingWindowScript_ok hok
        · exact pexpire_dated hslot.symm
        · exact pexpire_dated hslot.symm
      exact h.command (l.keyPrefix ++ ":" ++ key) hset
  | incr hid hrun => exact h.incr hid hrun
  | expire hid => exact h.expire hid
  | @ends _ id l c hid _ =>
      intro k e he hnone
      refine (h k e he hnone).proceed fun l' count hc => ?_
      obtain ⟨hfails, hstop⟩ := ha id l' k count hc
      exact (hid l' k count hc).elim hfails hstop

end Step

/-- **No key is left without an expiry**, in every state without a call in
progress that a run reaches in which no call fails or stops between its `INCR`
that answered `1` and its `EXPIRE`. -/
theorem keys_dated {s : Sys} (hs : Reach step Completes Sys.init s) (hidle : Idle s) :
    AllDated s := by
  have hinit : Dating Sys.init := fun _ _ h => by cases h
  have hdating : Dating s := hs.invariant hinit fun _ _ _ h ha hstep => dating_step h ha hstep
  intro key e he hnone
  obtain ⟨id, l, count, hc⟩ := hdating key e he hnone
  exact hidle id l .expire key count hc

/-- Two requests of one key; the second comes before the `EXPIRE` of the first. -/
def overtaken : List Action :=
  [.incr 0 (newFixedWindow 10 (.ofSeconds 60)) 0 "ip:a:/",
    .incr 1 (newFixedWindow 10 (.ofSeconds 60)) 0 "ip:a:/", .ttl 1, .expire 0, .ttl 0]

theorem keys_dated_overtaken : ∃ s, exec step Sys.init overtaken = some s ∧ AllDated s := by
  have hid : (newFixedWindow 10 (.ofSeconds 60)).windowID 0 = some 0 := by decide +kernel
  obtain ⟨s, hs, hcalls⟩ : ∃ s, exec step Sys.init overtaken = some s ∧
      ∀ id l c, s.calls id = some (l, c) → ∃ r, c = .returned r := by
    simp only [overtaken, exec, step, hid]
    refine ⟨_, rfl, fun id l c hc => ?_⟩
    by_cases h0 : id = 0
    · subst h0
      simp only [Sys.proceed, Function.update_self, Option.some.injEq, Prod.mk.injEq] at hc
      exact ⟨_, hc.2.symm⟩
    · by_cases h1 : id = 1
      · subst h1
        simp only [Sys.proceed, Sys.command, Function.update_self, Function.update_of_ne h0,
          Option.some.injEq, Prod.mk.injEq] at hc
        exact ⟨_, hc.2.symm⟩
      · simp [Sys.proceed, Sys.init, Sys.command, h0, h1] at hc
  refine ⟨s, hs, keys_dated (Reach.init.exec (fun s a ha => ?_) hs)
    fun id l next key count hc => ?_⟩
  · rintro id l key count -
    simp only [overtaken, List.mem_cons, List.not_mem_nil, or_false] at ha
    rcases ha with rfl | rfl | rfl | rfl | rfl <;> simp
  · obtain ⟨r, hr⟩ := hcalls id l _ hc
    cases hr

/-- The client of the first request of a window hangs up before the `EXPIRE`. -/
def hungUp : List Action :=
  [.incr 0 (newFixedWindow 10 (.ofSeconds 60)) 0 "ip:a:/", .stop 0]

/-- The counter of that window stays in Redis for ever. -/
theorem keys_undated : ¬ ∀ s, Reach step Any Sys.init s → Idle s → AllDated s := by
  intro h
  have hid : (newFixedWindow 10 (.ofSeconds 60)).windowID 0 = some 0 := by decide +kernel
  obtain ⟨s, hs, hcalls, hstore⟩ : ∃ s, exec step Sys.init hungUp = some s ∧
      (∀ id l c, s.calls id = some (l, c) → c = .failed) ∧
      s.store ((newFixedWindow 10 (.ofSeconds 60)).redisKey "ip:a:/" 0) =
        some ⟨.counter 1, none⟩ := by
    simp only [hungUp, exec, step, hid]
    refine ⟨_, rfl, fun id l c hc => ?_, by simp [Sys.proceed]⟩
    by_cases h0 : id = 0
    · subst h0
      simp only [Sys.proceed, Function.update_self, Option.some.injEq, Prod.mk.injEq] at hc
      exact hc.2.symm
    · simp [Sys.proceed, Sys.init, Function.update_of_ne h0] at hc
  refine h s (reach_exec .init hs) ?_ _ _ hstore rfl
  intro id l next key count hc
  cases hcalls id l _ hc

end Keyspace

end RateX
