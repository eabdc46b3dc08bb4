import RateX.FixedWindowCounter
import RateX.Steps
import RateX.Timeline

/-!
# The fixed window under any interleaving

Any number of calls of `FixedWindow.Allow`, from any number of instances that
share the limit, the window and Redis. A call is its separate commands:

- `incr`: the clock reading and the `INCR`, at one instant;
- `expire`, for the call whose `INCR` answered `1`;
- `ttl`, after which the call returns. A `TTL` that fails is ignored
  (`ttlFails`): `Val` is then the zero duration.

Calls interleave in any order and stop anywhere (`stop`): a command that was
carried out and whose answer was lost is the command followed by `stop`, one
that was not carried out is `incrFails` or `expireFails`. `log` is a ghost: the
`INCR`s carried out, in order.

The invariant is that no counter is lost while its window lasts
(`CountsAll`), so an `INCR` answers with its rank among those of its key and
window, and `fixedWindow_admits_first` reads the limit off the ranks.
-/

namespace RateX

namespace FixedWindow

open Redis Steps

structure Incr where
  id : ℕ
  key : String
  windowID : ℤ
  time : ℚ
deriving DecidableEq

inductive Next where
  | expire
  | ttl
deriving DecidableEq

inductive Call where
  | running (next : Next) (redisKey : String) (count : ℤ)
  | returned (r : Result)
  | failed

structure Sys where
  now : ℚ
  store : Store
  log : List Incr
  calls : ℕ → Option Call

def Sys.init : Sys := { now := 0, store := Store.empty, log := [], calls := fun _ => none }

inductive Action where
  | tick (now : ℚ)
  | incr (id : ℕ) (key : String)
  | incrFails (id : ℕ)
  | expire (id : ℕ)
  | expireFails (id : ℕ)
  | ttl (id : ℕ)
  | ttlFails (id : ℕ)
  | stop (id : ℕ)

def Sys.proceed (s : Sys) (id : ℕ) (c : Call) : Sys :=
  { s with calls := Function.update s.calls id (some c) }

def step (l : FixedWindow) (s : Sys) : Action → Option Sys
  | .tick now => if s.now ≤ now then some { s with now } else none
  | .incr id key =>
      match s.calls id, l.windowID s.now with
      | some _, _ => none
      | none, none => some (s.proceed id .failed)
      | none, some windowID =>
          let redisKey := l.redisKey key windowID
          match s.store.run s.now redisKey Redis.incr with
          | (.error _, _) => some (s.proceed id .failed)
          | (.ok count, store) =>
              let s := { s with store, log := s.log ++ [Incr.mk id key windowID s.now] }
              some (s.proceed id (.running (if count = 1 then .expire else .ttl) redisKey count))
  | .incrFails id =>
      match s.calls id with
      | none => some (s.proceed id .failed)
      | some _ => none
  | .expire id =>
      match s.calls id with
      | some (.running .expire redisKey count) =>
          let s := { s with store := (s.store.run s.now redisKey (l.expire s.now)).2 }
          some (s.proceed id (.running .ttl redisKey count))
      | _ => none
  | .expireFails id =>
      match s.calls id with
      | some (.running .expire _ _) => some (s.proceed id .failed)
      | _ => none
  | .ttl id =>
      match s.calls id with
      | some (.running .ttl redisKey count) =>
          let ttl := ttlDuration (Redis.ttl s.now (live s.now (s.store redisKey)))
          some (s.proceed id (.returned (l.result count ttl)))
      | _ => none
  | .ttlFails id =>
      match s.calls id with
      | some (.running .ttl _ count) => some (s.proceed id (.returned (l.result count 0)))
      | _ => none
  | .stop id =>
      match s.calls id with
      | some (.running ..) => some (s.proceed id .failed)
      | _ => none

/-! ## The invariant -/

/-- How many `INCR`s of the log were for this key and window. -/
def number (log : List Incr) (key : String) (w : ℤ) : ℕ :=
  log.countP fun e => e.key = key ∧ e.windowID = w

/-- What the call whose `INCR` is `e`, after those `before`, knows or answers. -/
def Ranked (l : FixedWindow) (before : List Incr) (e : Incr) : Call → Prop
  | .running _ redisKey count =>
      redisKey = l.redisKey e.key e.windowID ∧ count = number before e.key e.windowID + 1
  | .returned r => r.allowed = true ↔ (number before e.key e.windowID : ℤ) < l.limit
  | .failed => True

/-- A call was told the rank of its own `INCR`, and judges by it. -/
def Told (l : FixedWindow) (log : List Incr) (id : ℕ) (c : Call) : Prop :=
  c = .failed ∨ ∃ before e later, log = before ++ e :: later ∧ e.id = id ∧ Ranked l before e c

structure Inv (l : FixedWindow) (W : ℤ) (s : Sys) : Prop where
  clock : 0 ≤ s.now
  stamped : ∀ e ∈ s.log, e.time ≤ s.now ∧ e.windowID = ⌊e.time / (W * 1000)⌋
  counted : CountsAll l W s.now s.store (number s.log)
  begun : ∀ e ∈ s.log, s.calls e.id ≠ none
  once : (s.log.map Incr.id).Nodup
  told : ∀ id c, s.calls id = some c → Told l s.log id c

section Inv

variable {l : FixedWindow} {W : ℤ} {s s' : Sys}

theorem Told.extend {log : List Incr} {id : ℕ} {c : Call} (h : Told l log id c) (e : Incr) :
    Told l (log ++ [e]) id c := by
  rcases h with h | ⟨before, f, later, hlog, hrest⟩
  · exact .inl h
  · refine .inr ⟨before, f, later ++ [e], ?_, hrest⟩
    rw [hlog, List.append_assoc, List.cons_append]

theorem inv_init : Inv l W Sys.init where
  clock := le_rfl
  stamped := fun _ h => nomatch h
  counted := fun _ w _ => counts_none (windowEnd W w)
  begun := fun _ h => nomatch h
  once := List.nodup_nil
  told := fun _ _ h => nomatch h

/-- A call may proceed to whatever its own `INCR` supports; what it does to the
store has to keep the counters. -/
theorem Inv.proceed (h : Inv l W s) {id : ℕ} {c : Call} (hc : Told l s.log id c) {store : Store}
    (hstore : CountsAll l W s.now store (number s.log)) :
    Inv l W ({ s with store }.proceed id c) where
  clock := h.clock
  stamped := h.stamped
  counted := hstore
  begun := by
    intro e he
    by_cases hid : e.id = id
    · simp [Sys.proceed, hid]
    · simpa [Sys.proceed, hid] using h.begun e he
  once := h.once
  told := by
    intro id' c' hc'
    by_cases hid : id' = id
    · subst hid
      simp only [Sys.proceed, Function.update_self, Option.some.injEq] at hc'
      exact hc' ▸ hc
    · simp only [Sys.proceed, Function.update_of_ne hid] at hc'
      exact h.told id' c' hc'

theorem Inv.fail (h : Inv l W s) (id : ℕ) : Inv l W (s.proceed id .failed) :=
  h.proceed (.inl rfl) h.counted

theorem Inv.tick (h : Inv l W s) {now : ℚ} (hle : s.now ≤ now) : Inv l W { s with now } where
  clock := h.clock.trans hle
  stamped := fun e he => ⟨(h.stamped e he).1.trans hle, (h.stamped e he).2⟩
  counted := h.counted.later hle
  begun := h.begun
  once := h.once
  told := h.told

/-- The `INCR` of a new call: the call is told its rank. -/
theorem Inv.incr (hl : l.window = W * Duration.second) (hW : 1 ≤ W) (h : Inv l W s) {id : ℕ}
    {key : String} (hnew : s.calls id = none) (hs : step l s (.incr id key) = some s') :
    Inv l W s' := by
  have hw := windowID_eq hl hW h.clock
  obtain ⟨store, hrun, hcounted⟩ := h.counted.incr hW key
  simp only [step, hnew, hw, hrun, Option.some.injEq] at hs
  subst hs
  have hfresh : id ∉ s.log.map Incr.id := by
    intro hmem
    obtain ⟨e, he, rfl⟩ := List.mem_map.mp hmem
    exact h.begun e he hnew
  exact
    { clock := h.clock
      stamped := by
        intro e he
        rcases List.mem_append.mp he with he | he
        · exact h.stamped e he
        · rw [List.mem_singleton.mp he]
          exact ⟨le_rfl, rfl⟩
      counted := by
        intro key' w' hw'
        have hnum : number (s.log ++ [⟨id, key, ⌊s.now / (W * 1000)⌋, s.now⟩]) key' w' =
            number s.log key' w' + if key' = key ∧ w' = ⌊s.now / (W * 1000)⌋ then 1 else 0 := by
          simp only [number, List.countP_append, List.countP_singleton, decide_eq_true_eq,
            eq_comm (a := key), eq_comm (b := w')]
        exact hnum ▸ hcounted key' w' hw'
      begun := by
        intro e he
        by_cases hid : e.id = id
        · simp [Sys.proceed, hid]
        · rcases List.mem_append.mp he with he | he
          · simpa [Sys.proceed, hid] using h.begun e he
          · exact absurd (congrArg Incr.id (List.mem_singleton.mp he)) hid
      once := by
        simp only [Sys.proceed, List.map_append, List.map_singleton]
        exact List.nodup_append.mpr ⟨h.once, List.nodup_singleton id, by
          intro a ha b hb hab
          obtain rfl := List.mem_singleton.mp hb
          exact hfresh (hab ▸ ha)⟩
      told := by
        intro id' c hc
        by_cases hid : id' = id
        · subst hid
          simp only [Sys.proceed, Function.update_self, Option.some.injEq] at hc
          subst hc
          exact .inr ⟨s.log, _, [], rfl, rfl, rfl, rfl⟩
        · simp only [Sys.proceed, Function.update_of_ne hid] at hc
          exact (h.told id' c hc).extend _ }

/-- The `EXPIRE` of a call dates a counter of the call's own window. -/
theorem Inv.expire (hl : l.window = W * Duration.second) (hW : 1 ≤ W) (h : Inv l W s) {id : ℕ}
    {redisKey : String} {count : ℤ} (hc : s.calls id = some (.running .expire redisKey count)) :
    Inv l W ({ s with store := (s.store.run s.now redisKey (l.expire s.now)).2 }.proceed id
      (.running .ttl redisKey count)) := by
  obtain hf | ⟨before, e, later, hlog, hid, hkey, hcount⟩ := h.told id _ hc
  · cases hf
  have he : e ∈ s.log := hlog ▸ List.mem_append_right _ (List.mem_cons_self ..)
  obtain ⟨htime, hwin⟩ := h.stamped e he
  have hstore := h.counted.expire hl hW e.key htime
  rw [← hwin, ← hkey] at hstore
  have htold : Told l s.log id (.running .ttl redisKey count) :=
    .inr ⟨before, e, later, hlog, hid, hkey, hcount⟩
  exact h.proceed htold hstore

/-- The call's last command, whatever it answers, leaves the judgement to the rank. -/
theorem Inv.answer (h : Inv l W s) {id : ℕ} {redisKey : String} {count : ℤ}
    (hc : s.calls id = some (.running .ttl redisKey count)) (ttl : Duration) :
    Inv l W (s.proceed id (.returned (l.result count ttl))) := by
  obtain hf | ⟨before, e, later, hlog, hid, -, hcount⟩ := h.told id _ hc
  · cases hf
  refine h.proceed (.inr ⟨before, e, later, hlog, hid, ?_⟩) h.counted
  simp only [Ranked, result, hcount, decide_eq_true_eq]
  omega

theorem inv_step (hl : l.window = W * Duration.second) (hW : 1 ≤ W) (h : Inv l W s) {a : Action}
    (hs : step l s a = some s') : Inv l W s' := by
  cases a with
  | tick now =>
      simp only [step] at hs
      split at hs
      · rename_i hle
        exact Option.some.inj hs ▸ h.tick hle
      · cases hs
  | incr id key =>
      cases hc : s.calls id with
      | none => exact h.incr hl hW hc hs
      | some c => simp [step, hc] at hs
  | incrFails id =>
      simp only [step] at hs
      split at hs
      · exact Option.some.inj hs ▸ h.fail id
      · cases hs
  | expire id =>
      simp only [step] at hs
      split at hs
      · rename_i redisKey count hc
        exact Option.some.inj hs ▸ h.expire hl hW hc
      · cases hs
  | expireFails id =>
      simp only [step] at hs
      split at hs
      · exact Option.some.inj hs ▸ h.fail id
      · cases hs
  | ttl id =>
      simp only [step] at hs
      split at hs
      · rename_i redisKey count hc
        exact Option.some.inj hs ▸ h.answer hc _
      · cases hs
  | ttlFails id =>
      simp only [step] at hs
      split at hs
      · rename_i redisKey count hc
        exact Option.some.inj hs ▸ h.answer hc 0
      · cases hs
  | stop id =>
      simp only [step] at hs
      split at hs
      · exact Option.some.inj hs ▸ h.fail id
      · cases hs

theorem inv_reach (hl : l.window = W * Duration.second) (hW : 1 ≤ W)
    (h : Reach (step l) Any Sys.init s) : Inv l W s :=
  h.invariant inv_init fun _ _ _ h _ hs => inv_step hl hW h hs

/-! ## What the calls are allowed -/

def Sys.allowed (s : Sys) (e : Incr) : Bool :=
  match s.calls e.id with
  | some (.returned r) => r.allowed
  | _ => false

theorem Inv.id_once (h : Inv l W s) {before later : List Incr} {e : Incr}
    (hlog : s.log = before ++ e :: later) : e.id ∉ (before ++ later).map Incr.id := by
  have honce := h.once
  rw [hlog, List.map_append, List.map_cons] at honce
  rw [List.map_append]
  exact (List.nodup_cons.mp (List.nodup_middle.mp honce)).1

/-- An `INCR` whose call was allowed had fewer than the limit before it. -/
theorem Inv.rank_lt (h : Inv l W s) {before later : List Incr} {e : Incr}
    (hlog : s.log = before ++ e :: later) (he : s.allowed e = true) :
    (number before e.key e.windowID : ℤ) < l.limit := by
  unfold Sys.allowed at he
  split at he
  · rename_i r hc
    obtain hf | ⟨before', e', later', hlog', hid, hrank⟩ := h.told e.id _ hc
    · cases hf
    have honce := h.id_once hlog
    have hbefore : e' ∉ before := fun hmem =>
      honce (hid ▸ List.mem_map_of_mem (List.mem_append_left _ hmem))
    have hlater : e' ∉ later := fun hmem =>
      honce (hid ▸ List.mem_map_of_mem (List.mem_append_right _ hmem))
    -- ids occur once, so the two places of this one in the log are the same
    obtain ⟨rfl, rfl, rfl⟩ := (List.append_cons_inj_of_notMem hbefore hlater).mp
      (hlog.symm.trans hlog')
    exact hrank.mp he
  · cases he

theorem Inv.allowed_window (h : Inv l W s) (key : String) (w : ℤ) :
    s.log.countP (fun e => decide (e.key = key ∧ e.windowID = w) && s.allowed e) ≤
      l.limit.toNat := by
  refine Timeline.countP_le_of_preceding _ _ fun before e later hlog hkind hallowed => ?_
  have hlt := h.rank_lt hlog hallowed
  obtain ⟨rfl, rfl⟩ := of_decide_eq_true hkind
  unfold number at hlt
  omega

/-- An interval no longer than the window meets at most two windows. -/
theorem Inv.allowed_interval (hW : 1 ≤ W) (h : Inv l W s) (key : String) {a b : ℚ}
    (hab : b ≤ a + W * 1000) :
    s.log.countP (fun e => decide (e.key = key ∧ a ≤ e.time ∧ e.time ≤ b) && s.allowed e) ≤
      2 * l.limit.toNat := by
  rw [List.countP_eq_length_filter, mul_comm]
  refine Timeline.length_le_of_fibers Incr.windowID ⌊a / (W * 1000)⌋ 1 _ (fun w => ?_)
    fun e he => ?_
  · rw [List.countP_filter]
    refine le_trans (List.countP_mono_left fun e _ he => ?_) (h.allowed_window key w)
    simp only [Bool.and_eq_true, decide_eq_true_eq] at he ⊢
    exact ⟨⟨he.2.1.1, he.1⟩, he.2.2⟩
  · obtain ⟨he, hcond⟩ := List.mem_filter.mp he
    obtain ⟨⟨-, hae, heb⟩, -⟩ : (e.key = key ∧ a ≤ e.time ∧ e.time ≤ b) ∧ _ := by
      simpa using hcond
    have hpos := window_pos hW
    rw [(h.stamped e he).2]
    refine ⟨Int.floor_le_floor (by gcongr), ?_⟩
    have hle : e.time / (W * 1000) ≤ a / (W * 1000) + (1 : ℤ) := by
      rw [Int.cast_one, ← div_self hpos.ne', ← add_div]
      gcongr
      linarith
    calc ⌊e.time / (W * 1000)⌋ ≤ ⌊a / (W * 1000) + (1 : ℤ)⌋ := Int.floor_le_floor hle
      _ = ⌊a / (W * 1000)⌋ + 1 := Int.floor_add_intCast ..

end Inv

/-- **First come, first served**, under any interleaving, delay and failure: a
call that returns is allowed iff fewer than `limit` `INCR`s for its key and
window preceded its own. So no window allows more than `limit` calls, and no
interval up to the window's length more than twice that. -/
theorem fixedWindow_admits_first {limit W : ℤ} (hW : 1 ≤ W) {s : Sys}
    (hs : Reach (step (newFixedWindow limit (W * Duration.second))) Any Sys.init s) :
    (∀ id r, s.calls id = some (.returned r) → ∃ before e later,
      s.log = before ++ e :: later ∧ e.id = id ∧ id ∉ (before ++ later).map Incr.id ∧
        (r.allowed = true ↔
          (before.countP (fun f => f.key = e.key ∧ f.windowID = e.windowID) : ℤ) < limit)) ∧
      (∀ key w, s.log.countP (fun e => decide (e.key = key ∧ e.windowID = w) && s.allowed e) ≤
        limit.toNat) ∧
      ∀ key (a b : ℚ), b ≤ a + W * 1000 →
        s.log.countP (fun e => decide (e.key = key ∧ a ≤ e.time ∧ e.time ≤ b) && s.allowed e) ≤
          2 * limit.toNat := by
  have h := inv_reach rfl hW hs
  refine ⟨fun id r hr => ?_, h.allowed_window, fun key a b => h.allowed_interval hW key⟩
  obtain hf | ⟨before, e, later, hlog, rfl, hrank⟩ := h.told id _ hr
  · cases hf
  exact ⟨before, e, later, hlog, rfl, h.id_once hlog, hrank⟩

/-- Two calls with a limit of one: the second `INCR` overtakes the `EXPIRE` and
`TTL` of the first. -/
def overtaking : List Action :=
  [.tick 59000, .incr 0 "ip:x:/", .tick 59500, .incr 1 "ip:x:/", .ttl 1, .expire 0,
    .tick 61000, .ttl 0]

theorem fixedWindow_admits_first_overtaking :
    ∃ s, exec (step (newFixedWindow 1 (60 * Duration.second))) Sys.init overtaking = some s ∧
      ∀ key w,
        s.log.countP (fun e => decide (e.key = key ∧ e.windowID = w) && s.allowed e) ≤ 1 := by
  obtain ⟨s, hs⟩ := Option.isSome_iff_exists.mp
    (show (exec (step (newFixedWindow 1 (60 * Duration.second))) Sys.init overtaking).isSome = true
      by decide +kernel)
  exact ⟨s, hs, (fixedWindow_admits_first (by norm_num) (reach_exec .init hs)).2.1⟩

end FixedWindow

end RateX
