import RateX.FixedWindowCalls

/-!
# When a fixed window ends, as its rejected calls are told

`RetryAfter` and `ResetAfter` of the fixed window are what `TTL` answers for the
counter, while the window itself is aligned to the clock. `EndsWindow` is what
the two should be: the time left of the window, in whole seconds and rounded
up. A counter expires a window's length after its `EXPIRE`, so its time to live
is the longer the later the first call of the window came; and a `TTL` that
finds no deadline or no key, or fails, is read as `0`.

`fixedWindow_reset_iff` says of every run that its rejected calls are told when
their window ends iff each finds a counter with a deadline that is, to half a
second, that far away (`LivesOut`).
-/

namespace RateX

namespace FixedWindow

open Redis Steps

/-- The answer to a call at `t` says when the window of `t` is over: not before
it is, and less than a second after it. -/
structure EndsWindow (W : ℤ) (t : ℚ) (r : Result) : Prop where
  reset : r.resetAfter = r.retryAfter
  pos : 1 ≤ r.retryAfter
  later : ⌊t / (W * 1000)⌋ < ⌊(t + 1000 * r.retryAfter) / (W * 1000)⌋
  tight : 1000 * r.retryAfter < windowEnd W ⌊t / (W * 1000)⌋ - t + 1000

/-- What is left of the window of `t`, in whole seconds. -/
def secondsLeft (W : ℤ) (t : ℚ) : ℤ := ⌈(windowEnd W ⌊t / (W * 1000)⌋ - t) / 1000⌉

/-- The slot has a deadline, and it is `n` seconds away, to half a second. -/
def LivesOut (n : ℤ) (now : ℚ) (slot : Slot) : Prop :=
  ∃ e deadline, slot = some e ∧ e.expireAt = some deadline ∧
    1000 * n - 500 ≤ deadline - now ∧ deadline - now < 1000 * n + 500

/-- A rejected call that the step answers is told when its window ends. -/
def TellsEnd (W : ℤ) (s s' : Sys) : Prop :=
  ∀ e ∈ s.log, ∀ redisKey count, s.calls e.id = some (.running .ttl redisKey count) →
    ∀ r, s'.calls e.id = some (.returned r) → r.allowed = false → EndsWindow W e.time r

/-- The `TTL` of a rejected call is answered, and finds a deadline that is as
far away as the end of the call's window. -/
def Timely (l : FixedWindow) (W : ℤ) (s : Sys) (a : Action) : Prop :=
  ∀ e ∈ s.log, ∀ redisKey count, s.calls e.id = some (.running .ttl redisKey count) →
    l.limit < count → a ≠ .ttlFails e.id ∧
      (a = .ttl e.id → LivesOut (secondsLeft W e.time) s.now (s.store redisKey))

/-! ## The end of a window -/

section Windows

variable {W : ℤ}

theorem lt_floor_iff (hW : 1 ≤ W) {w : ℤ} {x : ℚ} :
    w < ⌊x / (W * 1000)⌋ ↔ windowEnd W w ≤ x := by
  rw [← Int.add_one_le_iff, Int.le_floor, le_div_iff₀ (window_pos hW), windowEnd]
  push_cast
  rfl

/-- There is one such number of seconds. -/
theorem endsWindow_iff (hW : 1 ≤ W) {t : ℚ} {r : Result} (hreset : r.resetAfter = r.retryAfter) :
    EndsWindow W t r ↔ r.retryAfter = secondsLeft W t := by
  have hleft := lt_windowEnd hW t
  generalize hE : windowEnd W ⌊t / (W * 1000)⌋ = ending at hleft
  constructor
  · rintro ⟨-, -, hlater, htight⟩
    rw [lt_floor_iff hW, hE] at hlater
    rw [hE] at htight
    rw [secondsLeft, hE, eq_comm, Int.ceil_eq_iff, lt_div_iff₀ (by norm_num),
      div_le_iff₀ (by norm_num)]
    constructor <;> linarith
  · intro heq
    rw [secondsLeft, hE, eq_comm, Int.ceil_eq_iff, lt_div_iff₀ (by norm_num),
      div_le_iff₀ (by norm_num)] at heq
    obtain ⟨hlo, hhi⟩ := heq
    refine ⟨hreset, ?_, (lt_floor_iff hW).mpr ?_, ?_⟩
    · have h0 : (0 : ℚ) < r.retryAfter := by linarith
      exact_mod_cast h0
    · rw [hE]
      linarith
    · rw [hE]
      linarith

theorem one_le_secondsLeft (hW : 1 ≤ W) (t : ℚ) : 1 ≤ secondsLeft W t :=
  Int.one_le_ceil_iff.mpr (div_pos (sub_pos.mpr (lt_windowEnd hW t)) (by norm_num))

end Windows

/-! ## The answer of `TTL` -/

section Ttl

variable {l : FixedWindow} {W count : ℤ} {now : ℚ} {slot : Slot}

theorem result_reset (l : FixedWindow) (count : ℤ) (ttl : Duration) :
    (l.result count ttl).resetAfter = (l.result count ttl).retryAfter := rfl

/-- `0`, and go-redis' `-1` and `-2`: no whole second, and none below zero. -/
theorem retryAfter_of_special {ttl : Duration} (h : ttl = 0 ∨ ttl = -1 ∨ ttl = -2) :
    (l.result count ttl).retryAfter = 0 := by
  have hzero : truncate (Duration.seconds ttl) = 0 := by
    rcases h with rfl | rfl | rfl <;> decide +kernel
  simp only [result, hzero, lt_irrefl, if_false]

theorem retryAfter_of_seconds {n : ℤ} (h0 : 0 ≤ n) (hfit : n * Duration.second < 2 ^ 63) :
    (l.result count (ttlDuration n)).retryAfter = n := by
  have hseconds : truncate (Duration.seconds (ttlDuration n)) = n := by
    have hspecial : ¬ (n = -1 ∨ n = -2) := by omega
    unfold Duration.second at hfit
    rw [ttlDuration, if_neg hspecial, Duration.mul, Duration.second,
      wrap64_of_fits (by omega) hfit, Duration.seconds]
    push_cast
    rw [mul_div_cancel_right₀ _ (by norm_num), truncate_intCast]
  simp only [result, hseconds, not_lt.mpr h0, if_false]

/-- A deadline no further away than the window's length is answered in whole
seconds, rounded to the nearest; everything else with `0`. -/
theorem retryAfter_eq_iff (hfit : W * Duration.second < 2 ^ 63)
    (hslot : ∀ e deadline, slot = some e → e.expireAt = some deadline →
      deadline ≤ now + W * 1000) {n : ℤ} (hn : 1 ≤ n) :
    (l.result count (ttlDuration (Redis.ttl now (live now slot)))).retryAfter = n ↔
      LivesOut n now slot := by
  have hn' : (1 : ℚ) ≤ n := by exact_mod_cast hn
  have hnever : ∀ {reply : ℤ}, reply = -1 ∨ reply = -2 →
      (l.result count (ttlDuration reply)).retryAfter ≠ n := by
    intro reply hreply
    rw [ttlDuration, if_pos hreply, retryAfter_of_special (.inr hreply)]
    omega
  match slot, hslot with
  | none, _ =>
      refine iff_of_false (hnever (.inr rfl)) ?_
      rintro ⟨e, -, he, -⟩
      cases he
  | some ⟨v, none⟩, _ =>
      refine iff_of_false (hnever (.inl rfl)) ?_
      rintro ⟨e, deadline, he, hd, -⟩
      obtain rfl := Option.some.inj he
      cases hd
  | some ⟨v, some deadline⟩, hslot =>
      have hlives : LivesOut n now (some ⟨v, some deadline⟩) ↔
          1000 * n - 500 ≤ deadline - now ∧ deadline - now < 1000 * n + 500 := by
        constructor
        · rintro ⟨e, d, he, hd, h⟩
          obtain rfl := Option.some.inj he
          obtain rfl := Option.some.inj hd
          exact h
        · exact fun h => ⟨_, deadline, rfl, rfl, h⟩
      rw [hlives]
      rcases le_or_gt deadline now with hle | hlt
      · rw [live_of_le v hle]
        refine iff_of_false (hnever (.inr rfl)) fun h => ?_
        linarith [h.1]
      · rw [live_of_lt v hlt, Redis.ttl]
        have hlong := hslot _ deadline rfl rfl
        have h0 : 0 ≤ ⌊(deadline - now + 500) / 1000⌋ :=
          Int.floor_nonneg.mpr (div_nonneg (by linarith) (by norm_num))
        have hW : ⌊(deadline - now + 500) / 1000⌋ ≤ W := by
          rw [← Int.lt_add_one_iff, Int.floor_lt, div_lt_iff₀ (by norm_num)]
          push_cast
          linarith
        have hW64 : ⌊(deadline - now + 500) / 1000⌋ * Duration.second < 2 ^ 63 :=
          lt_of_le_of_lt (Int.mul_le_mul_of_nonneg_right hW (by decide)) hfit
        rw [retryAfter_of_seconds h0 hW64, Int.floor_eq_iff, le_div_iff₀ (by norm_num),
          div_lt_iff₀ (by norm_num)]
        constructor
        · rintro ⟨hlo, hhi⟩
          constructor <;> linarith
        · rintro ⟨hlo, hhi⟩
          constructor <;> linarith

end Ttl

/-! ## Deadlines -/

/-- No deadline is further away than the window's length. -/
def Dated (W : ℤ) (s : Sys) : Prop :=
  ∀ key e deadline, s.store key = some e → e.expireAt = some deadline →
    deadline ≤ s.now + W * 1000

section Run

variable {l : FixedWindow} {W : ℤ} {s s' : Sys} {a : Action}

theorem dated_init : Dated W Sys.init := fun _ _ _ h => nomatch h

/-- A command after which its key has the deadline it had, or one of its own. -/
theorem Dated.run (h : Dated W s) {α : Type} (key : String)
    {command : Slot → Except Error (α × Slot)} (hcmd : ∀ slot reply e deadline,
      command slot = .ok (reply, some e) → e.expireAt = some deadline →
        (∃ old, slot = some old ∧ old.expireAt = some deadline) ∨ deadline ≤ s.now + W * 1000) :
    Dated W { s with store := (s.store.run s.now key command).2 } := by
  intro k e deadline he hd
  rcases s.store.run_cases s.now key command with ⟨err, hrun⟩ | ⟨reply, slot, hok, hrun⟩
  · simp only [hrun] at he
    exact h k e deadline he hd
  · simp only [hrun] at he
    by_cases hk : k = key
    · rw [hk, Function.update_self] at he
      subst he
      rcases hcmd _ reply e deadline hok hd with ⟨old, hold, hdeadline⟩ | hle
      · exact h key old deadline (live_some hold).1 hdeadline
      · exact hle
    · rw [Function.update_of_ne hk] at he
      exact h k e deadline he hd

theorem Dated.incr (h : Dated W s) (key : String) :
    Dated W { s with store := (s.store.run s.now key Redis.incr).2 } := by
  refine h.run key fun slot reply e deadline hok hd => .inl ?_
  match slot, hok with
  | none, hok =>
      obtain rfl := Option.some.inj (Prod.mk.inj (Except.ok.inj hok)).2
      cases hd
  | some ⟨.counter n, d⟩, hok =>
      obtain rfl := Option.some.inj (Prod.mk.inj (Except.ok.inj hok)).2
      exact ⟨_, rfl, hd⟩

theorem Dated.expire (hl : l.window = W * Duration.second) (hW : 1 ≤ W) (h : Dated W s)
    (key : String) : Dated W { s with store := (s.store.run s.now key (l.expire s.now)).2 } := by
  refine h.run key fun slot reply e deadline hok hd => .inr ?_
  simp only [FixedWindow.expire, hl, formatSec_window hW, Except.ok.injEq, Prod.mk.injEq,
    true_and] at hok
  cases slot with
  | none => cases hok
  | some old =>
      rw [pexpire_some _ (window_pos hW)] at hok
      obtain rfl := Option.some.inj hok
      exact (Option.some.inj hd).ge

theorem dated_step (hl : l.window = W * Duration.second) (hW : 1 ≤ W) (h : Dated W s)
    (hs : step l s a = some s') : Dated W s' := by
  cases a with
  | tick now =>
      simp only [step] at hs
      split at hs
      · rename_i hle
        obtain rfl := Option.some.inj hs
        intro key e deadline he hd
        have := h key e deadline he hd
        simp only
        linarith
      · cases hs
  | incr id key =>
      simp only [step] at hs
      split at hs
      · cases hs
      · exact Option.some.inj hs ▸ h
      · rename_i windowID _ _
        have hincr := h.incr (l.redisKey key windowID)
        split at hs
        · exact Option.some.inj hs ▸ h
        · rename_i hrun
          rw [hrun] at hincr
          exact Option.some.inj hs ▸ hincr
  | expire id =>
      simp only [step] at hs
      split at hs
      · rename_i redisKey count _
        exact Option.some.inj hs ▸ h.expire hl hW redisKey
      · cases hs
  | incrFails id | expireFails id | ttl id | ttlFails id | stop id =>
      simp only [step] at hs
      split at hs
      · exact Option.some.inj hs ▸ h
      · cases hs

/-! ## What a step answers -/

theorem calls_proceed {id id' : ℕ} {c c' : Call} (h : (s.proceed id' c').calls id = some c) :
    (id = id' ∧ c = c') ∨ (id ≠ id' ∧ s.calls id = some c) := by
  by_cases hid : id = id'
  · subst hid
    simp only [Sys.proceed, Function.update_self, Option.some.injEq] at h
    exact .inl ⟨rfl, h.symm⟩
  · simp only [Sys.proceed, Function.update_of_ne hid] at h
    exact .inr ⟨hid, h⟩

/-- A call that is answered while its `TTL` is due is answered by that `TTL`, or
by its failure. -/
theorem step_answers (hs : step l s a = some s') {id : ℕ} {redisKey : String} {count : ℤ}
    {r : Result} (hc : s.calls id = some (.running .ttl redisKey count))
    (hr : s'.calls id = some (.returned r)) :
    (a = .ttl id ∧
      r = l.result count (ttlDuration (Redis.ttl s.now (live s.now (s.store redisKey))))) ∨
      a = .ttlFails id ∧ r = l.result count 0 := by
  have hold : s.calls id ≠ some (.returned r) := by simp [hc]
  -- no other command ends in an answer, and none touches another call
  have hother : ∀ {t : Sys} {id' : ℕ} {c : Call}, t.proceed id' c = s' → t.calls = s.calls →
      c ≠ .returned r → False := by
    rintro t id' c rfl hcalls hne
    rcases calls_proceed hr with ⟨-, heq⟩ | ⟨-, heq⟩
    · exact hne heq.symm
    · exact hold (hcalls ▸ heq)
  cases a with
  | tick now =>
      simp only [step] at hs
      split at hs
      · obtain rfl := Option.some.inj hs
        exact absurd hr hold
      · cases hs
  | incr id' key =>
      simp only [step] at hs
      split at hs
      · cases hs
      · exact (hother (Option.some.inj hs) rfl (by simp)).elim
      · split at hs
        · exact (hother (Option.some.inj hs) rfl (by simp)).elim
        · exact (hother (Option.some.inj hs) rfl (by simp)).elim
  | ttl id' =>
      simp only [step] at hs
      split at hs
      · rename_i hc'
        obtain rfl := Option.some.inj hs
        rcases calls_proceed hr with ⟨rfl, heq⟩ | ⟨-, heq⟩
        · obtain ⟨-, rfl, rfl⟩ := Call.running.inj (Option.some.inj (hc.symm.trans hc'))
          exact .inl ⟨rfl, Call.returned.inj heq⟩
        · exact absurd heq hold
      · cases hs
  | ttlFails id' =>
      simp only [step] at hs
      split at hs
      · rename_i hc'
        obtain rfl := Option.some.inj hs
        rcases calls_proceed hr with ⟨rfl, heq⟩ | ⟨-, heq⟩
        · obtain ⟨-, -, rfl⟩ := Call.running.inj (Option.some.inj (hc.symm.trans hc'))
          exact .inr ⟨rfl, Call.returned.inj heq⟩
        · exact absurd heq hold
      · cases hs
  | incrFails id' | expire id' | expireFails id' | stop id' =>
      simp only [step] at hs
      split at hs
      · exact (hother (Option.some.inj hs) rfl (by simp)).elim
      · cases hs

/-- What a step tells the rejected calls it answers, by what their `TTL` finds. -/
theorem tellsEnd_iff (hW : 1 ≤ W) (hfit : W * Duration.second < 2 ^ 63) (h : Dated W s)
    (hs : step l s a = some s') : TellsEnd W s s' ↔ Timely l W s a := by
  have hslot : ∀ key e deadline, s.store key = some e → e.expireAt = some deadline →
      deadline ≤ s.now + W * 1000 := fun key => h key
  constructor
  · intro htells e he redisKey count hc hrejected
    constructor
    · rintro rfl
      simp only [step, hc, Option.some.injEq] at hs
      have hcall := congrArg (fun t => t.calls e.id) hs
      simp only [Sys.proceed, Function.update_self] at hcall
      have hpos :=
        (htells e he redisKey count hc _ hcall.symm (by simpa [result] using hrejected)).pos
      rw [retryAfter_of_special (.inl rfl)] at hpos
      omega
    · rintro rfl
      simp only [step, hc, Option.some.injEq] at hs
      have hcall := congrArg (fun t => t.calls e.id) hs
      simp only [Sys.proceed, Function.update_self] at hcall
      have hends := htells e he redisKey count hc _ hcall.symm (by simpa [result] using hrejected)
      rw [endsWindow_iff hW (result_reset ..)] at hends
      exact (retryAfter_eq_iff hfit (hslot redisKey) (one_le_secondsLeft hW _)).mp hends
  · intro htimely e he redisKey count hc r hr hrejected
    obtain ⟨hfails, hlives⟩ : a ≠ .ttlFails e.id ∧
        (a = .ttl e.id → LivesOut (secondsLeft W e.time) s.now (s.store redisKey)) := by
      refine htimely e he redisKey count hc ?_
      rcases step_answers hs hc hr with ⟨-, rfl⟩ | ⟨-, rfl⟩ <;> simpa [result] using hrejected
    rcases step_answers hs hc hr with ⟨ha, rfl⟩ | ⟨ha, -⟩
    · rw [endsWindow_iff hW (result_reset ..)]
      exact (retryAfter_eq_iff hfit (hslot redisKey) (one_le_secondsLeft hW _)).mpr (hlives ha)
    · exact absurd ha hfails

end Run

/-- **When a window ends, as its rejected calls are told**, in every run: they
are all told so iff the `TTL` of each is answered, and finds a deadline that is,
to half a second, as far away as the end of the call's window. -/
theorem fixedWindow_reset_iff {W : ℤ} (hW : 1 ≤ W) (hfit : W * Duration.second < 2 ^ 63)
    (limit : ℤ) (run : List Action) :
    let l := newFixedWindow limit (W * Duration.second)
    Along (step l) (fun s _ s' => TellsEnd W s s') Sys.init run ↔
      Along (step l) (fun s a _ => Timely l W s a) Sys.init run :=
  along_iff (fun _ _ _ h hs => dated_step rfl hW h hs)
    (fun _ _ _ h hs => tellsEnd_iff hW hfit h hs) dated_init run

/-! ## One call a minute -/

def oneAMinute : FixedWindow := newFixedWindow 1 (60 * Duration.second)

/-- Two calls of one key, up to the `TTL` of the second. -/
def secondCall (now : ℚ) : List Action :=
  [.tick now, .incr 0 "ip:x:/", .expire 0, .incr 1 "ip:x:/"]

theorem secondCall_due (now : ℚ) (h0 : 0 ≤ now) (h1 : now < 60000) :
    ∃ s, exec (step oneAMinute) Sys.init (secondCall now) = some s ∧ s.now = now ∧
      (∃ e ∈ s.log, e.id = 1) ∧ (∀ e ∈ s.log, e.time = now) ∧
      s.calls 1 = some (.running .ttl (oneAMinute.redisKey "ip:x:/" 0) 2) ∧
      s.store (oneAMinute.redisKey "ip:x:/" 0) = some ⟨.counter 2, some (now + 60000)⟩ := by
  have hwindow : ⌊now / ((60 : ℤ) * 1000)⌋ = 0 := by
    rw [Int.floor_eq_zero_iff]
    push_cast
    exact ⟨div_nonneg h0 (by norm_num), (div_lt_one (by norm_num)).mpr (by linarith)⟩
  have hid : oneAMinute.windowID now = some 0 := by
    rw [windowID_eq (W := 60) rfl (by norm_num) h0, hwindow]
  have hsec : formatSec (60 * Duration.second) = 60 := formatSec_window (W := 60) (by norm_num)
  simp only [secondCall, exec, step, Sys.init, h0, if_true, hid, Option.bind_some, Sys.proceed,
    Function.update_self, Store.run, Store.empty, live_none, Redis.incr]
  simp [oneAMinute, newFixedWindow, FixedWindow.expire, hsec, pexpire, live]
  norm_num

/-- In the last second of a minute, the second call is told to wait another one. -/
theorem fixedWindow_reset_late : ¬ Along (step oneAMinute) (fun s _ s' => TellsEnd 60 s s') Sys.init
    (secondCall 59000 ++ [.ttl 1]) := by
  intro h
  obtain ⟨s, hs, hnow, ⟨e, he, hid⟩, htime, hcall, hstore⟩ :=
    secondCall_due 59000 (by norm_num) (by norm_num)
  have hdue : s.calls e.id = some (.running .ttl (oneAMinute.redisKey "ip:x:/" 0) 2) := hid ▸ hcall
  obtain ⟨r, hstep, hrejected, hwait⟩ : ∃ r, step oneAMinute s (.ttl 1) =
      some (s.proceed 1 (.returned r)) ∧ r.allowed = false ∧ r.retryAfter = 60 := by
    simp only [step, hcall]
    refine ⟨_, rfl, rfl, ?_⟩
    rw [hstore, hnow, retryAfter_eq_iff (W := 60) (by decide) ?_ (by norm_num)]
    · exact ⟨_, _, rfl, rfl, by norm_num, by norm_num⟩
    · intro e' deadline he' hd
      obtain rfl := Option.some.inj he'
      obtain rfl := Option.some.inj hd
      norm_num
  have hanswer : (s.proceed 1 (.returned r)).calls e.id = some (.returned r) := by
    rw [hid]
    simp only [Sys.proceed, Function.update_self]
  have htells := ((along_append.mp h).2 s hs _ hstep).1 e he _ _ hdue r hanswer hrejected
  have htight := htells.tight
  rw [hwait, htime e he] at htight
  norm_num [windowEnd] at htight

/-- At the start of a minute, it is told to wait for the next. -/
theorem fixedWindow_reset_start : Along (step oneAMinute) (fun s _ s' => TellsEnd 60 s s') Sys.init
    (secondCall 0 ++ [.ttl 1]) := by
  refine (fixedWindow_reset_iff (by norm_num) (by decide) 1 _).mpr (along_append.mpr ⟨?_, ?_⟩)
  · refine along_of_forall fun a ha s s' e _ redisKey count _ _ => ?_
    simp only [secondCall, List.mem_cons, List.not_mem_nil, or_false] at ha
    rcases ha with rfl | rfl | rfl | rfl <;> simp
  · intro t ht t' _
    obtain ⟨s, hs, hnow, -, htime, hcall, hstore⟩ :=
      secondCall_due 0 le_rfl (by norm_num)
    obtain rfl := Option.some.inj (hs.symm.trans ht)
    refine ⟨fun e he redisKey count hc _ => ⟨nofun, fun ha => ?_⟩, trivial⟩
    obtain ⟨-, rfl, -⟩ := Call.running.inj (Option.some.inj
      (((Action.ttl.inj ha) ▸ hcall).symm.trans hc))
    have hleft : secondsLeft 60 e.time = 60 := by
      rw [htime e he]
      norm_num [secondsLeft, windowEnd]
    rw [hstore, hnow, hleft]
    exact ⟨_, _, rfl, rfl, by norm_num, by norm_num⟩

end FixedWindow

end RateX
