import RateX.Bucket
import RateX.Limiter

/-!
# The Redis token bucket, over whole runs

`tokenExec` is one execution of `TokenBucketScript` on a key, with the
arguments `TokenBucket.Allow` passes. It refines one `Bucket.take`
(`tokenExec_spec`), so the laws of `RateX.Bucket` speak of the script:

- in order of time, with keys that expire, the decisions follow the exact
  envelope (`tokenBucket_admission_law`), and the expiry shows in no answer;
- out of order, they do not: the script overwrites `last_refill` with an
  older reading, and the time up to the newer one is credited again. What is
  granted is the most that the forward moves pay for (`tokenBucket_skew_iff`),
  which the time between the extreme readings bounds, for every capacity and
  window, only if it bounds the forward moves (`tokenBucket_skew_paths`).
-/

namespace RateX

open Redis Transducer Timeline

/-- `ARGV` for a capacity `C` and a window of `W` seconds, at the reading `now`. -/
def tokenArgs (C W : ℤ) (now : ℚ) : TokenArgs :=
  { capacity := C, refillRate := C / W, nowMs := now, requested := 1, ttlMs := 2 * W * 1000 }

@[simp] theorem tokenArgs_capacity (C W : ℤ) (now : ℚ) : (tokenArgs C W now).capacity = C := rfl

@[simp] theorem tokenArgs_nowMs (C W : ℤ) (now : ℚ) : (tokenArgs C W now).nowMs = now := rfl

@[simp] theorem tokenArgs_ttlMs (C W : ℤ) (now : ℚ) :
    (tokenArgs C W now).ttlMs = 2 * W * 1000 := rfl

/-- A refused script leaves its key as it was. -/
def execute (script : Slot → Except Error (List Reply × Slot)) (key : Slot) :
    Except Error (List Reply) × Slot :=
  match script key with
  | .ok (reply, key) => (.ok reply, key)
  | .error e => (.error e, key)

/-- One execution on a key that does not expire. -/
def tokenExec (C W : ℤ) (key : Slot) (now : ℚ) : Except Error (List Reply) × Slot :=
  execute (tokenBucketScript (tokenArgs C W now) now) key

/-- One execution on a key the server forgets at its deadline. -/
def tokenExecLive (C W : ℤ) (key : Slot) (now : ℚ) : Except Error (List Reply) × Slot :=
  tokenExec C W (live now key) now

/-- The script returned `allowed = 1`. -/
def allows : Except Error (List Reply) → Bool
  | .ok (.integer 1 :: _) => true
  | _ => false

/-- `Allow` of a token bucket passes `tokenArgs`, unless its window does not
fit a duration. -/
theorem TokenBucket.args_eq {C W : ℤ} (hW : 1 ≤ W) (hfit : Duration.Fits W) (now : ℚ) :
    (newTokenBucket C (.ofSeconds W)).args now = tokenArgs C W now := by
  have hpos : ¬ (W : ℚ) ≤ 0 := by exact_mod_cast not_le.mpr (by omega : (0 : ℤ) < W)
  simp only [TokenBucket.args, newTokenBucket, tokenArgs, Duration.seconds_ofSeconds hfit,
    Duration.milliseconds_twice hfit, if_neg hpos]
  push_cast
  rfl

/-! ## One execution is one `Bucket.take` -/

/-- The slot stores the bucket's level. -/
def Holds : Slot → Option (Bucket.Level ℚ) → Prop
  | none, none => True
  | some e, some l => ∃ fields, e.value = .hash fields ∧ fields "tokens" = some l.tokens ∧
      fields "last_refill" = some l.time
  | _, _ => False

theorem holds_none : Holds none none := trivial

/-- Tokens a millisecond. -/
def ratePerMs (C W : ℤ) : ℚ := C / W / 1000

/-- The tokens an execution finds, and what it does with them. -/
abbrev found (C W : ℤ) : Option (Bucket.Level ℚ) → ℚ → ℚ := Bucket.available (C : ℚ) (ratePerMs C W)

abbrev taken (C W : ℤ) : Option (Bucket.Level ℚ) → ℚ → Bool × Option (Bucket.Level ℚ) :=
  Bucket.take (C : ℚ) (ratePerMs C W)

theorem taken_snd (C W : ℤ) (b : Option (Bucket.Level ℚ)) (now : ℚ) : (taken C W b now).2 =
    some ⟨if 1 ≤ found C W b now then found C W b now - 1 else found C W b now, now⟩ := by
  unfold taken Bucket.take
  split <;> rfl

/-- What the script answers a request that finds `x` tokens. -/
def tokenReply (C W : ℤ) (x : ℚ) : List Reply :=
  if 1 ≤ x then [.integer 1, .integer ⌊x - 1⌋, .integer 0, .integer C]
  else [.integer 0, .integer ⌊x⌋, .integer ⌈(1 - x) / (C / W)⌉, .integer C]

theorem refill_eq (C W : ℤ) (x t now : ℚ) :
    (tokenArgs C W now).refill (x, t) = found C W (some ⟨x, t⟩) now := by
  simp only [TokenArgs.refill, tokenArgs, found, Bucket.available, ratePerMs]
  congr 2
  ring

theorem refill_missing (C W : ℤ) (now : ℚ) :
    (tokenArgs C W now).refill (C, now) = found C W none now := by
  simp [TokenArgs.refill, tokenArgs, found, Bucket.available]

def written (fields : String → Option ℚ) (x now : ℚ) : String → Option ℚ :=
  Function.update (Function.update fields "tokens" (some x)) "last_refill" (some now)

theorem holds_written (fields : String → Option ℚ) (x now : ℚ) (deadline : Option ℚ) :
    Holds (some ⟨.hash (written fields x now), deadline⟩) (some ⟨x, now⟩) :=
  ⟨_, rfl, by simp [written], by simp [written]⟩

/-- The script's decision, as the reply and the tokens it leaves. -/
theorem decide_tokenArgs (C W : ℤ) (now x : ℚ) :
    let out := (tokenArgs C W now).decide x
    [.integer out.1, .integer ⌊out.2.1⌋, .integer out.2.2, luaReply (tokenArgs C W now).capacity] =
        tokenReply C W x ∧
      out.2.1 = if 1 ≤ x then x - 1 else x := by
  rw [tokenArgs_capacity, luaReply_intCast]
  rcases le_or_gt 1 x with h1 | h1
  · have hdec : (tokenArgs C W now).decide x = (1, x - 1, 0) := if_pos h1
    rw [hdec, tokenReply, if_pos h1, if_pos h1]
    exact ⟨rfl, rfl⟩
  · have hdec : (tokenArgs C W now).decide x = (0, x, ⌈(1 - x) / (C / W : ℚ)⌉) :=
      if_neg (not_le.mpr h1)
    rw [hdec, tokenReply, if_neg (not_le.mpr h1), if_neg (not_le.mpr h1)]
    exact ⟨rfl, rfl⟩

theorem ttlMs_pos {W : ℤ} (hW : 1 ≤ W) : (0 : ℚ) < 2 * W * 1000 := by
  have := cast_pos hW
  linarith

theorem tokenBucketScript_of_reads {C W : ℤ} (hW : 1 ≤ W) {key : Slot} {clock now a : ℚ}
    {tokens last : Option ℚ} {fields : String → Option ℚ}
    (htok : hget key "tokens" = .ok tokens) (hlast : hget key "last_refill" = .ok last)
    (ha : (tokenArgs C W now).refill ((tokenArgs C W now).stored tokens last) = a)
    (hwrite : ∀ x, ∃ d, hset key [("tokens", x), ("last_refill", now)] =
      .ok (some ⟨.hash (written fields x now), d⟩)) :
    tokenBucketScript (tokenArgs C W now) clock key =
      .ok (tokenReply C W a,
        some ⟨.hash (written fields (if 1 ≤ a then a - 1 else a) now),
          some (clock + 2 * W * 1000)⟩) := by
  obtain ⟨hreply, hleft⟩ := decide_tokenArgs C W now a
  rw [hleft] at hreply
  obtain ⟨d, hd⟩ := hwrite (if 1 ≤ a then a - 1 else a)
  simp only [tokenBucketScript, htok, hlast, bind, Except.bind, pure, Except.pure, ha, hleft,
    hreply, hd, tokenArgs_nowMs, tokenArgs_ttlMs, pexpire_some _ (ttlMs_pos hW)]

/-- **The script refines `take`**: on a key that holds a level it answers by
what the bucket finds, stores the level `take` leaves and dates the key. -/
theorem tokenBucketScript_eq {C W : ℤ} (hW : 1 ≤ W) {key : Slot} {b : Option (Bucket.Level ℚ)}
    (h : Holds key b) (clock now : ℚ) :
    ∃ v, tokenBucketScript (tokenArgs C W now) clock key =
        .ok (tokenReply C W (found C W b now), some ⟨v, some (clock + 2 * W * 1000)⟩) ∧
      Holds (some ⟨v, some (clock + 2 * W * 1000)⟩) (taken C W b now).2 := by
  rw [taken_snd]
  match key, b, h with
  | none, none, _ =>
      exact ⟨_, tokenBucketScript_of_reads hW rfl rfl (refill_missing C W now) fun x => ⟨none, rfl⟩,
        holds_written ..⟩
  | some ⟨v, d⟩, some ⟨x, t⟩, ⟨fields, hv, htok, hlast⟩ =>
      simp only at hv htok hlast
      subst hv
      exact ⟨_, tokenBucketScript_of_reads hW (congrArg Except.ok htok) (congrArg Except.ok hlast)
        (refill_eq C W x t now) fun x => ⟨d, rfl⟩, holds_written ..⟩

def tokenMachine (C W : ℤ) (b : Option (Bucket.Level ℚ)) (now : ℚ) :
    Except Error (List Reply) × Option (Bucket.Level ℚ) :=
  (.ok (tokenReply C W (found C W b now)), (taken C W b now).2)

/-- The slot stores the level, and the deadline its last execution set. -/
def HoldsUntil (W : ℤ) (key : Slot) (b : Option (Bucket.Level ℚ)) : Prop :=
  Holds key b ∧ ∀ e l, key = some e → b = some l → e.expireAt = some (l.time + 2 * W * 1000)

theorem holdsUntil_none (W : ℤ) : HoldsUntil W none none :=
  ⟨holds_none, fun _ _ h => nomatch h⟩

/-- **One execution**, spelled out: the machine's answer, and a key that holds
the machine's level until twice the window after `now`. -/
theorem tokenExec_spec {C W : ℤ} (hW : 1 ≤ W) {key : Slot} {b : Option (Bucket.Level ℚ)}
    (h : Holds key b) (now : ℚ) :
    (tokenExec C W key now).1 = (tokenMachine C W b now).1 ∧
      HoldsUntil W (tokenExec C W key now).2 (tokenMachine C W b now).2 := by
  obtain ⟨v, heq, hv⟩ := tokenBucketScript_eq (C := C) hW h now now
  simp only [tokenExec, execute, heq]
  refine ⟨rfl, hv, fun e l he hl => ?_⟩
  obtain rfl := Option.some.inj he
  rw [tokenMachine, taken_snd] at hl
  obtain rfl := Option.some.inj hl
  rfl

theorem ratePerMs_pos {C W : ℤ} (hC : 1 ≤ C) (hW : 1 ≤ W) : 0 < ratePerMs C W :=
  div_pos (div_pos (cast_pos hC) (cast_pos hW)) (by norm_num)

theorem ratePerMs_nonneg {C W : ℤ} (hC : 1 ≤ C) (hW : 1 ≤ W) : 0 ≤ ratePerMs C W :=
  (ratePerMs_pos hC hW).le

/-- The seconds that `x` tokens lack to one, and the milliseconds. -/
theorem missing_ms (C W : ℤ) (x : ℚ) :
    1000 * ((1 - x) / (C / W : ℚ)) = (1 - x) / ratePerMs C W := by
  rw [ratePerMs]
  field_simp

/-- One window is time enough to refill. -/
theorem found_of_idle {C W : ℤ} (hC : 1 ≤ C) (hW : 1 ≤ W) {l : Bucket.Level ℚ} (hl : 0 ≤ l.tokens)
    {now : ℚ} (hidle : l.time + W * 1000 ≤ now) : found C W (some l) now = found C W none now := by
  have hW' : (0 : ℚ) < W := cast_pos hW
  have hwindow : (W * 1000 : ℚ) * ratePerMs C W = C := by
    rw [ratePerMs]
    field_simp
  have hearned := mul_le_mul_of_nonneg_right (show (W * 1000 : ℚ) ≤ now - l.time by linarith)
    (ratePerMs_nonneg hC hW)
  exact Bucket.available_of_idle hl (ratePerMs_nonneg hC hW) (hwindow.symm.trans_le hearned)

/-- A key that expired is read as full, and so would its level be. -/
theorem tokenExecLive_spec {C W : ℤ} (hC : 1 ≤ C) (hW : 1 ≤ W) {key : Slot}
    {b : Option (Bucket.Level ℚ)} (h : HoldsUntil W key b) (hb : Bucket.Within (C : ℚ) b)
    (now : ℚ) :
    (tokenExecLive C W key now).1 = (tokenMachine C W b now).1 ∧
      HoldsUntil W (tokenExecLive C W key now).2 (tokenMachine C W b now).2 := by
  match key, b, h with
  | none, none, _ => exact tokenExec_spec hW holds_none now
  | some e, some l, ⟨hl, hdl⟩ =>
      have hd : e.expireAt = some (l.time + 2 * W * 1000) := hdl e l rfl rfl
      obtain ⟨v, d⟩ := e
      obtain rfl : d = _ := hd
      rcases lt_or_ge now (l.time + 2 * W * 1000) with hlt | hge
      · rw [tokenExecLive, live_of_lt v hlt]
        exact tokenExec_spec hW hl now
      · have hW' : (0 : ℚ) < W := cast_pos hW
        have hsame : found C W (some l) now = found C W none now :=
          found_of_idle hC hW (hb l rfl).1 (by linarith)
        have hmach : tokenMachine C W (some l) now = tokenMachine C W none now := by
          simp only [tokenMachine, taken, Bucket.take, hsame]
        rw [tokenExecLive, live_of_le v hge, hmach]
        exact tokenExec_spec hW holds_none now

/-! ## Runs -/

section Runs

variable {C W : ℤ}

theorem allows_tokenReply (x : ℚ) : allows (.ok (tokenReply C W x)) = decide (1 ≤ x) := by
  unfold tokenReply
  split <;> simp_all [allows]

theorem tokenMachine_allows (b : Option (Bucket.Level ℚ)) (now : ℚ) :
    allows (tokenMachine C W b now).1 = (taken C W b now).1 := by
  rw [tokenMachine, allows_tokenReply]
  unfold taken Bucket.take
  split <;> simp_all

theorem trace_tokenExec (hW : 1 ≤ W) (readings : List ℚ) :
    trace (tokenExec C W) none readings = trace (tokenMachine C W) none readings ∧
      Holds (after (tokenExec C W) none readings) (after (tokenMachine C W) none readings) :=
  trace_sim (tokenExec C W) (tokenMachine C W) (S := fun _ key b => Holds key b)
    (R := fun _ _ => True) (P := fun _ => True)
    (List.pairwise_of_forall fun _ _ => trivial) (fun _ _ => trivial) holds_none
    fun _ _ _ now h _ _ => ⟨(tokenExec_spec hW h now).1, (tokenExec_spec hW h now).2.1⟩

/-- A run on a key that holds a level is the machine's run from that level. -/
theorem trace_tokenExecLive (hC : 1 ≤ C) (hW : 1 ≤ W) {key : Slot} {b : Option (Bucket.Level ℚ)}
    (h : HoldsUntil W key b) (hb : Bucket.Within (C : ℚ) b) (readings : List ℚ) :
    trace (tokenExecLive C W) key readings = trace (tokenMachine C W) b readings ∧
      HoldsUntil W (after (tokenExecLive C W) key readings)
        (after (tokenMachine C W) b readings) ∧
      Bucket.Within (C : ℚ) (after (tokenMachine C W) b readings) := by
  have hC' : (0 : ℚ) ≤ C := (cast_pos hC).le
  refine trace_sim (tokenExecLive C W) (tokenMachine C W)
    (S := fun _ key b => HoldsUntil W key b ∧ Bucket.Within (C : ℚ) b)
    (R := fun _ _ => True) (P := fun _ => True) (List.pairwise_of_forall fun _ _ => trivial)
    (fun _ _ => trivial) ⟨h, hb⟩ ?_
  rintro - key b now ⟨h, hb⟩ - -
  obtain ⟨hout, hnext⟩ := tokenExecLive_spec hC hW h hb now
  exact ⟨hout, hnext, Bucket.within_take hC' (ratePerMs_nonneg hC hW) hb now⟩

theorem after_tokenMachine (b : Option (Bucket.Level ℚ)) (readings : List ℚ) :
    after (tokenMachine C W) b readings = after (taken C W) b readings := by
  induction readings generalizing b with
  | nil => rfl
  | cons now readings ih => exact ih _

theorem countP_tokenMachine (b : Option (Bucket.Level ℚ)) (readings : List ℚ) :
    (trace (tokenMachine C W) b readings).countP (fun p => allows p.2) =
      Bucket.grants (C : ℚ) (ratePerMs C W) b readings := by
  induction readings generalizing b with
  | nil => rfl
  | cons now readings ih =>
      rw [trace_cons, List.countP_cons, Bucket.grants_cons, ih, tokenMachine_allows, add_comm]
      rfl

end Runs

/-! ## Disagreeing clocks -/

/-- How many executions of a run on a missing key return `allowed = 1`; each
entry is the clock reading its caller took. -/
def admitted (C W : ℤ) (readings : List ℚ) : ℕ :=
  (trace (tokenExec C W) none readings).countP fun p => allows p.2

theorem admitted_eq_grants {C W : ℤ} (hW : 1 ≤ W) (readings : List ℚ) :
    admitted C W readings = Bucket.grants (C : ℚ) (ratePerMs C W) none readings := by
  rw [admitted, (trace_tokenExec hW readings).1, countP_tokenMachine]

/-- The executions allowed are within the capacity and what the time between
any two instants earns that all the readings lie between. -/
def SpanBound (C W : ℤ) (readings : List ℚ) : Prop :=
  ∀ s t : ℚ, s ≤ t → (∀ n ∈ readings, s ≤ n ∧ n ≤ t) →
    (admitted C W readings : ℚ) ≤ C + C / W * ((t - s) / 1000)

/-- Three readings of the fast clock and two of the slow one: one second, one
token, and three requests let through. -/
theorem tokenBucket_mints_tokens : ¬ SpanBound 1 1 [1000, 0, 1000, 0, 1000] := by
  intro h
  have := h 0 1000 (by norm_num) (by decide +kernel)
  revert this
  decide +kernel

/-- The forward moves could pay for more: some choice of executions, each
stretch of which the capacity and the forward moves within the stretch pay for,
is larger than the capacity and what the span of the readings earns. -/
def Overdrawable (C W : ℤ) (readings : List ℚ) : Prop :=
  ∃ (s t : ℚ) (plan : List (ℚ × Bool)), s ≤ t ∧ (∀ n ∈ readings, s ≤ n ∧ n ≤ t) ∧
    plan.map Prod.fst = readings ∧ Bucket.Affordable (C : ℚ) (ratePerMs C W) plan ∧
    C + C / W * ((t - s) / 1000) < (plan.countP Prod.snd : ℚ)

/-- **Skew.** The script keeps to the span of the readings iff no choice of
executions that the readings' forward moves pay for exceeds it. -/
theorem tokenBucket_skew_iff {C W : ℤ} (hC : 1 ≤ C) (hW : 1 ≤ W) (readings : List ℚ) :
    SpanBound C W readings ↔ ¬ Overdrawable C W readings := by
  have hC0 : (0 : ℚ) ≤ C := (cast_pos hC).le
  constructor
  · rintro h ⟨s, t, plan, hst, hin, rfl, hplan, hlt⟩
    have hle : (plan.countP Prod.snd : ℚ) ≤ admitted C W (plan.map Prod.fst) := by
      rw [admitted_eq_grants hW]
      exact_mod_cast Bucket.countP_le_grants hplan
    exact absurd (hlt.trans_le hle) (not_lt.mpr (h s t hst hin))
  · intro h s t hst hin
    by_contra hnot
    -- what the script admitted is such a choice itself
    refine h ⟨s, t, trace (taken C W) none readings, hst, hin, trace_map_fst .., ?_, ?_⟩
    · exact Bucket.affordable_trace (ratePerMs_nonneg hC hW) hC0 readings
    · rw [admitted_eq_grants hW] at hnot
      exact not_le.mp hnot

/-- Readings whose forward moves stay within their span leave nothing to overdraw. -/
theorem not_overdrawable_of_forward {C W : ℤ} (hC : 1 ≤ C) (hW : 1 ≤ W) {readings : List ℚ}
    (h : ∀ s t : ℚ, (∀ n ∈ readings, s ≤ n ∧ n ≤ t) → Bucket.forward readings ≤ t - s) :
    ¬ Overdrawable C W readings := by
  rintro ⟨s, t, plan, -, hin, rfl, hplan, hlt⟩
  have hcount := hplan [] plan [] (by simp)
  have hspan : ratePerMs C W * Bucket.forward (plan.map Prod.fst) ≤ C / W * ((t - s) / 1000) :=
    calc ratePerMs C W * Bucket.forward (plan.map Prod.fst)
        ≤ ratePerMs C W * (t - s) :=
          mul_le_mul_of_nonneg_left (h s t hin) (ratePerMs_nonneg hC hW)
      _ = C / W * ((t - s) / 1000) := by rw [ratePerMs]; ring
  linarith

/-- In particular readings that arrive in order mint nothing. -/
theorem tokenBucket_skew_in_order : SpanBound 1 1 [0, 500, 1000] := by
  refine (tokenBucket_skew_iff le_rfl le_rfl [0, 500, 1000]).mpr
    (not_overdrawable_of_forward le_rfl le_rfl fun s t hin => ?_)
  have hforward : Bucket.forward [(0 : ℚ), 500, 1000] = 1000 := by norm_num [Bucket.forward]
  have hs := (hin 0 (by simp)).1
  have ht := (hin 1000 (by simp)).2
  rw [hforward]
  linarith

/-- Of clock readings in `[s, t]`, in the order in which they reach the key: no
capacity, no window and no number of requests at each reading admits more than
the capacity and what `t - s` earns, iff the forward moves between successive
readings do not add up to more than `t - s`. -/
theorem tokenBucket_skew_paths {s t : ℚ} (hst : s ≤ t) {readings : List ℚ}
    (hin : ∀ n ∈ readings, s ≤ n ∧ n ≤ t) :
    (∀ C W : ℤ, 1 ≤ C → 1 ≤ W → ∀ k : ℕ,
      (admitted C W (Bucket.paced (k + 1) readings) : ℚ) ≤ C + C / W * ((t - s) / 1000)) ↔
      Bucket.forward readings ≤ t - s := by
  constructor
  · intro h
    by_contra hfwd
    have hD : readings.Pairwise fun m n => n - m ≤ t - s :=
      List.Pairwise.imp_of_mem (R := fun _ _ => True)
        (fun {m n} hm hn _ => by have := hin m hm; have := hin n hn; linarith)
        (List.pairwise_of_forall fun _ _ => trivial)
    obtain ⟨n, hn⟩ := exists_nat_gt ((t - s) / 1000)
    have hn0 : (0 : ℚ) < n := lt_of_le_of_lt (div_nonneg (sub_nonneg.mpr hst) (by norm_num)) hn
    rw [div_lt_iff₀ (by norm_num)] at hn
    obtain ⟨m, k, hcap, hgt⟩ := Bucket.exists_grants_gt (w := (n : ℚ) * 1000)
      (sub_nonneg.mpr hst) (not_le.mp hfwd) hD (by linarith) hn
    have hW : (1 : ℤ) ≤ n := by exact_mod_cast hn0
    have hC : (1 : ℤ) ≤ m * (n * 1000) := by exact_mod_cast hcap
    have hrate : ratePerMs (m * (n * 1000)) n = m := by
      rw [ratePerMs]; push_cast; field_simp
    have hle := h (m * (n * 1000)) n hC hW k
    rw [admitted_eq_grants hW, hrate] at hle
    push_cast at hle
    have hbound : (m * (n * 1000) / n * ((t - s) / 1000) : ℚ) = m * (t - s) := by field_simp
    rw [hbound] at hle
    exact absurd hgt (not_lt.mpr hle)
  · intro hfwd C W hC hW k
    have hC' : (1 : ℚ) ≤ C := by exact_mod_cast hC
    rw [admitted_eq_grants hW]
    calc (Bucket.grants (C : ℚ) (ratePerMs C W) none (Bucket.paced (k + 1) readings) : ℚ)
        ≤ C + ratePerMs C W * Bucket.forward (Bucket.paced (k + 1) readings) :=
          Bucket.grants_le_forward (ratePerMs_nonneg hC hW) (zero_le_one.trans hC')
            Bucket.within_none _
      _ = C + ratePerMs C W * Bucket.forward readings := by rw [Bucket.forward_paced]
      _ ≤ C + ratePerMs C W * (t - s) := by
          have := mul_le_mul_of_nonneg_left hfwd (ratePerMs_nonneg hC hW)
          linarith
      _ = C + C / W * ((t - s) / 1000) := by rw [ratePerMs]; ring

/-! ## Agreeing clocks, keys that expire -/

/-- The answer to request `i` of the run `t 0, t 1, …` on a key that starts
missing, the server's clock agreeing with the readings. -/
def answerAt (C W : ℤ) (t : ℕ → ℚ) (i : ℕ) : Except Error (List Reply) :=
  (tokenExecLive C W (after (tokenExecLive C W) none ((List.range i).map t)) (t i)).1

/-- The same answer, were the key kept for ever. -/
def answerKept (C W : ℤ) (t : ℕ → ℚ) (i : ℕ) : Except Error (List Reply) :=
  (tokenExec C W (after (tokenExec C W) none ((List.range i).map t)) (t i)).1

def allowedAt (C W : ℤ) (t : ℕ → ℚ) (i : ℕ) : Bool := allows (answerAt C W t i)

section Envelope

variable {C W : ℤ} {t : ℕ → ℚ}

def foundAt (C W : ℤ) (t : ℕ → ℚ) (i : ℕ) : ℚ :=
  found C W (Bucket.stateAt (C : ℚ) (ratePerMs C W) t i) (t i)

theorem answerAt_eq (hC : 1 ≤ C) (hW : 1 ≤ W) (i : ℕ) :
    answerAt C W t i = .ok (tokenReply C W (foundAt C W t i)) := by
  obtain ⟨-, hkey, hwithin⟩ :=
    trace_tokenExecLive hC hW (holdsUntil_none W) Bucket.within_none ((List.range i).map t)
  rw [answerAt, (tokenExecLive_spec hC hW hkey hwithin (t i)).1, after_tokenMachine]
  rfl

theorem answerKept_eq (hW : 1 ≤ W) (i : ℕ) :
    answerKept C W t i = .ok (tokenReply C W (foundAt C W t i)) := by
  obtain ⟨-, hkey⟩ := trace_tokenExec (C := C) hW ((List.range i).map t)
  rw [answerKept, (tokenExec_spec hW hkey (t i)).1, after_tokenMachine]
  rfl

theorem allowedAt_eq (hC : 1 ≤ C) (hW : 1 ≤ W) (i : ℕ) :
    allowedAt C W t i = Bucket.granted (C : ℚ) (ratePerMs C W) t i := by
  rw [allowedAt, answerAt_eq hC hW, allows_tokenReply, Bool.eq_iff_iff, decide_eq_true_eq]
  exact Bucket.take_fst_iff.symm

/-- Request `i` is allowed iff no earlier request started a stretch whose allowed
requests, with `i`, exceed the capacity and what the stretch earned. -/
theorem allowedAt_iff (hC : 1 ≤ C) (hW : 1 ≤ W) (ht : Monotone t) (i : ℕ) :
    allowedAt C W t i = true ↔
      ∀ j ≤ i, (tally (allowedAt C W t) j i : ℚ) + 1 ≤ C + C / W * ((t i - t j) / 1000) := by
  have hgr : allowedAt C W t = Bucket.granted (C : ℚ) (ratePerMs C W) t :=
    funext fun i => allowedAt_eq hC hW i
  have hline : ∀ j, (C : ℚ) + ratePerMs C W * (t i - t j) = C + C / W * ((t i - t j) / 1000) :=
    fun j => by rw [ratePerMs]; ring
  rw [hgr, Bucket.granted, Bucket.take_fst_iff, Bucket.envelope _ _ _ ht]
  constructor <;> intro h j hj
  · rw [← hline, add_comm]; exact h j hj
  · rw [hline, add_comm]; exact h j hj

/-- **The admission law.** On a run in order of time, request `i` is allowed
iff no earlier request started a stretch whose allowed requests, with `i`,
exceed the capacity and what the stretch earned; and no answer tells whether
idle keys are deleted. -/
theorem tokenBucket_admission_law (hC : 1 ≤ C) (hW : 1 ≤ W) (ht : Monotone t) (i : ℕ) :
    (allowedAt C W t i = true ↔
      ∀ j ≤ i, (tally (allowedAt C W t) j i : ℚ) + 1 ≤ C + C / W * ((t i - t j) / 1000)) ∧
      answerAt C W t i = answerKept C W t i :=
  ⟨allowedAt_iff hC hW ht i, by rw [answerAt_eq hC hW, answerKept_eq hW]⟩

/-- Twenty-five tokens a minute, a request every second: all of the first
twenty-five requests go through. -/
theorem tokenBucket_admission_law_every_second :
    (allowedAt 25 60 (fun i => 1000 * i) 24 = true ↔
      ∀ j ≤ 24, (tally (allowedAt 25 60 fun i => 1000 * i) j 24 : ℚ) + 1 ≤
        (25 : ℤ) + (25 : ℤ) / (60 : ℤ) * ((1000 * (24 : ℕ) - 1000 * (j : ℚ)) / 1000)) ∧
      answerAt 25 60 (fun i => 1000 * i) 24 = answerKept 25 60 (fun i => 1000 * i) 24 :=
  tokenBucket_admission_law (by norm_num) (by norm_num)
    (fun i j h => by have : (i : ℚ) ≤ j := by exact_mod_cast h
                     simpa using this) 24

end Envelope

end RateX
