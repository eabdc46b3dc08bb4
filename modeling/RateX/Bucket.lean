import Mathlib.Algebra.Order.Archimedean.Basic
import Mathlib.Algebra.Order.BigOperators.Group.Finset
import RateX.Timeline
import RateX.Transducer

/-!
# The token bucket, as arithmetic

A bucket holds at most `cap` tokens, gains `rate` tokens per unit of time and
pays one token per granted request. `Level` is what it remembers: the tokens
right after the last request and that request's instant; `none` is a bucket
nobody has used. A clock that runs backwards earns nothing, but its reading
is remembered all the same.

The laws, each by one induction over the run:

- `grants_le_forward`: whatever the order of the readings, the grants are
  bounded by `cap` plus what the *forward moves* of the clock earn; and
  `exists_grants_gt` says that bound is reached, up to the last token.
- `affordable_trace` and `countP_le_grants`: no choice of requests that keeps
  to that bound in every stretch of the run is larger than the bucket's own.
- `envelope`: on a run in order of time, request `i` finds `x` tokens iff the
  grants since every earlier request leave room for `x` under the line
  `cap + rate * Δ` (the min-plus closed form of the recurrence).
- `Accounts`: on a run in order of time, every closed interval `[x, y]` sees
  at most `cap + rate * (y - x)` grants.
- `available_after_refused`: in order of time, refused requests cost nothing.
-/

namespace Bucket

open Transducer Timeline

section Step

variable {K : Type*} [Field K] [LinearOrder K]

structure Level (K : Type*) where
  tokens : K
  time : K

/-- The tokens a request at `now` finds. -/
def available (cap rate : K) : Option (Level K) → K → K
  | none, _ => cap
  | some b, now => min cap (b.tokens + max 0 (now - b.time) * rate)

def take (cap rate : K) (b : Option (Level K)) (now : K) : Bool × Option (Level K) :=
  if 1 ≤ available cap rate b now then (true, some ⟨available cap rate b now - 1, now⟩)
  else (false, some ⟨available cap rate b now, now⟩)

/-- The tokens of a level lie between `0` and the capacity. -/
def Within (cap : K) (b : Option (Level K)) : Prop :=
  ∀ l, b = some l → 0 ≤ l.tokens ∧ l.tokens ≤ cap

/-- The sum of the forward moves of a clock through its readings. -/
def forward : List K → K
  | [] => 0
  | [_] => 0
  | a :: b :: l => max 0 (b - a) + forward (b :: l)

/-- How many requests of a run are granted. -/
def grants (cap rate : K) (b : Option (Level K)) (readings : List K) : ℕ :=
  (trace (take cap rate) b readings).countP fun p => p.2

/-- Each reading of a path served `k` times in turn. -/
def paced (k : ℕ) (path : List K) : List K := path.flatMap (List.replicate k)

variable {cap rate : K} {b : Option (Level K)} {now : K}

theorem take_of_le (h : 1 ≤ available cap rate b now) :
    take cap rate b now = (true, some ⟨available cap rate b now - 1, now⟩) := if_pos h

theorem take_of_lt (h : available cap rate b now < 1) :
    take cap rate b now = (false, some ⟨available cap rate b now, now⟩) := if_neg (not_le.mpr h)

theorem take_fst_iff : (take cap rate b now).1 = true ↔ 1 ≤ available cap rate b now := by
  unfold take; split <;> simp_all

theorem available_le (b : Option (Level K)) (now : K) : available cap rate b now ≤ cap := by
  cases b with
  | none => exact le_rfl
  | some b => exact min_le_left ..

theorem available_self {x t : K} (hx : x ≤ cap) : available cap rate (some ⟨x, t⟩) t = x := by
  simp [available, hx]

theorem within_none : Within cap (none : Option (Level K)) := fun _ h => nomatch h

theorem within_some {x t : K} (h0 : 0 ≤ x) (hcap : x ≤ cap) : Within cap (some ⟨x, t⟩) := by
  intro l hl
  obtain rfl := Option.some.inj hl
  exact ⟨h0, hcap⟩

theorem grants_cons (b : Option (Level K)) (n : K) (l : List K) :
    grants cap rate b (n :: l) =
      (if (take cap rate b n).1 then 1 else 0) + grants cap rate (take cap rate b n).2 l := by
  simp [grants, List.countP_cons, add_comm]

theorem take_snd (b : Option (Level K)) (now : K) : (take cap rate b now).2 =
    some ⟨available cap rate b now - (if (take cap rate b now).1 then 1 else 0), now⟩ := by
  unfold take
  split
  · rw [if_pos rfl]
  · simp

theorem grants_append (b : Option (Level K)) (l m : List K) :
    grants cap rate b (l ++ m) =
      grants cap rate b l + grants cap rate (after (take cap rate) b l) m := by
  simp [grants, trace_append]

theorem grants_concat (b : Option (Level K)) (l : List K) (n : K) :
    grants cap rate b (l ++ [n]) = grants cap rate b l +
      if (take cap rate (after (take cap rate) b l) n).1 then 1 else 0 := by
  rw [grants_append, grants_cons]
  rfl

theorem drain_empty {x t : K} (hx : x < 1) (hcap : x ≤ cap) (k : ℕ) :
    grants cap rate (some ⟨x, t⟩) (List.replicate k t) = 0 ∧
      after (take cap rate) (some ⟨x, t⟩) (List.replicate k t) = some ⟨x, t⟩ := by
  have hav : available cap rate (some ⟨x, t⟩) t = x := available_self hcap
  induction k with
  | zero => exact ⟨rfl, rfl⟩
  | succ k ih =>
      rw [List.replicate_succ, grants_cons, after_cons, take_of_lt (by rwa [hav]), hav]
      exact ⟨by simp [ih.1], ih.2⟩

theorem grants_of_lt_one (hcap : cap < 1) (b : Option (Level K)) (readings : List K) :
    grants cap rate b readings = 0 := by
  induction readings generalizing b with
  | nil => rfl
  | cons n readings ih =>
      rw [grants_cons, take_of_lt ((available_le b n).trans_lt hcap), ih]
      rfl

/-- When the requests of a run on an unused bucket are granted. -/
def grantTimes (cap rate : K) (readings : List K) : List K :=
  picked (fun t => t) (fun granted => granted) (trace (take cap rate) none readings)

theorem length_grantTimes (cap rate : K) (readings : List K) :
    (grantTimes cap rate readings).length = grants cap rate none readings := by
  rw [grantTimes, grants, picked, List.countP_eq_length_filter]
  generalize trace (take cap rate) none readings = tr
  induction tr with
  | nil => rfl
  | cons p tr ih =>
      by_cases hp : p.2 = true <;> simp_all

theorem forward_replicate_append (a : K) (l : List K) (k : ℕ) :
    forward (a :: (List.replicate k a ++ l)) = forward (a :: l) := by
  induction k with
  | zero => rfl
  | succ k ih =>
      rw [List.replicate_succ, List.cons_append, forward, ih]
      simp

theorem forward_paced (k : ℕ) : ∀ path : List K, forward (paced (k + 1) path) = forward path
  | [] => rfl
  | [a] => by
      have := forward_replicate_append a [] k
      simpa [paced, List.replicate_succ] using this
  | a :: b :: path => by
      have hb := forward_paced k (b :: path)
      simp only [paced, List.flatMap_cons, List.replicate_succ, List.cons_append] at hb ⊢
      rw [forward_replicate_append, forward, forward, hb]

/-- A plan says of each request of a run whether to grant it; it is affordable
if no stretch of successive requests grants more than the capacity and what the
forward moves within the stretch earn. -/
def Affordable (cap rate : K) (plan : List (K × Bool)) : Prop :=
  ∀ before stretch later, plan = before ++ (stretch ++ later) →
    (stretch.countP Prod.snd : K) ≤ cap + rate * forward (stretch.map Prod.fst)

/-- What a plan leaves in the bucket, below zero if it overdraws. -/
def ledger (cap rate : K) (b : Option (Level K)) (plan : List (K × Bool)) : Option (Level K) :=
  plan.foldl (fun b p => some ⟨available cap rate b p.1 - (if p.2 then 1 else 0), p.1⟩) b

theorem ledger_concat (plan : List (K × Bool)) (m : K) (chosen : Bool) :
    ledger cap rate b (plan ++ [(m, chosen)]) =
      some ⟨available cap rate (ledger cap rate b plan) m - (if chosen then 1 else 0), m⟩ := by
  simp [ledger]

theorem Affordable.of_append {plan later : List (K × Bool)}
    (h : Affordable cap rate (plan ++ later)) : Affordable cap rate plan := by
  intro before stretch rest hplan
  refine h before stretch (rest ++ later) ?_
  rw [hplan, List.append_assoc, List.append_assoc]

theorem forward_concat (l : List K) (m n : K) :
    forward (l ++ [m, n]) = forward (l ++ [m]) + max 0 (n - m) := by
  induction l with
  | nil => simp [forward]
  | cons a l ih =>
      cases l with
      | nil => simp [forward]
      | cons b l =>
          simp only [List.cons_append, forward] at ih ⊢
          rw [ih, add_assoc]

/-- The bucket request `i` of the run `t 0, t 1, …` meets. -/
def stateAt (cap rate : K) (t : ℕ → K) (i : ℕ) : Option (Level K) :=
  after (take cap rate) none ((List.range i).map t)

def granted (cap rate : K) (t : ℕ → K) (i : ℕ) : Bool :=
  (take cap rate (stateAt cap rate t i) (t i)).1

theorem stateAt_succ (t : ℕ → K) (i : ℕ) :
    stateAt cap rate t (i + 1) = (take cap rate (stateAt cap rate t i) (t i)).2 := by
  simp [stateAt, List.range_succ, after_append]

end Step

variable {K : Type*} [Field K] [LinearOrder K] [IsStrictOrderedRing K]
variable {cap rate : K} {b : Option (Level K)} {now : K}

theorem available_nonneg (hcap : 0 ≤ cap) (hrate : 0 ≤ rate) (hb : Within cap b) (now : K) :
    0 ≤ available cap rate b now := by
  cases b with
  | none => exact hcap
  | some l => exact le_min hcap (add_nonneg (hb l rfl).1 (mul_nonneg (le_max_left ..) hrate))

theorem within_take (hcap : 0 ≤ cap) (hrate : 0 ≤ rate) (hb : Within cap b) (now : K) :
    Within cap (take cap rate b now).2 := by
  have h0 := available_nonneg hcap hrate hb now
  have hle : available cap rate b now ≤ cap := available_le b now
  intro l hl
  rcases le_or_gt 1 (available cap rate b now) with h1 | h1
  · rw [take_of_le h1] at hl
    obtain rfl := Option.some.inj hl
    exact ⟨sub_nonneg.mpr h1, (sub_le_self _ zero_le_one).trans hle⟩
  · rw [take_of_lt h1] at hl
    obtain rfl := Option.some.inj hl
    exact ⟨h0, hle⟩

theorem within_after (hcap : 0 ≤ cap) (hrate : 0 ≤ rate) (hb : Within cap b) (readings : List K) :
    Within cap (after (take cap rate) b readings) := by
  induction readings generalizing b with
  | nil => exact hb
  | cons n readings ih => exact ih (within_take hcap hrate hb n)

/-- A bucket idle for long enough to earn its capacity is as good as unused. -/
theorem available_of_idle {l : Level K} (hl : 0 ≤ l.tokens) (hrate : 0 ≤ rate)
    (hidle : cap ≤ (now - l.time) * rate) : available cap rate (some l) now = cap := by
  have hmax : (now - l.time) * rate ≤ max 0 (now - l.time) * rate :=
    mul_le_mul_of_nonneg_right (le_max_right ..) hrate
  exact min_eq_left (by linarith)

/-! ## Readings in any order -/

theorem forward_nonneg : ∀ l : List K, 0 ≤ forward l
  | [] => le_rfl
  | [_] => le_rfl
  | _ :: b :: l => add_nonneg (le_max_left ..) (forward_nonneg (b :: l))

theorem grants_some_le (hrate : 0 ≤ rate) (hcap : 0 ≤ cap) :
    ∀ (readings : List K) (x t : K), 0 ≤ x →
      (grants cap rate (some ⟨x, t⟩) readings : K) ≤ x + rate * forward (t :: readings)
  | [], x, t, hx => by simpa [grants, forward] using hx
  | n :: readings, x, t, hx => by
      have hav : available cap rate (some ⟨x, t⟩) n ≤ x + max 0 (n - t) * rate := min_le_right ..
      have h0 : 0 ≤ available cap rate (some ⟨x, t⟩) n :=
        le_min hcap (add_nonneg hx (mul_nonneg (le_max_left ..) hrate))
      rw [grants_cons, forward]
      generalize ha : available cap rate (some ⟨x, t⟩) n = a at hav h0
      rcases le_or_gt 1 a with h1 | h1
      · have ih := grants_some_le hrate hcap readings (a - 1) n (sub_nonneg.mpr h1)
        rw [take_of_le (by rwa [ha]), ha]
        push_cast
        simp only [if_true]
        linarith
      · have ih := grants_some_le hrate hcap readings a n h0
        rw [take_of_lt (by rwa [ha]), ha]
        push_cast
        linarith

/-- **The skew bound**: grants are paid by the capacity and by forward moves. -/
theorem grants_le_forward (hrate : 0 ≤ rate) (hcap : 0 ≤ cap) (hb : Within cap b)
    (readings : List K) : (grants cap rate b readings : K) ≤ cap + rate * forward readings := by
  cases readings with
  | nil => simpa [grants, forward] using hcap
  | cons n readings =>
      have hle : available cap rate b n ≤ cap := available_le b n
      have h0 : 0 ≤ available cap rate b n := available_nonneg hcap hrate hb n
      rw [grants_cons]
      rcases le_or_gt 1 (available cap rate b n) with h1 | h1
      · have h := grants_some_le hrate hcap readings _ n (sub_nonneg.mpr h1)
        rw [take_of_le h1]
        push_cast
        simp only [if_true]
        linarith
      · have h := grants_some_le hrate hcap readings _ n h0
        rw [take_of_lt h1]
        push_cast
        linarith

/-! ## What could be granted -/

/-- The bucket's own grants are affordable. -/
theorem affordable_trace (hrate : 0 ≤ rate) (hcap : 0 ≤ cap) (readings : List K) :
    Affordable cap rate (trace (take cap rate) none readings) := by
  intro before stretch later hplan
  obtain ⟨front, rest, -, -, hrest⟩ := exists_of_trace_eq_append hplan
  obtain ⟨middle, -, -, hstretch, -⟩ := exists_of_trace_eq_append hrest.symm
  rw [hstretch, trace_map_fst]
  exact grants_le_forward hrate hcap (within_after hcap hrate within_none front) middle

/-- An affordable plan leaves `x` tokens for a next request at `now` if that
request could be given them beside every stretch that ends before it. -/
theorem le_available_ledger {plan : List (K × Bool)} (x now : K)
    (h : ∀ before stretch, plan = before ++ stretch →
      x + stretch.countP Prod.snd ≤ cap + rate * forward (stretch.map Prod.fst ++ [now])) :
    x ≤ available cap rate (ledger cap rate none plan) now := by
  induction plan using List.reverseRecOn generalizing x now with
  | nil => simpa [ledger, available, forward] using h [] [] rfl
  | append_singleton plan p ih =>
      obtain ⟨m, chosen⟩ := p
      rw [ledger_concat]
      refine le_min (by simpa [forward] using h (plan ++ [(m, chosen)]) [] (by simp)) ?_
      have hm := ih (x + (if chosen then 1 else 0) - max 0 (now - m) * rate) m
        fun before stretch hplan => by
          have := h before (stretch ++ [(m, chosen)]) (by rw [hplan, List.append_assoc])
          rw [List.map_append, List.append_assoc, List.map_singleton, List.singleton_append,
            forward_concat, List.countP_append, List.countP_singleton] at this
          push_cast at this
          linarith
      linarith

/-- In an affordable plan, whoever is granted a token finds one. -/
theorem Affordable.solvent {plan : List (K × Bool)} (h : Affordable cap rate plan)
    {before later : List (K × Bool)} {m : K} (hplan : plan = before ++ (m, true) :: later) :
    1 ≤ available cap rate (ledger cap rate none before) m := by
  refine le_available_ledger 1 m fun front stretch hbefore => ?_
  have := h front (stretch ++ [(m, true)]) later (by simp [hplan, hbefore])
  rw [List.map_append, List.map_singleton, List.countP_append, List.countP_singleton] at this
  push_cast at this
  simp only [if_true] at this
  linarith

/-- A level ahead of another by `d` stays ahead of it by at most `d`. -/
theorem available_le_add {x y d t : K} (hd : 0 ≤ d) (h : y ≤ x + d) (now : K) :
    available cap rate (some ⟨y, t⟩) now ≤ available cap rate (some ⟨x, t⟩) now + d := by
  simp only [available]
  rw [← min_add_add_right]
  exact min_le_min (by linarith) (by linarith)

/-- The bucket is never behind an affordable plan: what it lacks in tokens it
has granted before. -/
theorem ledger_le_after (plan : List (K × Bool)) (h : Affordable cap rate plan) :
    plan.countP Prod.snd ≤ grants cap rate none (plan.map Prod.fst) ∧
      ∀ now, available cap rate (ledger cap rate none plan) now ≤
        available cap rate (after (take cap rate) none (plan.map Prod.fst)) now +
          (grants cap rate none (plan.map Prod.fst) - plan.countP Prod.snd) := by
  induction plan using List.reverseRecOn with
  | nil => exact ⟨le_rfl, fun now => by simp [ledger, grants]⟩
  | append_singleton plan p ih =>
      obtain ⟨m, chosen⟩ := p
      obtain ⟨hcount, hlevel⟩ := ih h.of_append
      have hm := hlevel m
      have hmore : plan.countP Prod.snd + (if chosen then 1 else 0) ≤
          grants cap rate none (plan.map Prod.fst) +
            if (take cap rate (after (take cap rate) none (plan.map Prod.fst)) m).1 then 1
            else 0 := by
        by_cases hgranted :
            (take cap rate (after (take cap rate) none (plan.map Prod.fst)) m).1 = true
        · rw [if_pos hgranted]
          split <;> omega
        · cases chosen with
          | false => simpa [hgranted] using hcount
          | true =>
              -- the plan finds a token that the bucket has not: it has granted one before
              have hone := h.solvent rfl
              rw [take_fst_iff, not_le] at hgranted
              have hlt : plan.countP Prod.snd < grants cap rate none (plan.map Prod.fst) := by
                have : (plan.countP Prod.snd : K) < grants cap rate none (plan.map Prod.fst) := by
                  linarith
                exact_mod_cast this
              simp only [if_true]
              omega
      rw [List.map_append, List.map_singleton, grants_concat, after_append, List.countP_append,
        List.countP_singleton]
      refine ⟨hmore, fun now => ?_⟩
      rw [ledger_concat, after_cons, after_nil, take_snd]
      refine available_le_add (sub_nonneg.mpr (by exact_mod_cast hmore)) ?_ now
      push_cast
      linarith

/-- **No plan does better**: an affordable plan grants at most what the bucket
grants on the same readings. -/
theorem countP_le_grants {plan : List (K × Bool)} (h : Affordable cap rate plan) :
    plan.countP Prod.snd ≤ grants cap rate none (plan.map Prod.fst) :=
  (ledger_le_after plan h).1

theorem Affordable.mono {cap' rate' : K} {plan : List (K × Bool)} (h : Affordable cap rate plan)
    (hcap : cap ≤ cap') (hrate : rate ≤ rate') : Affordable cap' rate' plan :=
  fun before stretch later hplan => (h before stretch later hplan).trans
    (add_le_add hcap (mul_le_mul_of_nonneg_right hrate (forward_nonneg _)))

/-- A larger and faster bucket grants no less: what the smaller one grants is
affordable for it. -/
theorem grants_mono {cap' rate' : K} (hrate : 0 ≤ cap → 0 ≤ rate) (hcap : cap ≤ cap')
    (hrate' : rate ≤ rate') (readings : List K) :
    grants cap rate none readings ≤ grants cap' rate' none readings := by
  rcases lt_or_ge cap 0 with hneg | hpos
  · rw [grants_of_lt_one (hneg.trans zero_lt_one)]
    exact Nat.zero_le _
  · have hplan := (affordable_trace (hrate hpos) hpos readings).mono hcap hrate'
    have hle := countP_le_grants hplan
    rwa [trace_map_fst] at hle

/-! ## Draining

Enough requests at one reading leave less than one token, and grant all the
others: nothing is lost but the fraction that stays in the bucket. -/

/-- `k + 1` requests at `now`, more than the tokens they find, grant all of
these but a fraction below one. -/
theorem drain (now : K) (k : ℕ) :
    ∀ b : Option (Level K), 0 ≤ available cap rate b now → available cap rate b now < k + 1 →
      ∃ y, 0 ≤ y ∧ y < 1 ∧
        (grants cap rate b (List.replicate (k + 1) now) : K) = available cap rate b now - y ∧
        after (take cap rate) b (List.replicate (k + 1) now) = some ⟨y, now⟩ := by
  induction k with
  | zero =>
      intro b h0 h1
      simp only [Nat.cast_zero, zero_add] at h1
      refine ⟨available cap rate b now, h0, h1, ?_, ?_⟩
      · simp [List.replicate, take_of_lt h1, grants]
      · simp [List.replicate, take_of_lt h1]
  | succ k ih =>
      intro b h0 hk
      push_cast at hk
      have hle : available cap rate b now ≤ cap := available_le b now
      rw [List.replicate_succ, grants_cons, after_cons]
      generalize ha : available cap rate b now = a at h0 hk hle
      rcases le_or_gt 1 a with h1 | h1
      · have hself : available cap rate (some ⟨a - 1, now⟩) now = a - 1 :=
          available_self (by linarith)
        obtain ⟨y, hy0, hy1, hg, haft⟩ := ih (some ⟨a - 1, now⟩)
          (by rw [hself]; linarith) (by rw [hself]; linarith)
        rw [take_of_le (by rwa [ha]), ha]
        refine ⟨y, hy0, hy1, ?_, haft⟩
        rw [hself] at hg
        push_cast
        simp only [if_true, hg]
        ring
      · rw [take_of_lt (by rwa [ha]), ha]
        obtain ⟨hg, haft⟩ := @drain_empty K _ _ cap rate _ now h1 hle (k + 1)
        exact ⟨a, h0, h1, by simp [hg], haft⟩

/-- From a drained level, a paced path whose moves never fill the bucket
grants what its forward moves earn, up to the last token. -/
theorem grants_paced_gt (hrate : 0 ≤ rate) (hcap : 1 ≤ cap) {k : ℕ} (hk : cap < k + 1)
    {D : K} (hD : rate * D + 1 ≤ cap) :
    ∀ (path : List K) (x t : K), 0 ≤ x → x < 1 → (∀ n ∈ path, n - t ≤ D) →
      path.Pairwise (fun m n => n - m ≤ D) →
      x + rate * forward (t :: path) - 1 <
        (grants cap rate (some ⟨x, t⟩) (paced (k + 1) path) : K)
  | [], x, t, hx, hx1, _, _ => by simp [grants, forward, paced]; linarith
  | n :: path, x, t, hx, hx1, ht, hp => by
      have hmove : max 0 (n - t) * rate ≤ rate * D ∨ max 0 (n - t) = 0 := by
        rcases le_total 0 (n - t) with h | h
        · left
          rw [max_eq_right h, mul_comm]
          exact mul_le_mul_of_nonneg_left (ht n (List.mem_cons_self ..)) hrate
        · exact Or.inr (max_eq_left h)
      have hav : available cap rate (some ⟨x, t⟩) n = x + max 0 (n - t) * rate := by
        refine min_eq_right ?_
        rcases hmove with h | h
        · linarith
        · rw [h]; linarith
      have h0 : 0 ≤ x + max 0 (n - t) * rate :=
        add_nonneg hx (mul_nonneg (le_max_left ..) hrate)
      have hlt : available cap rate (some ⟨x, t⟩) n < k + 1 :=
        (available_le ..).trans_lt hk
      obtain ⟨y, hy0, hy1, hg, haft⟩ := drain n k (some ⟨x, t⟩) (by rwa [hav]) hlt
      obtain ⟨hnp, hp'⟩ := List.pairwise_cons.mp hp
      have ih := grants_paced_gt hrate hcap hk hD path y n hy0 hy1 hnp hp'
      have hsplit : paced (k + 1) (n :: path) =
          List.replicate (k + 1) n ++ paced (k + 1) path := rfl
      rw [hsplit, grants_append, haft, forward]
      push_cast
      rw [hg, hav]
      linarith

/-- **The skew bound is reached**: unless the path's forward moves stay within
`d`, some bucket that is large and fast enough, and some pacing of the path,
grant more than `cap + rate * d`. The bucket fills in the time `w`. -/
theorem exists_grants_gt [Archimedean K] {path : List K} {d D w : K} (hd0 : 0 ≤ d)
    (hd : d < forward path) (hD : path.Pairwise fun m n => n - m ≤ D) (hw : 0 < w) (hDw : D < w) :
    ∃ m k : ℕ, 1 ≤ m * w ∧
      (m * w : K) + m * d < grants (m * w) (m : K) none (paced (k + 1) path) := by
  obtain ⟨m₁, h₁⟩ := exists_nat_ge (1 / (forward path - d))
  obtain ⟨m₂, h₂⟩ := exists_nat_ge (1 / (w - D))
  obtain ⟨m₃, h₃⟩ := exists_nat_ge (1 / w)
  have hfd : 0 < forward path - d := sub_pos.mpr hd
  have hwD : 0 < w - D := sub_pos.mpr hDw
  rw [div_le_iff₀ hfd] at h₁
  rw [div_le_iff₀ hwD] at h₂
  rw [div_le_iff₀ hw] at h₃
  obtain ⟨m, hm1, hm2, hm3⟩ : ∃ m : ℕ, m₁ ≤ m ∧ m₂ ≤ m ∧ m₃ ≤ m :=
    ⟨m₁ + m₂ + m₃, by omega, by omega, by omega⟩
  have hgain : 1 ≤ (m : K) * (forward path - d) := h₁.trans (by gcongr)
  have hroom : (m : K) * D + 1 ≤ m * w := by
    have : 1 ≤ (m : K) * (w - D) := h₂.trans (by gcongr)
    linarith
  have hcap : 1 ≤ (m : K) * w := h₃.trans (by gcongr)
  obtain ⟨k, hk⟩ := exists_nat_gt ((m : K) * w)
  have hk' : (m : K) * w < k + 1 := hk.trans (lt_add_one _)
  refine ⟨m, k, hcap, ?_⟩
  cases path with
  | nil => exact absurd hd (not_lt.mpr hd0)
  | cons n path =>
      obtain ⟨hn, hp⟩ := List.pairwise_cons.mp hD
      -- the first reading drains a full bucket, the others what they earn
      obtain ⟨y, hy0, hy1, hg, haft⟩ := @drain K _ _ _ (m * w) m n k none
        (zero_le_one.trans hcap) hk'
      have h := grants_paced_gt (Nat.cast_nonneg m) hcap hk' hroom path y n hy0 hy1 hn hp
      have hsplit : paced (k + 1) (n :: path) =
          List.replicate (k + 1) n ++ paced (k + 1) path := rfl
      rw [hsplit, grants_append, haft]
      push_cast
      rw [hg]
      simp only [available]
      linarith

/-! ## Readings in order: the envelope -/

section Envelope

variable (cap rate) (t : ℕ → K)

/-- What request `i + 1` finds: what request `i` left, and what was earned since. -/
theorem available_succ (ht : Monotone t) (i : ℕ) :
    available cap rate (stateAt cap rate t (i + 1)) (t (i + 1)) =
      min cap (available cap rate (stateAt cap rate t i) (t i)
        - (if granted cap rate t i then 1 else 0) + (t (i + 1) - t i) * rate) := by
  have hmax : max 0 (t (i + 1) - t i) = t (i + 1) - t i :=
    max_eq_right (sub_nonneg.mpr (ht (Nat.le_succ i)))
  rw [stateAt_succ, granted]
  rcases le_or_gt 1 (available cap rate (stateAt cap rate t i) (t i)) with h | h
  · rw [take_of_le h]; simp only [available, hmax, if_true]
  · rw [take_of_lt h]; simp only [available, hmax, Bool.false_eq_true, if_false, sub_zero]

/-- **The envelope.** `x` tokens are there for request `i` iff no earlier
request started a stretch whose grants, with `x` more, exceed the line
`cap + rate * Δ`. -/
theorem envelope (ht : Monotone t) (i : ℕ) (x : K) :
    x ≤ available cap rate (stateAt cap rate t i) (t i) ↔
      ∀ j ≤ i, x + tally (granted cap rate t) j i ≤ cap + rate * (t i - t j) := by
  induction i generalizing x with
  | zero =>
      simp only [Nat.le_zero_eq, forall_eq, tally_self, sub_self, mul_zero, Nat.cast_zero,
        add_zero]
      rfl
  | succ i ih =>
      rw [available_succ cap rate t ht, le_min_iff]
      have hstep : x ≤ available cap rate (stateAt cap rate t i) (t i)
          - (if granted cap rate t i then 1 else 0) + (t (i + 1) - t i) * rate ↔
          x + (if granted cap rate t i then 1 else 0) - (t (i + 1) - t i) * rate ≤
            available cap rate (stateAt cap rate t i) (t i) := by
        constructor <;> intro h <;> linarith
      rw [hstep, ih]
      constructor
      · rintro ⟨hcap, h⟩ j hj
        rcases Nat.le_succ_iff.mp hj with hji | rfl
        · have := h j hji
          rw [tally_succ _ hji]
          push_cast
          linarith
        · simpa [tally_self] using hcap
      · intro h
        refine ⟨by simpa [tally_self] using h (i + 1) le_rfl, fun j hj => ?_⟩
        have := h j (Nat.le_succ_of_le hj)
        rw [tally_succ _ hj] at this
        push_cast at this
        linarith

end Envelope

/-! ## Readings in order: the budget of an interval -/

/-- The grants `adm` of a run in order of time, kept in account with the level
the run left: from every `x` on, grants and remaining tokens stay under the
line, and so do the grants of every closed interval. -/
structure Accounts (cap rate : K) (l : Level K) (adm : List K) : Prop where
  nonneg : 0 ≤ l.tokens
  past : ∀ t ∈ adm, t ≤ l.time
  since : ∀ x ≤ l.time, (adm.countP (fun t => x ≤ t) : K) + l.tokens ≤ cap + rate * (l.time - x)
  interval : ∀ x y, x ≤ y → (Timeline.within x y adm : K) ≤ cap + rate * (y - x)

/-- The books after the run `adm` of requests that left the bucket at `b`. -/
def Balanced (cap rate : K) (b : Option (Level K)) (adm : List K) : Prop :=
  match b with
  | none => adm = []
  | some l => Accounts cap rate l adm

/-- What the books say before a request is paid: the grants since `x` and the
tokens it finds stay under the line. -/
theorem Balanced.available_le {adm : List K} (h : Balanced cap rate b adm) (hrate : 0 ≤ rate)
    (hnow : ∀ l, b = some l → l.time ≤ now) {x : K} (hx : x ≤ now) :
    (adm.countP (fun t => x ≤ t) : K) + available cap rate b now ≤ cap + rate * (now - x) := by
  have hearn : 0 ≤ rate * (now - x) := mul_nonneg hrate (sub_nonneg.mpr hx)
  cases b with
  | none =>
      obtain rfl : adm = [] := h
      simpa [available] using hearn
  | some l =>
      have hl : l.time ≤ now := hnow l rfl
      rcases le_or_gt x l.time with hxl | hxl
      · have hav : available cap rate (some l) now ≤ l.tokens + (now - l.time) * rate := by
          rw [← max_eq_right (sub_nonneg.mpr hl)]
          exact min_le_right ..
        have := Accounts.since h x hxl
        linarith
      · -- no grant is later than the level, so none is counted from `x` on
        have h0 : adm.countP (fun t => x ≤ t) = 0 :=
          List.countP_eq_zero.mpr fun t ht => by
            simpa using (Accounts.past h t ht).trans_lt hxl
        have : available cap rate (some l) now ≤ cap := Bucket.available_le (some l) now
        rw [h0]
        push_cast
        linarith

theorem Balanced.interval {adm : List K} (h : Balanced cap rate b adm) (hcap : 0 ≤ cap)
    (hrate : 0 ≤ rate) {x y : K} (hxy : x ≤ y) :
    (Timeline.within x y adm : K) ≤ cap + rate * (y - x) := by
  cases b with
  | none =>
      obtain rfl : adm = [] := h
      simpa using add_nonneg hcap (mul_nonneg hrate (sub_nonneg.mpr hxy))
  | some l => exact Accounts.interval h x y hxy

theorem Balanced.available_nonneg {adm : List K} (h : Balanced cap rate b adm) (hcap : 0 ≤ cap)
    (hrate : 0 ≤ rate) : 0 ≤ available cap rate b now := by
  cases b with
  | none => exact hcap
  | some l =>
      exact le_min hcap (add_nonneg (Accounts.nonneg h) (mul_nonneg (le_max_left ..) hrate))

theorem balanced_take (hcap : 0 ≤ cap) (hrate : 0 ≤ rate) {adm : List K}
    (h : Balanced cap rate b adm) (hnow : ∀ l, b = some l → l.time ≤ now) :
    Balanced cap rate (take cap rate b now).2
      (adm ++ if (take cap rate b now).1 then [now] else []) := by
  have hav0 : 0 ≤ available cap rate b now := h.available_nonneg hcap hrate
  have hpast : ∀ t ∈ adm, t ≤ now := by
    cases b with
    | none => obtain rfl : adm = [] := h; simp
    | some l => exact fun t ht => (Accounts.past h t ht).trans (hnow l rfl)
  -- the common shape of both answers: `c` grants at `now`, `a - c` tokens left
  have key : ∀ (c : K) (new : List K), c = new.length → (∀ t ∈ new, t = now) →
      0 ≤ available cap rate b now - c →
      Accounts cap rate ⟨available cap rate b now - c, now⟩ (adm ++ new) := by
    intro c new hc hnew hleft
    have hle : ∀ t ∈ adm ++ new, t ≤ now := fun t ht =>
      (List.mem_append.mp ht).elim (hpast t) fun h => (hnew t h).le
    have hcount : ∀ x ≤ now, (adm ++ new).countP (fun t => x ≤ t) =
        adm.countP (fun t => x ≤ t) + new.length := fun x hx => by
      have hall : new.countP (fun t => x ≤ t) = new.length :=
        List.countP_eq_length.mpr fun t ht => by simpa [hnew t ht] using hx
      rw [List.countP_append, hall]
    refine ⟨hleft, hle, fun x hx => ?_, fun x y hxy => ?_⟩
    · have := h.available_le hrate hnow hx
      rw [hcount x hx]
      push_cast
      linarith
    · rcases le_or_gt now y with hy | hy
      · rw [within_eq_of_le fun t ht => (hle t ht).trans hy]
        rcases le_or_gt x now with hx | hx
        · have := h.available_le hrate hnow hx
          have : rate * (now - x) ≤ rate * (y - x) := by gcongr
          rw [hcount x hx]
          push_cast
          linarith
        · rw [List.countP_eq_zero.mpr fun t ht => by simpa using (hle t ht).trans_lt hx]
          simpa using add_nonneg hcap (mul_nonneg hrate (sub_nonneg.mpr hxy))
      · have h0 : Timeline.within x y new = 0 :=
          List.countP_eq_zero.mpr fun t ht => by simp [hnew t ht, hy]
        rw [within_append, h0, add_zero]
        exact h.interval hcap hrate hxy
  rcases le_or_gt 1 (available cap rate b now) with h1 | h1
  · rw [take_of_le h1]
    exact key 1 [now] (by simp) (by simp) (sub_nonneg.mpr h1)
  · rw [take_of_lt h1]
    have := key 0 [] (by simp) (by simp) (by simpa using hav0)
    rwa [sub_zero] at this

/-! ## Runs in order -/

theorem within_grantTimes_le (hcap : 0 ≤ cap) (hrate : 0 ≤ rate) {readings : List K}
    (horder : readings.Pairwise (· ≤ ·)) {x y : K} (hxy : x ≤ y) :
    (Timeline.within x y (grantTimes cap rate readings) : K) ≤ cap + rate * (y - x) := by
  have h := trace_invariant (take cap rate) (I := fun past b =>
      Balanced cap rate b (picked (fun t => t) (fun granted => granted) past) ∧
        ∀ l, b = some l → ∃ p ∈ past, p.1 = l.time) (P := fun _ => True) (s := none) horder
    (fun _ _ => trivial) ⟨rfl, fun _ h => nomatch h⟩ ?_
  · exact h.1.interval hcap hrate hxy
  · rintro past b now ⟨hbal, hlast⟩ hnow -
    refine ⟨?_, fun l hl => ⟨(now, (take cap rate b now).1), by simp, ?_⟩⟩
    · rw [picked_append, picked_singleton]
      refine balanced_take hcap hrate hbal fun l hl => ?_
      obtain ⟨p, hp, hpl⟩ := hlast l hl
      exact hpl ▸ hnow p hp
    · rw [take_snd] at hl
      exact congrArg Level.time (Option.some.inj hl)

/-- A bucket of whole size, given more requests than it can hold, grants its
size and is empty. -/
theorem drain_whole {n : ℕ} (b : Option (Level K)) (now : K)
    (h : available (n : K) rate b now = n) :
    grants (n : K) rate b (List.replicate (n + 1) now) = n ∧
      after (take (n : K) rate) b (List.replicate (n + 1) now) = some ⟨0, now⟩ := by
  obtain ⟨y, hy0, hy1, hg, haft⟩ := drain now n b
    (by rw [h]; exact Nat.cast_nonneg n) (by rw [h]; exact lt_add_one _)
  rw [h] at hg
  -- the fraction left is a whole number below one
  have hle : grants (n : K) rate b (List.replicate (n + 1) now) ≤ n := by
    have : (grants (n : K) rate b (List.replicate (n + 1) now) : K) ≤ n := by linarith
    exact_mod_cast this
  have hge : n ≤ grants (n : K) rate b (List.replicate (n + 1) now) := by
    have : (n : K) < grants (n : K) rate b (List.replicate (n + 1) now) + 1 := by linarith
    exact Nat.lt_succ_iff.mp (by exact_mod_cast this)
  have heq := le_antisymm hle hge
  rw [heq] at hg
  have hy : y = 0 := by linarith
  exact ⟨heq, hy ▸ haft⟩

/-- Two bursts, a full refill apart, are both granted the whole capacity. -/
theorem grants_two_bursts {n : ℕ} {t t' : K} (htt : t ≤ t') (hfull : (n : K) ≤ (t' - t) * rate) :
    grants (n : K) rate none (List.replicate (n + 1) t ++ List.replicate (n + 1) t') = 2 * n := by
  obtain ⟨h1, haft⟩ := @drain_whole K _ _ _ rate n none t rfl
  have hav : available (n : K) rate (some ⟨0, t⟩) t' = n := by
    rw [available, max_eq_right (sub_nonneg.mpr htt)]
    exact min_eq_left (by simpa using hfull)
  obtain ⟨h2, -⟩ := drain_whole (some ⟨0, t⟩) t' hav
  rw [grants_append, haft, h1, h2, two_mul]

/-! ## Refusals

A refused request takes nothing and, in order of time, costs nothing: the next
one finds what it would have found without it. So how long to wait is known
from the first refusal on. -/

/-- What a request finds iff the level and the time since earn it. -/
theorem le_available_iff {x t y : K} (hy : y ≤ cap) (hnow : t ≤ now) :
    y ≤ available cap rate (some ⟨x, t⟩) now ↔ y ≤ x + (now - t) * rate := by
  rw [available, max_eq_right (sub_nonneg.mpr hnow), le_min_iff, and_iff_right hy]

/-- When the next token is there. -/
theorem one_le_available_iff {x t : K} (hcap : 1 ≤ cap) (hrate : 0 < rate) (hnow : t ≤ now) :
    1 ≤ available cap rate (some ⟨x, t⟩) now ↔ (1 - x) / rate ≤ now - t := by
  rw [le_available_iff hcap hnow, div_le_iff₀ hrate, sub_le_iff_le_add']

/-- A refused request has found the level and all that was earned since. -/
theorem available_of_lt {x t : K} (hcap : 1 ≤ cap) (hnow : t ≤ now)
    (h : available cap rate (some ⟨x, t⟩) now < 1) :
    available cap rate (some ⟨x, t⟩) now = x + (now - t) * rate := by
  rw [available, max_eq_right (sub_nonneg.mpr hnow)] at h ⊢
  exact min_eq_right ((min_lt_iff.mp h).elim (fun hc => absurd hcap (not_le.mpr hc))
    fun hx => (hx.trans_le hcap).le)

theorem available_refused {x t m : K} (hcap : 1 ≤ cap) (hm : t ≤ m) (hnow : m ≤ now)
    (h : available cap rate (some ⟨x, t⟩) m < 1) :
    available cap rate (some ⟨available cap rate (some ⟨x, t⟩) m, m⟩) now =
      available cap rate (some ⟨x, t⟩) now := by
  rw [available_of_lt hcap hm h, available, available, max_eq_right (sub_nonneg.mpr hnow),
    max_eq_right (sub_nonneg.mpr (hm.trans hnow))]
  congr 1
  ring

/-- **Refused requests cost nothing**, however many there are. -/
theorem available_after_refused (hcap : 1 ≤ cap) {x t : K} {times : List K}
    (horder : (t :: times).Pairwise (· ≤ ·))
    (hrefused : ∀ p ∈ trace (take cap rate) (some ⟨x, t⟩) times, p.2 = false)
    (hnow : ∀ m ∈ t :: times, m ≤ now) :
    available cap rate (after (take cap rate) (some ⟨x, t⟩) times) now =
      available cap rate (some ⟨x, t⟩) now := by
  induction times generalizing x t with
  | nil => rfl
  | cons m times ih =>
      obtain ⟨hle, htail⟩ := List.pairwise_cons.mp horder
      have hm : available cap rate (some ⟨x, t⟩) m < 1 := by
        have hfirst := hrefused _ (List.mem_cons_self ..)
        exact not_le.mp fun h1 => by simp [take_of_le h1] at hfirst
      have htaken : (take cap rate (some ⟨x, t⟩) m).2 =
          some ⟨available cap rate (some ⟨x, t⟩) m, m⟩ := by rw [take_of_lt hm]
      rw [after_cons, htaken]
      rw [trace_cons, htaken] at hrefused
      rw [ih htail (fun p hp => hrefused p (List.mem_cons_of_mem _ hp))
        fun m' hm' => hnow m' (List.mem_cons_of_mem _ hm')]
      exact available_refused hcap (hle m (List.mem_cons_self ..))
        (hnow m (List.mem_cons_of_mem _ (List.mem_cons_self ..))) hm

end Bucket
