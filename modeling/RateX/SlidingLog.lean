import Mathlib.Data.Set.Finite.Lattice
import RateX.Timeline
import RateX.Transducer

/-!
# The log limiter

The reference for every sliding window: keep the instant of each admitted
request for ever and admit while fewer than `L` of them are younger than `W`.
`Sparse` is what such a log satisfies, for any set of instants that fits into
less than `W`: closed intervals shorter than `W` and half-open ones of length
`W`, closed on either side, are all of them instances. `Sparse.concat` is the
one induction step; it serves limiters that see only part of the log as well.
-/

namespace SlidingLog

open Timeline Transducer

variable {K : Type*} [Field K] [LinearOrder K]

/-- No set of instants less than `W` apart holds more than `L` of the list. -/
def Sparse (W : K) (L : ℤ) (ts : List K) : Prop :=
  ∀ I : K → Bool, (∀ x y, I x → I y → x - y < W) → (ts.countP I : ℤ) ≤ L

/-- What the limiter counts at `now`. -/
def counted (W : K) (log : List K) (now : K) : List K :=
  log.filter fun t => now - W < t ∧ t ≤ now

/-- The instants of the log less than `W` before `now`. -/
def young (W : K) (log : List K) (now : K) : List K := log.filter fun t => now - W < t

def serve (W : K) (L : ℤ) (log : List K) (now : K) : Bool × List K :=
  if ((counted W log now).length : ℤ) < L then (true, log ++ [now]) else (false, log)

theorem serve_of_lt {W : K} {L : ℤ} {log : List K} {now : K}
    (h : ((counted W log now).length : ℤ) < L) : serve W L log now = (true, log ++ [now]) :=
  if_pos h

theorem serve_of_le {W : K} {L : ℤ} {log : List K} {now : K}
    (h : L ≤ ((counted W log now).length : ℤ)) : serve W L log now = (false, log) :=
  if_neg (not_lt.mpr h)

theorem sparse_nil (W : K) {L : ℤ} (hL : 0 ≤ L) : Sparse W L [] := fun _ _ => by simpa using hL

/-- Of what is not later than `now`, the young part is counted. -/
theorem counted_eq {W now : K} {log : List K} (h : ∀ t ∈ log, t ≤ now) :
    counted W log now = young W log now :=
  List.filter_congr fun t ht => by simpa using fun _ => h t ht

theorem length_young (W : K) (log : List K) (now : K) :
    (young W log now).length = log.countP fun t => now - W < t :=
  List.countP_eq_length_filter.symm

theorem young_append (W : K) (log new : List K) (now : K) :
    young W (log ++ new) now = young W log now ++ young W new now := List.filter_append ..

variable [IsStrictOrderedRing K]

theorem young_self {W : K} (hW : 0 < W) (now : K) : young W [now] now = [now] := by
  simp [young, hW]

/-- An instant after all others may join when fewer than `L` of them are
younger than `W`. -/
theorem Sparse.concat {W : K} {L : ℤ} {ts : List K} (h : Sparse W L ts) {now : K}
    (hcount : (ts.countP (fun t => now - W < t) : ℤ) < L) : Sparse W L (ts ++ [now]) := by
  intro I hI
  rw [List.countP_append, List.countP_singleton]
  cases hnow : I now with
  | false => simpa using h I hI
  | true =>
      have hle : ts.countP I ≤ ts.countP fun t => now - W < t :=
        List.countP_mono_left fun t _ ht => by
          have := hI now t hnow ht
          simp only [decide_eq_true_eq]
          linarith
      push_cast
      simp only [if_true]
      omega

theorem Sparse.within {W : K} {L : ℤ} {ts : List K} (h : Sparse W L ts) {a b : K}
    (hab : b - a < W) : (within a b ts : ℤ) ≤ L :=
  h (fun t => a ≤ t ∧ t ≤ b) fun x y hx hy => by
    simp only [decide_eq_true_eq] at hx hy
    linarith [hx.2, hy.1]

theorem Sparse.halfOpen {W : K} {L : ℤ} {ts : List K} (h : Sparse W L ts) (c : K) :
    (ts.countP (fun t => c - W < t ∧ t ≤ c) : ℤ) ≤ L :=
  h _ fun x y hx hy => by
    simp only [decide_eq_true_eq] at hx hy
    linarith [hx.2, hy.1]

theorem Sparse.halfOpen' {W : K} {L : ℤ} {ts : List K} (h : Sparse W L ts) (c : K) :
    (ts.countP (fun t => c ≤ t ∧ t < c + W) : ℤ) ≤ L :=
  h _ fun x y hx hy => by
    simp only [decide_eq_true_eq] at hx hy
    linarith [hx.2, hy.1]

/-- One request at or after every instant of the log keeps it sparse. -/
theorem sparse_serve {W : K} {L : ℤ} {log : List K} (h : Sparse W L log) {now : K}
    (hlog : ∀ t ∈ log, t ≤ now) : Sparse W L (serve W L log now).2 := by
  rcases lt_or_ge ((counted W log now).length : ℤ) L with hlt | hge
  · rw [serve_of_lt hlt]
    rw [counted_eq hlog, length_young] at hlt
    exact h.concat hlt
  · rw [serve_of_le hge]
    exact h

section Interval

variable [FloorRing K]

/-- A sparse list in a closed interval of any length. -/
theorem Sparse.within_le {W : K} (hW : 0 < W) {L : ℤ} (hL : 0 ≤ L) {ts : List K}
    (h : Sparse W L ts) (a T : K) :
    (Timeline.within a (a + T) ts : ℤ) ≤ L * (⌈T / W⌉₊ + 1) := by
  have hcell : ∀ c : K, ts.countP (fun t => c - W < t ∧ t ≤ c) ≤ L.toNat := fun c => by
    have := h.halfOpen c
    omega
  have hnat := within_le_of_halfOpen hW hcell a T
  calc (Timeline.within a (a + T) ts : ℤ) ≤ ((L.toNat * (⌈T / W⌉₊ + 1) : ℕ) : ℤ) := by
        exact_mod_cast hnat
    _ = L * (⌈T / W⌉₊ + 1) := by push_cast [Int.toNat_of_nonneg hL]; rfl

end Interval

/-! ## A larger limit

Greedy stays ahead: by every instant, the log with the larger limit has admitted
as many as the one with the smaller. Where it refuses a request that the other
admits, its window is full, and what came before the window it has admitted too. -/

section Ahead

variable {K : Type*} [Field K] [LinearOrder K]

/-- By any instant no more of `log` has come than of `log'`. -/
def Behind (log log' : List K) : Prop :=
  ∀ x, log.countP (fun t => t ≤ x) ≤ log'.countP fun t => t ≤ x

theorem Behind.length_le {log log' : List K} (h : Behind log log') : log.length ≤ log'.length := by
  obtain ⟨x, hx⟩ := (List.finite_toSet log).bddAbove
  calc log.length = log.countP fun t => t ≤ x :=
        (List.countP_eq_length.mpr fun t ht => decide_eq_true (hx ht)).symm
    _ ≤ log'.countP fun t => t ≤ x := h x
    _ ≤ log'.length := List.countP_le_length

/-- What is not counted at `now` was admitted a window before. -/
theorem length_eq_add_counted {W now : K} {log : List K} (hlog : ∀ t ∈ log, t ≤ now) :
    log.length = log.countP (fun t => t ≤ now - W) + (counted W log now).length := by
  rw [counted_eq hlog, length_young, List.length_eq_countP_add_countP fun t => t ≤ now - W]
  congr 1
  exact List.countP_congr fun t _ => by simp

theorem behind_serve {W : K} {L L' : ℤ} (hL : L ≤ L') {log log' : List K} (h : Behind log log')
    {now : K} (hlog : ∀ t ∈ log, t ≤ now) (hlog' : ∀ t ∈ log', t ≤ now) :
    Behind (serve W L log now).2 (serve W L' log' now).2 := by
  rcases lt_or_ge ((counted W log' now).length : ℤ) L' with hlt' | hge'
  · rw [serve_of_lt hlt']
    intro x
    rcases lt_or_ge ((counted W log now).length : ℤ) L with hlt | hge
    · rw [serve_of_lt hlt, List.countP_append, List.countP_append]
      exact Nat.add_le_add_right (h x) _
    · rw [serve_of_le hge, List.countP_append]
      exact (h x).trans (Nat.le_add_right ..)
  · rw [serve_of_le hge']
    rcases lt_or_ge ((counted W log now).length : ℤ) L with hlt | hge
    · rw [serve_of_lt hlt]
      have hfull : log.length + 1 ≤ log'.length := by
        have hold := h (now - W)
        rw [length_eq_add_counted (W := W) hlog, length_eq_add_counted (W := W) hlog']
        omega
      intro x
      rw [List.countP_append, List.countP_singleton]
      rcases lt_or_ge x now with hx | hx
      · simpa [not_le.mpr hx] using h x
      · have hall : log'.countP (fun t => t ≤ x) = log'.length :=
          List.countP_eq_length.mpr fun t ht => decide_eq_true ((hlog' t ht).trans hx)
        have hle : log.countP (fun t => t ≤ x) ≤ log.length := List.countP_le_length
        rw [hall]
        simp only [hx, decide_true, if_true]
        omega
    · rw [serve_of_le hge]
      exact h

/-- What a request leaves in the log was there, or is its own instant. -/
theorem mem_serve {W now t : K} {L : ℤ} {log : List K} (ht : t ∈ (serve W L log now).2) :
    t ∈ log ∨ t = now := by
  unfold serve at ht
  split at ht
  · exact (List.mem_append.mp ht).imp_right List.mem_singleton.mp
  · exact .inl ht

/-- **A larger limit stays ahead**, over every run in order of time. -/
theorem behind_after {W : K} {L L' : ℤ} (hL : L ≤ L') {times : List K}
    (horder : times.Pairwise (· ≤ ·)) :
    Behind (after (serve W L) [] times) (after (serve W L') [] times) := by
  have hbehind := (trace_observe (serve W L) (serve W L') id (fun _ => ()) (fun _ => ()) times
    (S := fun past log log' => Behind log log' ∧ ∀ t ∈ log ++ log', ∃ p ∈ past, p.1 = t)
    (P := fun _ => True) horder (fun _ _ => trivial) (s := []) (t := [])
    ⟨fun _ => le_rfl, fun _ ht => nomatch ht⟩ ?_).2.1
  · simpa only [List.map_id] using hbehind
  · rintro past log log' now ⟨h, hdrawn⟩ hpast -
    have hle : ∀ t ∈ log ++ log', t ≤ now := fun t ht => by
      obtain ⟨p, hp, rfl⟩ := hdrawn t ht
      exact hpast p hp
    refine ⟨rfl, behind_serve hL h (fun t ht => hle t (List.mem_append_left _ ht))
      fun t ht => hle t (List.mem_append_right _ ht), fun t ht => ?_⟩
    have hmem : t ∈ log ++ log' ∨ t = now := by
      rcases List.mem_append.mp ht with ht | ht
      · exact (mem_serve ht).imp_left (List.mem_append_left _)
      · exact (mem_serve ht).imp_left (List.mem_append_right _)
    rcases hmem with hold | rfl
    · obtain ⟨p, hp, hpt⟩ := hdrawn t hold
      exact ⟨p, List.mem_append_left _ hp, hpt⟩
    · exact ⟨(t, _), List.mem_append_right _ (List.mem_singleton.mpr rfl), rfl⟩

end Ahead

end SlidingLog
