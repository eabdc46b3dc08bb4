import Mathlib.Algebra.Order.Floor.Ring
import Mathlib.Order.Interval.Finset.Nat
import Mathlib.Algebra.Order.Field.Basic
import Mathlib.Tactic.Linarith
import Mathlib.Tactic.FieldSimp
import Mathlib.Tactic.Ring

/-!
# Instants on a line, and how many fall where

Counting lemmas for a finite list of instants: how many lie in a closed
interval (`within`), and what a bound per cell of a partition says of an
interval that meets several cells. Two partitions are used: the aligned one
(`⌊t / W⌋`) and the half-open cells laid off from the interval's own start.
Both leave the same bound, `L * (⌈T / W⌉₊ + 1)`.
-/

namespace Timeline

section Fibers

variable {α : Type*}

/-- With at most `L` elements to each value of `f`, and `k + 1` values in
reach, a list has at most `L * (k + 1)` elements. -/
theorem length_le_of_fibers (f : α → ℤ) {L : ℕ} (m : ℤ) (k : ℕ) (l : List α)
    (hL : ∀ c, l.countP (fun x => f x = c) ≤ L)
    (hf : ∀ x ∈ l, m ≤ f x ∧ f x ≤ m + k) : l.length ≤ L * (k + 1) := by
  induction k generalizing l with
  | zero =>
      have hall : l.countP (fun x => f x = m) = l.length :=
        List.countP_eq_length.mpr fun x hx => by
          have := hf x hx
          simp only [decide_eq_true_eq]
          omega
      have := hL m
      omega
  | succ k ih =>
      -- the top fiber is split off; what is left has one value fewer
      have hsplit := List.length_eq_countP_add_countP (fun x => decide (f x = m + (k + 1 : ℕ)))
        (l := l)
      have hrest : (l.filter fun x => ¬ f x = m + (k + 1 : ℕ)).length ≤ L * (k + 1) := by
        refine ih _ (fun c => ?_) fun x hx => ?_
        · exact le_trans (List.Sublist.countP_le List.filter_sublist) (hL c)
        · obtain ⟨hxl, hne⟩ := List.mem_filter.mp hx
          have := hf x hxl
          simp only [decide_eq_true_eq] at hne
          push_cast at *
          omega
      rw [← List.countP_eq_length_filter] at hrest
      have htop := hL (m + (k + 1 : ℕ))
      have hneg : l.countP (fun x => decide ¬(decide (f x = m + (k + 1 : ℕ)) = true))
          = l.countP fun x => ¬ f x = m + (k + 1 : ℕ) :=
        List.countP_congr fun x _ => by simp
      rw [hneg] at hsplit
      calc l.length ≤ L + L * (k + 1) := by omega
        _ = L * (k + 1 + 1) := by ring

/-- When an element is chosen only while fewer than `n` of its kind precede
it, at most `n` of the kind are chosen. -/
theorem countP_le_of_preceding (kind chosen : α → Bool) {n : ℕ} {l : List α}
    (h : ∀ before x after, l = before ++ x :: after → kind x = true → chosen x = true →
      before.countP kind < n) : l.countP (fun x => kind x && chosen x) ≤ n := by
  induction l using List.reverseRecOn with
  | nil => exact Nat.zero_le n
  | append_singleton l x ih =>
      have hl : l.countP (fun x => kind x && chosen x) ≤ n := by
        refine ih fun before y after hsplit => h before y (after ++ [x]) ?_
        rw [hsplit, List.append_assoc, List.cons_append]
      rw [List.countP_append, List.countP_singleton]
      cases hx : kind x && chosen x with
      | false => simpa using hl
      | true =>
          obtain ⟨hk, hc⟩ := Bool.and_eq_true_iff.mp hx
          have hlt := h l x [] rfl hk hc
          have hle : l.countP (fun x => kind x && chosen x) ≤ l.countP kind :=
            List.countP_mono_left fun y _ hy => (Bool.and_eq_true_iff.mp hy).1
          simp only [if_true]
          omega

end Fibers

section Picked

variable {K ι ο : Type*}

/-- The instants of the inputs whose answer is `ok`. -/
def picked (time : ι → K) (ok : ο → Bool) (tr : List (ι × ο)) : List K :=
  tr.filterMap fun p => if ok p.2 then some (time p.1) else none

variable {time : ι → K} {ok : ο → Bool}

@[simp] theorem picked_nil : picked time ok [] = [] := rfl

theorem picked_append (tr us : List (ι × ο)) :
    picked time ok (tr ++ us) = picked time ok tr ++ picked time ok us :=
  List.filterMap_append ..

theorem picked_singleton (i : ι) (o : ο) :
    picked time ok [(i, o)] = if ok o then [time i] else [] := by
  cases h : ok o <;> simp [picked, h]

theorem mem_picked {tr : List (ι × ο)} {t : K} :
    t ∈ picked time ok tr ↔ ∃ p ∈ tr, ok p.2 = true ∧ time p.1 = t := by
  simp [picked, List.mem_filterMap]

/-- Traces that show the same decisions at the same instants pick the same. -/
theorem picked_congr {κ ρ : Type*} (time : κ → K) {f : ι → κ} {ok' : ρ → Bool} {tr : List (ι × ο)}
    {us : List (κ × ρ)}
    (h : tr.map (fun p => (f p.1, ok p.2)) = us.map (fun p => (p.1, ok' p.2))) :
    picked (fun i => time (f i)) ok tr = picked time ok' us := by
  have := congrArg (List.filterMap fun q : κ × Bool => if q.2 then some (time q.1) else none) h
  rwa [List.filterMap_map, List.filterMap_map] at this

end Picked

section Tally

/-- How many of the requests `j, …, i - 1` satisfy `d`. -/
def tally (d : ℕ → Bool) (j i : ℕ) : ℕ := ((Finset.Ico j i).filter fun k => d k = true).card

theorem tally_self (d : ℕ → Bool) (i : ℕ) : tally d i i = 0 := by simp [tally]

theorem tally_succ (d : ℕ → Bool) {j i : ℕ} (h : j ≤ i) :
    tally d j (i + 1) = tally d j i + if d i then 1 else 0 := by
  have hIco : Finset.Ico j (i + 1) = insert i (Finset.Ico j i) := by
    ext k; simp only [Finset.mem_Ico, Finset.mem_insert]; omega
  rw [tally, hIco, Finset.filter_insert]
  split
  · rw [Finset.card_insert_of_notMem (by simp)]; rfl
  · rfl

end Tally

section Intervals

variable {K : Type*} [LinearOrder K]

/-- How many of the instants lie in `[a, b]`. -/
def within (a b : K) (ts : List K) : ℕ := ts.countP fun t => a ≤ t ∧ t ≤ b

@[simp] theorem within_nil (a b : K) : within a b [] = 0 := rfl

theorem within_append (a b : K) (ts us : List K) :
    within a b (ts ++ us) = within a b ts + within a b us := List.countP_append ..

/-- When every instant is at most `b`, only the left end of the interval counts. -/
theorem within_eq_of_le {a b : K} {ts : List K} (h : ∀ t ∈ ts, t ≤ b) :
    within a b ts = ts.countP fun t => a ≤ t :=
  List.countP_congr fun t ht => by simpa using fun _ => h t ht

theorem within_eq_length {a b : K} {ts : List K} (h : ∀ t ∈ ts, a ≤ t ∧ t ≤ b) :
    within a b ts = ts.length :=
  List.countP_eq_length.mpr fun t ht => by simpa using h t ht

end Intervals

section Cells

variable {K : Type*} [Field K] [LinearOrder K] [IsStrictOrderedRing K] [FloorRing K]

/-- At most `L` instants to each aligned cell `⌊t / W⌋`. -/
theorem within_le_of_cells {W : K} (hW : 0 < W) {L : ℕ} {ts : List K}
    (hL : ∀ c : ℤ, ts.countP (fun t => ⌊t / W⌋ = c) ≤ L) (a T : K) :
    within a (a + T) ts ≤ L * (⌈T / W⌉₊ + 1) := by
  rw [within, List.countP_eq_length_filter]
  refine length_le_of_fibers (fun t => ⌊t / W⌋) ⌊a / W⌋ ⌈T / W⌉₊ _ (fun c => ?_) fun t ht => ?_
  · exact le_trans (List.Sublist.countP_le List.filter_sublist) (hL c)
  · obtain ⟨hat, htb⟩ := of_decide_eq_true (List.mem_filter.mp ht).2
    refine ⟨Int.floor_le_floor (by gcongr), ?_⟩
    have hle : t / W ≤ a / W + (⌈T / W⌉₊ : ℤ) := by
      have h1 : t / W ≤ (a + T) / W := by gcongr
      have h2 : T / W ≤ (⌈T / W⌉₊ : K) := Nat.le_ceil _
      rw [add_div] at h1
      push_cast
      linarith
    calc ⌊t / W⌋ ≤ ⌊a / W + (⌈T / W⌉₊ : ℤ)⌋ := Int.floor_le_floor hle
      _ = ⌊a / W⌋ + ⌈T / W⌉₊ := Int.floor_add_intCast ..

/-- At most `L` instants to each half-open interval of length `W`. -/
theorem within_le_of_halfOpen {W : K} (hW : 0 < W) {L : ℕ} {ts : List K}
    (hL : ∀ c : K, ts.countP (fun t => c - W < t ∧ t ≤ c) ≤ L) (a T : K) :
    within a (a + T) ts ≤ L * (⌈T / W⌉₊ + 1) := by
  rw [within, List.countP_eq_length_filter]
  refine length_le_of_fibers (fun t => ⌈(t - a) / W⌉) 0 ⌈T / W⌉₊ _ (fun c => ?_) fun t ht => ?_
  · refine le_trans (List.Sublist.countP_le List.filter_sublist)
      (le_trans (List.countP_mono_left fun t _ h => ?_) (hL (a + c * W)))
    simp only [decide_eq_true_eq, Int.ceil_eq_iff] at h ⊢
    obtain ⟨h1, h2⟩ := h
    rw [lt_div_iff₀ hW] at h1
    rw [div_le_iff₀ hW] at h2
    constructor <;> linarith
  · obtain ⟨hat, htb⟩ := of_decide_eq_true (List.mem_filter.mp ht).2
    have h0 : 0 ≤ (t - a) / W := div_nonneg (by linarith) hW.le
    have h1 : (t - a) / W ≤ T / W := by gcongr; linarith
    refine ⟨Int.ceil_nonneg h0, ?_⟩
    rw [zero_add, Int.ceil_le]
    push_cast
    exact h1.trans (Nat.le_ceil _)

end Cells

end Timeline
