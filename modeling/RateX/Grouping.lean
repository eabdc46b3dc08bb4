import Mathlib.Algebra.BigOperators.Ring.Finset
import Mathlib.Algebra.Order.Field.Rat
import Mathlib.Data.List.Dedup
import Mathlib.Data.List.Perm.Subperm

/-!
# Groups, orders and limits

The `group by`, `order by` and `limit` of a query, over a list of rows. A
grouping has one summary for each key that occurs (`summaries`), and counts
over the groups add up to counts over the rows (`sum_countP_of_nodup`). An order
leaves the rows of one rank in any order, so that a query with a limit may
have several answers; `top_iff` says which, without the order.
-/

namespace Grouping

section Groups

variable {ρ κ σ : Type*} [DecidableEq κ] (key : ρ → κ)

/-- The keys that occur, each of them once. -/
def keys (rows : List ρ) : List κ := (rows.map key).dedup

def group (rows : List ρ) (k : κ) : List ρ := rows.filter fun r => key r = k

def summaries (agg : κ → List ρ → σ) (rows : List ρ) : List σ :=
  (keys key rows).map fun k => agg k (group key rows k)

variable {key} {rows : List ρ} {k : κ} {r : ρ}

@[simp] theorem mem_keys : k ∈ keys key rows ↔ ∃ r ∈ rows, key r = k := by
  simp [keys]

theorem nodup_keys (key : ρ → κ) (rows : List ρ) : (keys key rows).Nodup := List.nodup_dedup _

@[simp] theorem mem_group : r ∈ group key rows k ↔ r ∈ rows ∧ key r = k := by
  simp [group]

theorem group_length_pos (h : k ∈ keys key rows) : 0 < (group key rows k).length := by
  obtain ⟨r, hr, hk⟩ := mem_keys.mp h
  exact List.length_pos_of_mem (mem_group.mpr ⟨hr, hk⟩)

section Summaries

variable {agg : κ → List ρ → σ} {name : σ → κ} {s : σ} {answer : List σ}

theorem summary_mem (hr : r ∈ rows) :
    agg (key r) (group key rows (key r)) ∈ summaries key agg rows :=
  List.mem_map.mpr ⟨key r, mem_keys.mpr ⟨r, hr, rfl⟩, rfl⟩

/-- The summaries, where a summary tells its key. -/
theorem mem_summaries (hname : ∀ k rows, name (agg k rows) = k) : s ∈ summaries key agg rows ↔
    s = agg (name s) (group key rows (name s)) ∧ 0 < (group key rows (name s)).length := by
  constructor
  · intro hs
    obtain ⟨k, hk, rfl⟩ := List.mem_map.mp hs
    rw [hname]
    exact ⟨rfl, group_length_pos hk⟩
  · rintro ⟨hs, hpos⟩
    obtain ⟨r, hr⟩ := List.exists_mem_of_length_pos hpos
    obtain ⟨hr, hk⟩ := mem_group.mp hr
    rw [hs, ← hk]
    exact summary_mem hr

theorem nodup_summaries (hname : ∀ k rows, name (agg k rows) = k) :
    (summaries key agg rows).Nodup := by
  refine (nodup_keys key rows).map fun k k' h => ?_
  rw [← hname k (group key rows k), h, hname]

/-- A key has no summary but its own. -/
theorem summary_mem_iff (hname : ∀ k rows, name (agg k rows) = k)
    (hanswer : ∀ s ∈ answer, s = agg (name s) (group key rows (name s))) :
    agg k (group key rows k) ∈ answer ↔ k ∈ answer.map name := by
  constructor
  · intro hs
    exact List.mem_map.mpr ⟨_, hs, hname ..⟩
  · intro hk
    obtain ⟨s, hs, rfl⟩ := List.mem_map.mp hk
    rw [← hanswer s hs]
    exact hs

/-- The summaries left out are those of the keys left out. -/
theorem forall_left_out (hname : ∀ k rows, name (agg k rows) = k)
    (hanswer : ∀ s ∈ answer, s = agg (name s) (group key rows (name s))) {P : σ → Prop} :
    (∀ s ∈ summaries key agg rows, s ∉ answer → P s) ↔
      ∀ r ∈ rows, key r ∉ answer.map name → P (agg (key r) (group key rows (key r))) := by
  constructor
  · intro h r hr hout
    exact h _ (summary_mem hr) (mt (summary_mem_iff hname hanswer).mp hout)
  · intro h s hs hout
    obtain ⟨k, hk, rfl⟩ := List.mem_map.mp hs
    obtain ⟨r, hr, rfl⟩ := mem_keys.mp hk
    exact h r hr (mt (summary_mem_iff hname hanswer).mpr hout)

end Summaries

/-- Summed over distinct keys that cover the rows, the groups are the rows. -/
theorem sum_countP_of_nodup (p : ρ → Bool) {ks : List κ} (hnodup : ks.Nodup)
    (hcover : ∀ r ∈ rows, key r ∈ ks) :
    (ks.map fun k => (group key rows k).countP p).sum = rows.countP p := by
  induction rows with
  | nil => simp [group]
  | cons r rows ih =>
      have hrest := ih fun s hs => hcover s (List.mem_cons_of_mem _ hs)
      have hone : (ks.map fun k => if k = key r then (if p r then 1 else 0) else 0).sum =
          if p r then 1 else 0 := by
        rw [List.sum_map_eq_nsmul_single (key r) _ fun k hk _ => if_neg hk,
          List.count_eq_one_of_mem hnodup (hcover r (List.mem_cons_self ..)), one_nsmul, if_pos rfl]
      have hsplit : ∀ k, (group key (r :: rows) k).countP p = (group key rows k).countP p +
          if k = key r then (if p r then 1 else 0) else 0 := by
        intro k
        by_cases hk : k = key r
        · simp [group, hk, List.countP_cons]
        · simp [group, hk, Ne.symm hk]
      simp only [hsplit, List.sum_map_add, hrest, hone, List.countP_cons]

end Groups

/-! ## Orders and limits -/

section Orders

variable {σ β : Type*} [LinearOrder β] (rank : σ → β)

/-- An answer to `order by rank limit n`. -/
def Top (n : ℕ) (rows answer : List σ) : Prop :=
  ∃ ordered : List σ, ordered.Perm rows ∧ ordered.Pairwise (fun r s => rank r ≤ rank s) ∧
    answer = ordered.take n

/-- One of the orders. -/
def sorted (rows : List σ) : List σ := rows.mergeSort fun r s => rank r ≤ rank s

theorem sorted_perm (rows : List σ) : (sorted rank rows).Perm rows := List.mergeSort_perm ..

theorem sorted_pairwise (rows : List σ) :
    (sorted rank rows).Pairwise fun r s => rank r ≤ rank s := by
  let le (r s : σ) : Bool := rank r ≤ rank s
  have htrans (r s t : σ) (hrs : le r s) (hst : le s t) : le r t :=
    decide_eq_true ((of_decide_eq_true hrs).trans (of_decide_eq_true hst))
  have htotal (r s : σ) : le r s || le s r := by
    simpa [le] using le_total (rank r) (rank s)
  exact (List.pairwise_mergeSort htrans htotal rows).imp fun h => of_decide_eq_true h

variable {rank} {rows answer : List σ} {n : ℕ}

/-- **What a limit leaves**: as many of the rows as it may, in order, and none
that is left out ranks before one of them. -/
theorem top_iff (hnodup : rows.Nodup) : Top rank n rows answer ↔
    answer.Nodup ∧ (∀ r ∈ answer, r ∈ rows) ∧ answer.Pairwise (fun r s => rank r ≤ rank s) ∧
      answer.length = min n rows.length ∧
      ∀ r ∈ answer, ∀ s ∈ rows, s ∉ answer → rank r ≤ rank s := by
  constructor
  · rintro ⟨ordered, hperm, hpairwise, rfl⟩
    have hsub := List.take_sublist n ordered
    refine ⟨hsub.nodup (hperm.nodup_iff.mpr hnodup), fun r hr => hperm.mem_iff.mp (hsub.subset hr),
      hpairwise.sublist hsub, by rw [List.length_take, hperm.length_eq], fun r hr s hs hout => ?_⟩
    -- a row that is not among the first is among the others
    have hs' : s ∈ ordered.drop n := by
      have hmem := hperm.mem_iff.mpr hs
      rw [← List.take_append_drop n ordered] at hmem
      exact (List.mem_append.mp hmem).resolve_left hout
    rw [← List.take_append_drop n ordered] at hpairwise
    exact (List.pairwise_append.mp hpairwise).2.2 r hr s hs'
  · rintro ⟨hanswer, hsub, hpairwise, hlength, hrest⟩
    classical
    let others := rows.filter fun r => r ∉ answer
    have hperm : (answer ++ sorted rank others).Perm rows := by
      refine ((sorted_perm rank others).append_left answer).trans ?_
      refine (List.perm_ext_iff_of_nodup ?_ hnodup).mpr fun r => ?_
      · refine List.nodup_append.mpr ⟨hanswer, hnodup.filter _, fun r hr s hs heq => ?_⟩
        have hout := (List.mem_filter.mp hs).2
        simp [← heq, hr] at hout
      · simp only [others, List.mem_append, List.mem_filter, decide_eq_true_eq]
        constructor
        · rintro (hr | hr)
          · exact hsub r hr
          · exact hr.1
        · intro hr
          by_cases hin : r ∈ answer
          · exact .inl hin
          · exact .inr ⟨hr, hin⟩
    refine ⟨answer ++ sorted rank others, hperm, ?_, ?_⟩
    · refine List.pairwise_append.mpr ⟨hpairwise, sorted_pairwise rank others, fun r hr s hs => ?_⟩
      have hmem := List.mem_filter.mp ((sorted_perm rank others).mem_iff.mp hs)
      exact hrest r hr s hmem.1 (by simpa using hmem.2)
    · rcases Nat.le_total n rows.length with hn | hn
      · rw [Nat.min_eq_left hn] at hlength
        rw [← hlength, List.take_left']
        rfl
      · have hall : sorted rank others = [] := by
          have htotal := hperm.length_eq
          rw [List.length_append, hlength, Nat.min_eq_right hn] at htotal
          exact List.length_eq_zero_iff.mp (by omega)
        rw [hall, List.append_nil, List.take_of_length_le (by omega)]

/-- A part of the rows is as long as a limit leaves it, if it is not longer and
a row is left out for the limit only. -/
theorem length_eq_min_iff (hanswer : answer.Nodup) (hrows : rows.Nodup) (hsub : answer ⊆ rows) :
    answer.length = min n rows.length ↔
      answer.length ≤ n ∧ ∀ r ∈ rows, r ∉ answer → answer.length = n := by
  have hpart := List.subperm_of_subset hanswer hsub
  constructor
  · intro hlength
    refine ⟨hlength ▸ min_le_left .., fun r hr hout => ?_⟩
    rw [hlength]
    refine min_eq_left (not_lt.mp fun hlt => hout ?_)
    rw [min_eq_right hlt.le] at hlength
    exact (hpart.perm_of_length_le hlength.ge).mem_iff.mpr hr
  · rintro ⟨hmost, hfull⟩
    refine le_antisymm (le_min hmost hpart.length_le) ?_
    by_cases hall : rows ⊆ answer
    · exact min_le_of_right_le (List.subperm_of_subset hrows hall).length_le
    · obtain ⟨r, hr, hout⟩ := Set.not_subset.mp hall
      exact min_le_of_left_le (hfull r hr hout).ge

end Orders

end Grouping
