import Mathlib.Data.List.Pairwise

/-!
# Tables with a key

A table is a list of rows; `key` is one of its columns, or a group of them.
`Keyed` is the constraint that no two rows share it. Rows are looked up,
removed and modified by their key, and appended; each operation comes with the
rows it leaves, with the lookup after it, and with the constraint it keeps.
-/

namespace Table

/-- No two rows agree in the column. -/
def Keyed {ρ κ : Type*} (key : ρ → κ) (rows : List ρ) : Prop :=
  rows.Pairwise fun r s => key r ≠ key s

variable {ρ κ : Type*} [DecidableEq κ] (key : ρ → κ)

def find (rows : List ρ) (k : κ) : Option ρ := rows.find? fun r => key r = k

def remove (rows : List ρ) (k : κ) : List ρ := rows.filter fun r => key r ≠ k

def modify (rows : List ρ) (k : κ) (f : ρ → ρ) : List ρ :=
  rows.map fun r => if key r = k then f r else r

variable {key} {rows : List ρ} {k : κ} {r : ρ}

/-! ## The constraint -/

section Keyed

variable {ρ β : Type*} {col : ρ → β} {rows : List ρ} {r : ρ}

theorem Keyed.eq_of_key {s : ρ} (h : Keyed col rows) (hr : r ∈ rows) (hs : s ∈ rows)
    (hk : col r = col s) : r = s := by
  have hsymm : Std.Symm fun r s : ρ => col r ≠ col s := ⟨fun _ _ hrs => hrs.symm⟩
  by_contra hne
  exact List.Pairwise.forall h hr hs hne hk

theorem Keyed.filter (h : Keyed col rows) (p : ρ → Bool) : Keyed col (rows.filter p) :=
  List.Pairwise.filter p h

theorem Keyed.concat (h : Keyed col rows) (hr : ∀ s ∈ rows, col s ≠ col r) :
    Keyed col (rows ++ [r]) :=
  List.pairwise_append.mpr ⟨h, List.pairwise_singleton .., fun s hs t ht => by
    rw [List.mem_singleton.mp ht]
    exact hr s hs⟩

end Keyed

/-- A row given a value that no other row has keeps the column free of duplicates. -/
theorem Keyed.modify {β : Type*} {col : ρ → β} {f : ρ → ρ} (hkey : Keyed key rows)
    (h : Keyed col rows) (hf : ∀ s ∈ rows, key s = k → ∀ t ∈ rows, key t ≠ k → col t ≠ col (f s)) :
    Keyed col (Table.modify key rows k f) := by
  refine List.pairwise_map.mpr ((hkey.and h).imp_of_mem fun {s t} hs ht hst => ?_)
  -- at most one of the two rows has the key, so at most one is modified
  by_cases hsk : key s = k
  · have htk : key t ≠ k := fun htk => hst.1 (hsk.trans htk.symm)
    rw [if_pos hsk, if_neg htk]
    exact (hf s hs hsk t ht htk).symm
  · by_cases htk : key t = k
    · rw [if_neg hsk, if_pos htk]
      exact hf t ht htk s hs hsk
    · rw [if_neg hsk, if_neg htk]
      exact hst.2

/-! ## The rows -/

@[simp] theorem mem_remove : r ∈ remove key rows k ↔ r ∈ rows ∧ key r ≠ k := by
  simp [remove]

theorem mem_modify {f : ρ → ρ} : r ∈ modify key rows k f ↔
    (r ∈ rows ∧ key r ≠ k) ∨ ∃ s ∈ rows, key s = k ∧ r = f s := by
  unfold modify
  rw [List.mem_map]
  constructor
  · rintro ⟨s, hs, rfl⟩
    by_cases hk : key s = k
    · exact .inr ⟨s, hs, hk, by rw [if_pos hk]⟩
    · rw [if_neg hk]
      exact .inl ⟨hs, hk⟩
  · rintro (⟨hr, hk⟩ | ⟨s, hs, hk, rfl⟩)
    · exact ⟨r, hr, by rw [if_neg hk]⟩
    · exact ⟨s, hs, by rw [if_pos hk]⟩

/-- Every key of the table is still there when the modified rows keep theirs. -/
theorem exists_modify {f : ρ → ρ} (hf : ∀ s ∈ rows, key s = k → key (f s) = k) (hr : r ∈ rows) :
    ∃ s ∈ modify key rows k f, key s = key r := by
  by_cases hk : key r = k
  · exact ⟨f r, mem_modify.mpr (.inr ⟨r, hr, hk, rfl⟩), (hf r hr hk).trans hk.symm⟩
  · exact ⟨r, mem_modify.mpr (.inl ⟨hr, hk⟩), rfl⟩

/-! ## Views -/

section Views

variable {ρ' : Type*} {key' : ρ' → κ} {g : ρ → ρ'}

/-- A view that shows the key shows a modification as one of its own rows. -/
theorem map_modify {f : ρ → ρ} {f' : ρ' → ρ'} (hkey : ∀ s, key' (g s) = key s)
    (hf : ∀ s, g (f s) = f' (g s)) (rows : List ρ) (k : κ) :
    (modify key rows k f).map g = modify key' (rows.map g) k f' := by
  rw [modify, modify, List.map_map, List.map_map]
  refine List.map_congr_left fun s _ => ?_
  by_cases hk : key s = k
  · simp [hkey, hk, hf]
  · simp [hkey, hk]

theorem map_remove (hkey : ∀ s, key' (g s) = key s) (rows : List ρ) (k : κ) :
    (remove key rows k).map g = remove key' (rows.map g) k := by
  rw [remove, remove, List.filter_map]
  refine congrArg (List.map g) (List.filter_congr fun s _ => ?_)
  simp [hkey]

end Views

/-! ## Columns kept apart -/

section Columns

variable {ρ' γ : Type*} (key : ρ → κ) (columns : κ → γ) (c : γ) (view : γ → ρ → ρ')

/-- The columns of a new row are those of no other one. -/
theorem map_update_of_fresh (hnew : ∀ s ∈ rows, key s ≠ k) :
    (rows.map fun s => view (Function.update columns k c (key s)) s) =
      rows.map fun s => view (columns (key s)) s :=
  List.map_congr_left fun s hs => by rw [Function.update_of_ne (hnew s hs)]

/-- A row written anew together with its columns. -/
theorem map_modify_update (key' : ρ' → κ) (hkey : ∀ c s, key' (view c s) = key s) (rows : List ρ)
    (r : ρ) : ((modify key rows (key r) fun _ => r).map fun s =>
        view (Function.update columns (key r) c (key s)) s) =
      modify key' (rows.map fun s => view (columns (key s)) s) (key r) fun _ => view c r := by
  rw [modify, modify, List.map_map, List.map_map]
  refine List.map_congr_left fun s _ => ?_
  by_cases hs : key s = key r
  · simp [hkey, hs]
  · simp [hkey, hs]

end Columns

/-! ## Lookups -/

theorem find_some (h : find key rows k = some r) : r ∈ rows ∧ key r = k :=
  ⟨List.mem_of_find?_eq_some h, by simpa using List.find?_some h⟩

theorem exists_find (key : ρ → κ) (hr : r ∈ rows) (hk : key r = k) :
    ∃ s, find key rows k = some s := by
  cases h : find key rows k with
  | some s => exact ⟨s, rfl⟩
  | none => exact absurd hk (by simpa using List.find?_eq_none.mp h r hr)

/-- A query that only rows of one key answer is answered by the one row that has it. -/
theorem Keyed.findSome?_eq {ρ κ β : Type*} {col : ρ → κ} {rows : List ρ} {r : ρ} {b : β}
    {f : ρ → Option β} (h : Keyed col rows) (hr : r ∈ rows) (hb : f r = some b)
    (hcol : ∀ s ∈ rows, ∀ c, f s = some c → col s = col r) : rows.findSome? f = some b := by
  cases hfound : rows.findSome? f with
  | none => rw [List.findSome?_eq_none_iff.mp hfound r hr] at hb; cases hb
  | some c =>
      obtain ⟨s, hs, hc⟩ := List.exists_of_findSome?_eq_some hfound
      rw [h.eq_of_key hs hr (hcol s hs c hc), hb] at hc
      exact hc.symm

end Table
