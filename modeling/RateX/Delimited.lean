import Mathlib.Data.List.Basic
import Std.Data.String.ToInt

/-!
# Texts joined by a delimiter

When can `head ++ c :: tail` be taken apart again, the head being arbitrary?
When the tail shows where it starts: `Starts` holds of it, and of nothing that
follows a further `c` inside it. `append_cons_inj` is that statement for any
`Starts`; a tail without any `c` is the special case `last_inj`. A decimal
numeral is such a tail for `':'`.
-/

namespace Delimited

section Lists

variable {α : Type*}

/-- No `c` in the text has a continuation that `Starts`. -/
def NoneStarts (c : α) (Starts : List α → Prop) (tail : List α) : Prop :=
  ∀ x y, tail = x ++ c :: y → ¬ Starts y

theorem append_cons_inj {c : α} (Starts : List α → Prop) {head head' tail tail' : List α}
    (ht : Starts tail) (ht' : Starts tail') (hn : NoneStarts c Starts tail)
    (hn' : NoneStarts c Starts tail') (h : head ++ c :: tail = head' ++ c :: tail') :
    head = head' ∧ tail = tail' := by
  rcases List.append_eq_append_iff.mp h with ⟨mid, rfl, hmid⟩ | ⟨mid, rfl, hmid⟩
  · cases mid with
    | nil => exact ⟨(List.append_nil _).symm, (List.cons_eq_cons.mp hmid).2⟩
    | cons x mid =>
        rw [List.cons_append] at hmid
        exact absurd ht' (hn mid tail' (List.cons_eq_cons.mp hmid).2)
  · cases mid with
    | nil => exact ⟨List.append_nil _, (List.cons_eq_cons.mp hmid).2.symm⟩
    | cons x mid =>
        rw [List.cons_append] at hmid
        exact absurd ht (hn' mid tail (List.cons_eq_cons.mp hmid).2)

/-- A tail without the delimiter is cut off by the last one. -/
theorem last_inj {c : α} {head head' tail tail' : List α} (hc : c ∉ tail) (hc' : c ∉ tail')
    (h : head ++ c :: tail = head' ++ c :: tail') : head = head' ∧ tail = tail' := by
  have hnone : ∀ l : List α, c ∉ l → NoneStarts c (fun _ => True) l := by
    intro l hl x y hxy
    exact absurd (hxy ▸ by simp) hl
  exact append_cons_inj (fun _ => True) trivial trivial (hnone _ hc) (hnone _ hc') h

end Lists

/-! ## Decimal numerals -/

theorem colon_notMem_natRepr (n : Nat) : ':' ∉ n.repr.toList := by
  intro h
  rw [Nat.toList_repr] at h
  exact absurd (Nat.isDigit_of_mem_toDigits (by decide) (by decide) h) (by decide)

theorem colon_notMem_toString (n : Int) : ':' ∉ (toString n).toList := by
  cases n with
  | ofNat n => exact colon_notMem_natRepr n
  | negSucc n =>
      intro h
      have hsplit : (toString (Int.negSucc n)).toList = '-' :: (Nat.repr (n + 1)).toList := by
        change ("-" ++ Nat.repr (n + 1)).toList = _
        rw [String.toList_append]
        rfl
      rw [hsplit] at h
      cases h with
      | tail _ h => exact colon_notMem_natRepr (n + 1) h

theorem toString_int_inj {m n : Int} (h : toString m = toString n) : m = n :=
  Int.repr_injective h

end Delimited
