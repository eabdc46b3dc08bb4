import Mathlib.Algebra.Order.Field.Rat
import Mathlib.Algebra.Order.Floor.Ring
import Mathlib.Data.Rat.Floor
import Mathlib.Tactic.Linarith
import Mathlib.Tactic.NormNum

/-!
# Go's integers and durations

`int64` arithmetic wraps modulo `2 ^ 64` (`wrap64`); a `time.Duration` is an
`int64` of nanoseconds. A float converted to an integer loses its fraction
(`truncate`); floats themselves are exact rationals here.
-/

namespace RateX

/-- The `int64` that an unbounded result leaves behind. -/
def wrap64 (n : Int) : Int := (n + 2 ^ 63) % 2 ^ 64 - 2 ^ 63

theorem wrap64_of_fits {n : Int} (hlo : -2 ^ 63 ≤ n) (hhi : n < 2 ^ 63) : wrap64 n = n := by
  unfold wrap64
  rw [Int.emod_eq_of_lt (by omega) (by omega)]
  omega

/-- The conversion of a float to an integer type. -/
def truncate (x : ℚ) : Int := if 0 ≤ x then ⌊x⌋ else ⌈x⌉

@[simp] theorem truncate_intCast (n : Int) : truncate n = n := by
  simp [truncate]

/-- Limits and windows are positive whole numbers; the arithmetic is rational. -/
theorem cast_pos {n : ℤ} (h : 1 ≤ n) : (0 : ℚ) < n := Int.cast_pos.mpr h

abbrev Duration := Int

namespace Duration

def second : Duration := 1000000000

def mul (a b : Duration) : Duration := wrap64 (a * b)

/-- `d.Seconds()`, a float. -/
def seconds (d : Duration) : ℚ := d / 1000000000

def milliseconds (d : Duration) : Int := d.tdiv 1000000

/-- A window of whole seconds, as the duration `time.Duration(w) * time.Second`. -/
def ofSeconds (w : Int) : Duration := mul w second

/-- Whole seconds whose double still fits an `int64` of nanoseconds. -/
def Fits (w : Int) : Prop := 0 ≤ w ∧ 2 * (w * 1000000000) < 2 ^ 63

theorem ofSeconds_eq {w : Int} (h : Fits w) : ofSeconds w = w * 1000000000 := by
  obtain ⟨h0, h1⟩ := h
  exact wrap64_of_fits (by unfold second; omega) (by unfold second; omega)

theorem seconds_ofSeconds {w : Int} (h : Fits w) : (ofSeconds w).seconds = w := by
  rw [ofSeconds_eq h, seconds]
  push_cast
  ring

theorem milliseconds_ofSeconds {w : Int} (h : Fits w) : (ofSeconds w).milliseconds = w * 1000 := by
  rw [ofSeconds_eq h, milliseconds, show w * 1000000000 = w * 1000 * 1000000 by ring]
  exact Int.mul_tdiv_cancel _ (by norm_num)

/-- `(window * 2).Milliseconds()`, the time to live both scripts are given. -/
theorem milliseconds_twice {w : Int} (h : Fits w) :
    (mul (ofSeconds w) 2).milliseconds = 2 * w * 1000 := by
  obtain ⟨h0, h1⟩ := h
  rw [ofSeconds_eq ⟨h0, h1⟩, mul, wrap64_of_fits (by omega) (by omega), milliseconds,
    show w * 1000000000 * 2 = 2 * w * 1000 * 1000000 by ring]
  exact Int.mul_tdiv_cancel _ (by norm_num)

end Duration

end RateX
