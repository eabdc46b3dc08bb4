import RateX.Delimited
import RateX.Limiter

/-!
# The counter of a fixed window

What the three commands of `FixedWindow.Allow` do to the counter of one window
while the window lasts. `Counts` is the invariant they share: the slot counts
the `INCR`s so far, and its deadline, if it has one, is not before the end of
the window. An `EXPIRE` sent by a request of the window cannot break it,
however late it comes: the request's own time plus the window's length is past
the end already.
-/

namespace RateX

namespace FixedWindow

open Redis

/-! ## Windows and their keys -/

/-- When window `w` ends, in milliseconds. -/
def windowEnd (W w : ℤ) : ℚ := (w + 1) * (W * 1000)

section Windows

variable {W : ℤ}

theorem window_pos (hW : 1 ≤ W) : (0 : ℚ) < W * 1000 := by
  have := cast_pos hW
  linarith

theorem seconds_window (W : ℤ) : Duration.seconds (W * Duration.second) = W := by
  simp [Duration.seconds, Duration.second]

theorem windowID_eq {l : FixedWindow} (hl : l.window = W * Duration.second) (hW : 1 ≤ W) {now : ℚ}
    (hnow : 0 ≤ now) : l.windowID now = some ⌊now / (W * 1000)⌋ := by
  have hpos : (0 : ℤ) < W := by omega
  have hne : (W : ℚ) ≠ 0 := by exact_mod_cast hpos.ne'
  have h0 : 0 ≤ ⌊now / 1000⌋ := Int.floor_nonneg.mpr (div_nonneg hnow (by norm_num))
  have hms : now / 1000 = now / (W * 1000) * W := by field_simp
  unfold windowID
  rw [hl, seconds_window, truncate_intCast, if_neg hpos.ne', Int.tdiv_eq_ediv_of_nonneg h0, hms,
    Int.mul_cast_floor_div_cancel_of_pos hpos]

theorem lt_windowEnd (hW : 1 ≤ W) (now : ℚ) : now < windowEnd W ⌊now / (W * 1000)⌋ := by
  have := Int.lt_floor_add_one (now / ((W : ℚ) * 1000))
  rwa [div_lt_iff₀ (window_pos hW)] at this

/-- The length of the window after any instant of it, the window is over. -/
theorem windowEnd_le (hW : 1 ≤ W) (now : ℚ) :
    windowEnd W ⌊now / (W * 1000)⌋ ≤ now + W * 1000 := by
  have := Int.floor_le (now / ((W : ℚ) * 1000))
  rw [le_div_iff₀ (window_pos hW)] at this
  unfold windowEnd
  linarith

end Windows

/-- The window number is cut off by the last colon of the key. -/
theorem redisKey_inj (l : FixedWindow) {key key' : String} {w w' : ℤ}
    (h : l.redisKey key w = l.redisKey key' w') : key = key' ∧ w = w' := by
  have hsplit : ∀ (key : String) (w : ℤ), (l.redisKey key w).toList =
      (l.keyPrefix.toList ++ ':' :: key.toList) ++ ':' :: (toString w).toList := by
    intro key w
    simp [redisKey]
  have hlist := congrArg String.toList h
  rw [hsplit, hsplit] at hlist
  obtain ⟨hkey, hw⟩ := Delimited.last_inj (Delimited.colon_notMem_toString w)
    (Delimited.colon_notMem_toString w') hlist
  refine ⟨?_, Delimited.toString_int_inj (String.toList_inj.mp hw)⟩
  exact String.toList_inj.mp (List.cons_eq_cons.mp (List.append_cancel_left hkey)).2

/-- A call whose `INCR` answers `count`, its three commands back to back. -/
theorem allow_of_incr {l : FixedWindow} {store store' : Store} {now : ℚ} {key : String}
    {w count : ℤ} (hid : l.windowID now = some w)
    (hrun : store.run now (l.redisKey key w) Redis.incr = (.ok count, store')) :
    (∃ ttl, (l.allow store now key).1 = .ok (l.result count ttl)) ∧
      (l.allow store now key).2 =
        if count = 1 then (store'.run now (l.redisKey key w) (l.expire now)).2 else store' := by
  simp only [allow, hid, hrun]
  exact ⟨⟨_, rfl⟩, trivial⟩

/-! ## The counter -/

/-- The slot counts `n` requests and will not expire before `ending`. -/
def Counts (slot : Slot) (n : ℕ) (ending : ℚ) : Prop :=
  match slot with
  | none => n = 0
  | some e => e.value = .counter n ∧ ∀ deadline, e.expireAt = some deadline → ending ≤ deadline

theorem counts_none (ending : ℚ) : Counts none 0 ending := rfl

section Counts

variable {slot : Slot} {n : ℕ} {ending now : ℚ}

theorem Counts.live (h : Counts slot n ending) (hnow : now < ending) :
    Counts (Redis.live now slot) n ending := by
  match slot, h with
  | none, h => exact h
  | some ⟨v, none⟩, h => exact h
  | some ⟨v, some deadline⟩, h =>
      rw [live_of_lt v (hnow.trans_le (h.2 deadline rfl))]
      exact h

theorem Counts.incr (h : Counts slot n ending) :
    ∃ slot', Redis.incr slot = .ok ((n : ℤ) + 1, slot') ∧ Counts slot' (n + 1) ending := by
  match slot, h with
  | none, h =>
      obtain rfl : n = 0 := h
      exact ⟨_, rfl, rfl, fun _ hd => nomatch hd⟩
  | some ⟨v, deadline⟩, ⟨hv, hd⟩ =>
      obtain rfl : v = .counter n := hv
      refine ⟨_, rfl, ?_, hd⟩
      push_cast
      rfl

theorem Counts.pexpire (h : Counts slot n ending) {ttl : ℚ} (httl : 0 < ttl)
    (hlate : ending ≤ now + ttl) : Counts (Redis.pexpire now ttl slot) n ending := by
  cases slot with
  | none => exact h
  | some e =>
      rw [pexpire_some e httl]
      refine ⟨h.1, fun deadline hd => ?_⟩
      obtain rfl := Option.some.inj hd
      exact hlate

end Counts

theorem formatSec_window {W : ℤ} (hW : 1 ≤ W) : formatSec (W * Duration.second) = W := by
  have hlong : ¬ ((0 : ℤ) < W * 1000000000 ∧ W * 1000000000 < (1000000000 : ℤ)) := by omega
  unfold formatSec Duration.second
  rw [if_neg hlong]
  exact Int.mul_tdiv_cancel W (by decide)

/-- What every request of a call's key and window may rely on in the store. -/
def CountsAll (l : FixedWindow) (W : ℤ) (now : ℚ) (store : Store) (number : String → ℤ → ℕ) :
    Prop :=
  ∀ key w, now < windowEnd W w → Counts (store (l.redisKey key w)) (number key w) (windowEnd W w)

section CountsAll

variable {l : FixedWindow} {W : ℤ} {now : ℚ} {store : Store} {number : String → ℤ → ℕ}

theorem CountsAll.later (h : CountsAll l W now store number) {now' : ℚ} (hle : now ≤ now') :
    CountsAll l W now' store number :=
  fun key w hw => h key w (hle.trans_lt hw)

/-- `INCR` at its own time answers the number of its predecessors plus one. -/
theorem CountsAll.incr (hW : 1 ≤ W) (h : CountsAll l W now store number) (key : String) :
    let w := ⌊now / (W * 1000)⌋
    ∃ store', store.run now (l.redisKey key w) Redis.incr = (.ok ((number key w : ℤ) + 1), store') ∧
      CountsAll l W now store' (fun key' w' =>
        number key' w' + if key' = key ∧ w' = w then 1 else 0) := by
  intro w
  have hw := lt_windowEnd hW now
  obtain ⟨slot, hincr, hcounts⟩ := ((h key w hw).live hw).incr
  refine ⟨_, Store.run_ok hincr, fun key' w' hw' => ?_⟩
  by_cases heq : key' = key ∧ w' = w
  · obtain ⟨rfl, rfl⟩ := heq
    simp only [Function.update_self, and_self, if_true]
    exact hcounts
  · have hne : l.redisKey key' w' ≠ l.redisKey key w := fun hkey => heq (redisKey_inj l hkey)
    simp only [Function.update_of_ne hne, if_neg heq, add_zero]
    exact h key' w' hw'

/-- `EXPIRE`, sent at or after the time `t` of a request of that window. -/
theorem CountsAll.expire (hl : l.window = W * Duration.second) (hW : 1 ≤ W)
    (h : CountsAll l W now store number) (key : String) {t : ℚ} (ht : t ≤ now) :
    CountsAll l W now
      (store.run now (l.redisKey key ⌊t / (W * 1000)⌋) (l.expire now)).2 number := by
  intro key' w' hw'
  by_cases heq : l.redisKey key' w' = l.redisKey key ⌊t / (W * 1000)⌋
  · obtain ⟨rfl, rfl⟩ := redisKey_inj l heq
    have hend := windowEnd_le hW t
    simp only [Store.run, FixedWindow.expire, Function.update_self, hl, formatSec_window hW]
    exact ((h _ _ hw').live hw').pexpire (window_pos hW) (by linarith)
  · rw [Store.run_other _ _ _ _ heq]
    exact h key' w' hw'

end CountsAll

end FixedWindow

end RateX
