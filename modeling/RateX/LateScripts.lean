import RateX.SlidingWindowLaw

/-!
# Scripts that come late

A caller reads its clock, and Redis carries the script out at a time of its own.
What a key holds outlasts the last reading by two windows (`HoldsBeyond`,
`SetBeyond`), since its deadline counts from when the script came. So a script
that comes no more than a window after its reading finds the key expired only
where nothing of it would have counted: it answers by what was held, whenever
it comes.
-/

namespace RateX

open Redis

/-! ## The bucket -/

section Bucket

variable {C W : ℤ}

/-- The slot stores the level, for two windows from its last reading on. -/
def HoldsBeyond (W : ℤ) (key : Slot) (b : Option (Bucket.Level ℚ)) : Prop :=
  Holds key b ∧ ∀ e l, key = some e → b = some l →
    ∃ deadline, e.expireAt = some deadline ∧ l.time + 2 * W * 1000 ≤ deadline

theorem holdsBeyond_none (W : ℤ) : HoldsBeyond W none none :=
  ⟨holds_none, fun _ _ h => nomatch h⟩

/-- **A bucket's script that comes late** answers by what the bucket finds at
the reading. -/
theorem tokenBucketScript_late (hC : 1 ≤ C) (hW : 1 ≤ W) {key : Slot}
    {b : Option (Bucket.Level ℚ)} (h : HoldsBeyond W key b) (hb : Bucket.Within (C : ℚ) b)
    {reading clock : ℚ} (hle : reading ≤ clock) (hlate : clock ≤ reading + W * 1000) :
    ∃ key', tokenBucketScript (tokenArgs C W reading) clock (live clock key) =
        .ok (tokenReply C W (found C W b reading), key') ∧
      HoldsBeyond W key' (taken C W b reading).2 := by
  -- on a slot that holds a level with what `b` finds
  have hscript : ∀ {slot : Slot} {b' : Option (Bucket.Level ℚ)}, Holds slot b' →
      found C W b' reading = found C W b reading →
        ∃ key', tokenBucketScript (tokenArgs C W reading) clock slot =
            .ok (tokenReply C W (found C W b reading), key') ∧
          HoldsBeyond W key' (taken C W b reading).2 := by
    intro slot b' hslot hfound
    obtain ⟨v, heq, hv⟩ := tokenBucketScript_eq (C := C) hW hslot clock reading
    rw [taken_snd, hfound, ← taken_snd] at hv
    rw [hfound] at heq
    refine ⟨_, heq, hv, fun e l he hl => ?_⟩
    obtain rfl := Option.some.inj he
    rw [taken_snd] at hl
    obtain rfl := Option.some.inj hl
    exact ⟨_, rfl, by linarith⟩
  match key, b, h with
  | none, none, _ => exact hscript holds_none rfl
  | some ⟨v, d⟩, some l, ⟨hl, hbeyond⟩ =>
      obtain ⟨deadline, hd, hdeadline⟩ := hbeyond _ l rfl rfl
      obtain rfl : d = some deadline := hd
      rcases lt_or_ge clock deadline with hlt | hge
      · rw [live_of_lt v hlt]
        exact hscript hl rfl
      · rw [live_of_le v hge]
        exact hscript holds_none (found_of_idle hC hW (hb l rfl).1 (by linarith)).symm

end Bucket

/-! ## The set -/

section Set

variable {L : ℤ} {W : ℚ}

/-- The slot stores the set, for two windows from its last reading on. -/
def SetBeyond (W : ℚ) (key : Slot) : Option SetAt → Prop
  | none => key = none
  | some s => (∃ deadline, key = some ⟨.zset s.members, some deadline⟩ ∧
      s.touched + 2 * W ≤ deadline) ∧ ∀ m ∈ s.members, 0 ≤ m.2 ∧ m.2 ≤ s.touched

def SetAt.stored : Option SetAt → List (String × ℚ)
  | none => []
  | some s => s.members

/-- What is a window old is purged. -/
theorem purged_of_old {members : List (String × ℚ)} {reading : ℚ}
    (h : ∀ m ∈ members, 0 ≤ m.2 ∧ m.2 ≤ reading - W) : purged W members reading = [] :=
  List.filter_eq_nil_iff.mpr fun m hm => by simpa using h m hm

/-- **A sliding window's script that comes late** counts the members that are
less than a window older than the reading. -/
theorem slidingExec_late (hL : 1 ≤ L) (hW : 0 < W) {key : Slot} {s : Option SetAt}
    (h : SetBeyond W key s) {e : Execution} (h0 : 0 ≤ e.reading)
    (hs : ∀ s', s = some s' → s'.touched ≤ e.reading) (hle : e.reading ≤ e.time)
    (hlate : e.time ≤ e.reading + W) :
    let kept := purged W (SetAt.stored s) e.reading
    (slidingExec L W key e).1 = .ok (slidingReply L W (kept.map Prod.snd) e.reading) ∧
      SetBeyond W (slidingExec L W key e).2 (some ⟨leftMembers L kept e, e.reading⟩) := by
  intro kept
  have hscores : ∀ m ∈ SetAt.stored s, 0 ≤ m.2 ∧ m.2 ≤ e.reading := by
    cases s with
    | none => exact fun _ hm => nomatch hm
    | some s => exact fun m hm => ⟨(h.2 m hm).1, (h.2 m hm).2.trans (hs s rfl)⟩
  -- what the script finds, once purged, is what was stored, once purged
  obtain ⟨found, hfound, hpurged⟩ : ∃ found, IsSet (live e.time key) found ∧
      purged W found e.reading = kept := by
    cases s with
    | none =>
        obtain rfl : key = none := h
        exact ⟨[], isSet_none, rfl⟩
    | some s =>
        obtain ⟨⟨deadline, rfl, hdeadline⟩, hmembers⟩ := h
        rcases lt_or_ge e.time deadline with hlt | hge
        · rw [live_of_lt _ hlt]
          exact ⟨s.members, isSet_some .., rfl⟩
        · rw [live_of_le _ hge]
          refine ⟨[], isSet_none, (purged_of_old fun m hm => ⟨(hmembers m hm).1, ?_⟩).symm⟩
          linarith [(hmembers m hm).2]
  rw [slidingExec_of_set hL hW hfound, hpurged]
  refine ⟨rfl, ⟨_, rfl, by linarith⟩, fun m hm => ?_⟩
  rcases mem_leftMembers hm with hm | rfl
  · exact hscores m (List.mem_of_mem_filter hm)
  · exact ⟨h0, le_rfl⟩

end Set

end RateX
