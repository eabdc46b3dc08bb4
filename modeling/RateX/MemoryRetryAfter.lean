import RateX.BucketAnswers
import RateX.FixedWindowCounter

/-!
# The wait a client of the memory bucket is told

`MemoryTokenBucket.Allow` truncates the time until the next token to whole
seconds, and answers a second at least. Refused requests cost nothing, so the
next token comes when the stored bucket says (`due`); the wait that is told is
long enough iff that is within a second, or a whole number of seconds away
(`memoryBucket_retryAfter_iff`).
-/

namespace RateX

open Transducer

/-- A call of `Allow`, at the clock reading `now`. -/
structure MemoryCall where
  key : String
  now : ℚ

def serveMemory (l : MemoryTokenBucket) (c : MemoryCall) : Result × MemoryTokenBucket :=
  l.allow c.now c.key

/-- If a request at `t` is rejected, and so is every request of its key after it,
then the next one that comes `RetryAfter` seconds after `t` or later is allowed. -/
def MemoryTokenBucket.KeepsPromise (l : MemoryTokenBucket) (key : String) (t : ℚ) : Prop :=
  let out := l.allow t key
  out.1.allowed = false → ∀ later : List MemoryCall,
    (t :: later.map MemoryCall.now).Pairwise (· ≤ ·) →
    (∀ p ∈ trace serveMemory out.2 later, p.1.key = key → p.2.allowed = false) →
    ∀ t', (∀ c ∈ later, c.now ≤ t') → t + 1000 * out.1.retryAfter ≤ t' →
      ((after serveMemory out.2 later).allow t' key).1.allowed = true

/-- When the next token of a bucket is there, if none is taken. -/
def MemoryTokenBucket.due (l : MemoryTokenBucket) (b : MemoryBucket) : ℚ :=
  b.lastRefill + 1000 * ((1 - b.tokens) / (l.capacity / l.window.seconds))

/-- The key's next token comes within a second of `t`, or after whole seconds. -/
def MemoryTokenBucket.DueOnTheSecond (l : MemoryTokenBucket) (key : String) (t : ℚ) : Prop :=
  ∀ b, l.buckets key = some b → l.due b - t ≤ 1000 ∨ ∃ n : ℤ, l.due b - t = 1000 * n

section Wait

variable {C W : ℤ} {window : Duration} {l : MemoryTokenBucket} {key : String}
  {b : Option (Bucket.Level ℚ)} {now : ℚ}

/-- The limiter has these parameters, and at the key this level. -/
structure AtLevel (C : ℤ) (window : Duration) (key : String) (l : MemoryTokenBucket)
    (b : Option (Bucket.Level ℚ)) : Prop where
  capacity : l.capacity = C
  window : l.window = window
  level : l.buckets key = b.map memoryBucket

theorem AtLevel.serve (hW : 1 ≤ W) (hwindow : window.seconds = W) (h : AtLevel C window key l b)
    {c : MemoryCall} (hkey : c.key = key) (hnow : ∀ lvl, b = some lvl → lvl.time ≤ c.now) :
    (serveMemory l c).1 = memoryResult C W (found C W b c.now) ∧
      AtLevel C window key (serveMemory l c).2 (taken C W b c.now).2 := by
  obtain ⟨buckets, capacity, window'⟩ := l
  obtain ⟨rfl, rfl, hlevel⟩ := h
  rw [serveMemory, hkey, memory_answer hW hwindow buckets key hlevel c.now hnow]
  exact ⟨rfl, rfl, rfl, Function.update_self ..⟩

theorem AtLevel.other (h : AtLevel C window key l b) {c : MemoryCall} (hne : c.key ≠ key) :
    AtLevel C window key (serveMemory l c).2 b :=
  ⟨(l.allow_capacity c.now).trans h.capacity, (l.allow_window c.now).trans h.window,
    (l.allow_other c.now hne.symm).trans h.level⟩

/-- What calls in order of time leave at a key. -/
theorem atLevel_after (hC : 1 ≤ C) (hW : 1 ≤ W) (hwindow : window.seconds = W) (key : String)
    {past : List MemoryCall} (horder : past.Pairwise fun c d => c.now ≤ d.now) :
    ∃ b, AtLevel C window key (after serveMemory (newMemoryTokenBucket C window) past) b ∧
      Bucket.Within (C : ℚ) b ∧ ∀ lvl, b = some lvl → ∃ c ∈ past, c.now = lvl.time := by
  induction past using List.reverseRecOn with
  | nil => exact ⟨none, ⟨rfl, rfl, rfl⟩, Bucket.within_none, fun _ h => nomatch h⟩
  | append_singleton past c ih =>
      obtain ⟨hpast, -, hc⟩ := List.pairwise_append.mp horder
      obtain ⟨b, hlevel, hwithin, htime⟩ := ih hpast
      rw [after_append]
      by_cases hkey : c.key = key
      · have hnow : ∀ lvl, b = some lvl → lvl.time ≤ c.now := fun lvl hlvl => by
          obtain ⟨d, hd, hdt⟩ := htime lvl hlvl
          exact hdt ▸ hc d hd c (List.mem_singleton.mpr rfl)
        refine ⟨(taken C W b c.now).2, (hlevel.serve hW hwindow hkey hnow).2,
          Bucket.within_take (cast_pos hC).le (ratePerMs_nonneg hC hW) hwithin c.now,
          fun lvl hlvl => ⟨c, List.mem_append_right _ (List.mem_singleton.mpr rfl), ?_⟩⟩
        rw [taken_snd] at hlvl
        exact congrArg Bucket.Level.time (Option.some.inj hlvl)
      · refine ⟨b, hlevel.other hkey, hwithin, fun lvl hlvl => ?_⟩
        obtain ⟨d, hd, hdt⟩ := htime lvl hlvl
        exact ⟨d, List.mem_append_left _ hd, hdt⟩

/-- Rejected calls of the key, and calls of other keys, leave it what it has. -/
theorem found_after_refused (hC : 1 ≤ C) (hW : 1 ≤ W) (hwindow : window.seconds = W) {x t : ℚ}
    (h : AtLevel C window key l (some ⟨x, t⟩)) {later : List MemoryCall}
    (horder : (t :: later.map MemoryCall.now).Pairwise (· ≤ ·))
    (hrefused : ∀ p ∈ trace serveMemory l later, p.1.key = key → p.2.allowed = false)
    (htimes : ∀ c ∈ later, c.now ≤ now) (hnow : t ≤ now) :
    ∃ y s, AtLevel C window key (after serveMemory l later) (some ⟨y, s⟩) ∧ s ≤ now ∧
      found C W (some ⟨y, s⟩) now = found C W (some ⟨x, t⟩) now := by
  induction later generalizing l x t with
  | nil => exact ⟨x, t, h, hnow, rfl⟩
  | cons c later ih =>
      have hC1 : (1 : ℚ) ≤ C := by exact_mod_cast hC
      obtain ⟨hle, htail⟩ := List.pairwise_cons.mp horder
      have hct : t ≤ c.now := hle _ (List.mem_cons_self ..)
      have hcnow : c.now ≤ now := htimes c (List.mem_cons_self ..)
      have htimes' : ∀ d ∈ later, d.now ≤ now := fun d hd => htimes d (List.mem_cons_of_mem _ hd)
      have hrefused' : ∀ p ∈ trace serveMemory (serveMemory l c).2 later,
          p.1.key = key → p.2.allowed = false :=
        fun p hp => hrefused p (List.mem_cons_of_mem _ hp)
      rw [after_cons]
      by_cases hkey : c.key = key
      · obtain ⟨hanswer, hnext⟩ :=
          h.serve hW hwindow hkey fun lvl hlvl => Option.some.inj hlvl ▸ hct
        have hlt : found C W (some ⟨x, t⟩) c.now < 1 := by
          have hfirst := hrefused _ (List.mem_cons_self ..) hkey
          rw [hanswer] at hfirst
          by_contra h1
          simp [memoryResult, not_lt.mp h1] at hfirst
        rw [taken_snd, if_neg (not_le.mpr hlt)] at hnext
        obtain ⟨y, s, hlevel, hs, hfound⟩ := ih hnext htail hrefused' htimes' hcnow
        exact ⟨y, s, hlevel, hs, hfound.trans (Bucket.available_refused hC1 hct hcnow hlt)⟩
      · exact ih (h.other hkey)
          (List.pairwise_cons.mpr ⟨fun s hs => hle s (List.mem_cons_of_mem _ hs),
            (List.pairwise_cons.mp htail).2⟩) hrefused' htimes' hnow

theorem AtLevel.due (hwindow : window.seconds = W) {x t : ℚ}
    (h : AtLevel C window key l (some ⟨x, t⟩)) :
    l.due (memoryBucket ⟨x, t⟩) = t + (1 - x) / ratePerMs C W := by
  rw [MemoryTokenBucket.due, h.capacity, h.window, hwindow, memoryBucket, missing_ms]

/-- Tokens found do not move the instant of the next one. -/
theorem due_found (hC : 1 ≤ C) (hW : 1 ≤ W) {x t : ℚ} (hnow : t ≤ now)
    (hlt : found C W (some ⟨x, t⟩) now < 1) :
    now + (1 - found C W (some ⟨x, t⟩) now) / ratePerMs C W = t + (1 - x) / ratePerMs C W := by
  have hC1 : (1 : ℚ) ≤ C := by exact_mod_cast hC
  have hrate := ratePerMs_pos hC hW
  rw [found, Bucket.available_of_lt hC1 hnow hlt]
  field_simp
  ring

/-- A truncated wait of at least one second is as long as the wait. -/
theorem le_truncated_iff {m : ℚ} (h0 : 0 < m) :
    m ≤ (max 1 (truncate m) : ℤ) ↔ m ≤ 1 ∨ ∃ n : ℤ, m = n := by
  have hfloor : truncate m = ⌊m⌋ := if_pos h0.le
  rw [hfloor, Int.cast_max, Int.cast_one, le_max_iff]
  refine or_congr_right ⟨fun h => ⟨⌊m⌋, le_antisymm h (Int.floor_le m)⟩, ?_⟩
  rintro ⟨n, rfl⟩
  rw [Int.floor_intCast]

/-- The wait of a rejected request is kept iff it is no shorter than what is missing. -/
theorem keepsPromise_iff (hC : 1 ≤ C) (hW : 1 ≤ W) (hwindow : window.seconds = W)
    (h : AtLevel C window key l b) {t : ℚ} (hnow : ∀ lvl, b = some lvl → lvl.time ≤ t)
    (hlt : found C W b t < 1) : l.KeepsPromise key t ↔
      (1 - found C W b t) / (C / W : ℚ) ≤
        (max 1 (truncate ((1 - found C W b t) / (C / W : ℚ))) : ℤ) := by
  have hC1 : (1 : ℚ) ≤ C := by exact_mod_cast hC
  have hrate := ratePerMs_pos hC hW
  obtain ⟨hanswer, hnext⟩ := h.serve (c := ⟨key, t⟩) hW hwindow rfl hnow
  rw [serveMemory] at hanswer hnext
  rw [taken_snd, if_neg (not_le.mpr hlt)] at hnext
  simp only [MemoryTokenBucket.KeepsPromise, hanswer, memoryResult, if_neg (not_le.mpr hlt),
    forall_const]
  generalize found C W b t = x at hlt hnext
  -- what a later request finds, after any that were rejected
  have hlater : ∀ (later : List MemoryCall) (t' : ℚ),
      (t :: later.map MemoryCall.now).Pairwise (· ≤ ·) →
      (∀ p ∈ trace serveMemory (l.allow t key).2 later, p.1.key = key → p.2.allowed = false) →
      (∀ c ∈ later, c.now ≤ t') → t ≤ t' →
      (((after serveMemory (l.allow t key).2 later).allow t' key).1.allowed = true ↔
        1000 * ((1 - x) / (C / W : ℚ)) ≤ t' - t) := by
    intro later t' horder hrefused htimes ht'
    obtain ⟨y, s, hlevel, hs, hfound⟩ :=
      found_after_refused hC hW hwindow hnext horder hrefused htimes ht'
    obtain ⟨hanswer', -⟩ := hlevel.serve (c := ⟨key, t'⟩) hW hwindow rfl
      fun lvl hlvl => Option.some.inj hlvl ▸ hs
    rw [serveMemory] at hanswer'
    rw [hanswer', hfound, missing_ms, ← Bucket.one_le_available_iff hC1 hrate ht']
    rcases le_or_gt 1 (found C W (some ⟨x, t⟩) t') with h1 | h1
    · simp [memoryResult, h1]
    · simp [memoryResult, not_le.mpr h1]
  generalize hr : (max 1 (truncate ((1 - x) / (C / W : ℚ))) : ℤ) = r
  have hr0 : (0 : ℚ) ≤ r := by
    have : 1 ≤ r := hr ▸ le_max_left ..
    exact_mod_cast (show 0 ≤ r by omega)
  constructor
  · intro hkeeps
    have hfirst := hkeeps [] (List.pairwise_singleton ..) (List.forall_mem_nil _)
      (t + 1000 * r) (List.forall_mem_nil _) le_rfl
    rw [hlater [] _ (List.pairwise_singleton ..) (List.forall_mem_nil _)
      (List.forall_mem_nil _) (by linarith)] at hfirst
    linarith
  · intro hle later horder hrefused t' htimes ht'
    rw [hlater later t' horder hrefused htimes (by linarith)]
    linarith

end Wait

/-- **Whether the memory bucket's wait is kept.** In every state that calls in
order of time leave, on any keys, for a request not before them: if it is
rejected, the wait it is told is long enough iff the key's next token is due
within a second or after a whole number of them. -/
theorem memoryBucket_retryAfter_iff {C W : ℤ} (hC : 1 ≤ C) (hW : 1 ≤ W) {past : List MemoryCall}
    (horder : past.Pairwise fun c d => c.now ≤ d.now) (key : String) {t : ℚ}
    (hpast : ∀ c ∈ past, c.now ≤ t) :
    let l := after serveMemory (newMemoryTokenBucket C (W * Duration.second)) past
    l.KeepsPromise key t ↔ l.DueOnTheSecond key t := by
  intro l
  have hwindow := FixedWindow.seconds_window W
  have hrate := ratePerMs_pos hC hW
  have hC1 : (1 : ℚ) ≤ C := by exact_mod_cast hC
  obtain ⟨b, hlevel, -, htime⟩ := atLevel_after hC hW hwindow key horder
  have hnow : ∀ lvl, b = some lvl → lvl.time ≤ t := fun lvl hlvl => by
    obtain ⟨c, hc, hct⟩ := htime lvl hlvl
    exact hct ▸ hpast c hc
  rcases le_or_gt 1 (found C W b t) with h1 | h1
  · -- the request is allowed, and the token was due
    refine iff_of_true (fun hrefused => ?_) fun stored hstored => .inl ?_
    · have hanswer := (hlevel.serve (c := ⟨key, t⟩) hW hwindow rfl hnow).1
      rw [serveMemory] at hanswer
      rw [hanswer] at hrefused
      simp [memoryResult, h1] at hrefused
    · rw [hlevel.level, Option.map_eq_some_iff] at hstored
      obtain ⟨⟨x, s⟩, rfl, rfl⟩ := hstored
      have := (Bucket.one_le_available_iff hC1 hrate (hnow _ rfl)).mp h1
      rw [hlevel.due hwindow]
      linarith
  · rw [keepsPromise_iff hC hW hwindow hlevel hnow h1]
    cases b with
    | none => exact absurd hC1 (not_le.mpr h1)
    | some lvl =>
        obtain ⟨x, s⟩ := lvl
        have hmissing : 0 < (1 - found C W (some ⟨x, s⟩) t) / (C / W : ℚ) :=
          div_pos (sub_pos.mpr h1) (div_pos (cast_pos hC) (cast_pos hW))
        have hdue : l.due (memoryBucket ⟨x, s⟩) - t =
            1000 * ((1 - found C W (some ⟨x, s⟩) t) / (C / W : ℚ)) := by
          rw [hlevel.due hwindow, ← due_found hC hW (hnow _ rfl) h1, missing_ms]
          ring
        rw [le_truncated_iff hmissing, MemoryTokenBucket.DueOnTheSecond, hlevel.level]
        simp only [Option.map_some, Option.some.injEq, forall_eq', hdue]
        constructor
        · rintro (hle | ⟨n, hn⟩)
          · exact .inl (by linarith)
          · exact .inr ⟨n, by rw [hn]⟩
        · rintro (hle | ⟨n, hn⟩)
          · exact .inl (by linarith)
          · exact .inr ⟨n, by linarith⟩

/-- A bucket of one token in ten seconds, just emptied. -/
def emptiedMemory : MemoryTokenBucket :=
  after serveMemory (newMemoryTokenBucket 1 (10 * Duration.second)) [⟨"ip:x:/", 0⟩]

/-- Half a second later nine and a half are missing, and the client is told nine. -/
theorem memoryBucket_retryAfter_short : ¬ emptiedMemory.KeepsPromise "ip:x:/" 500 := by
  intro h
  have hallowed := h (by decide +kernel) [] (List.pairwise_singleton ..) (fun _ hp => nomatch hp)
    9500 (fun _ hc => nomatch hc) (by decide +kernel)
  have hrefused : ((after serveMemory (emptiedMemory.allow 500 "ip:x:/").2 []).allow 9500
      "ip:x:/").1.allowed = false := by decide +kernel
  exact Bool.noConfusion (hallowed.symm.trans hrefused)

/-- At once, all ten are missing, and the client is told ten. -/
theorem memoryBucket_retryAfter_whole : emptiedMemory.KeepsPromise "ip:x:/" 0 := by
  refine (memoryBucket_retryAfter_iff le_rfl (by norm_num) (List.pairwise_singleton ..) "ip:x:/"
    (by simp)).mpr fun b hb => .inr ⟨10, ?_⟩
  have hb' : emptiedMemory.buckets "ip:x:/" = some b := hb
  have hdue : (emptiedMemory.buckets "ip:x:/").map emptiedMemory.due = some 10000 := by
    decide +kernel
  rw [hb', Option.map_some, Option.some.injEq] at hdue
  calc emptiedMemory.due b - 0 = 10000 - 0 := by rw [hdue]
    _ = 1000 * (10 : ℤ) := by norm_num

end RateX
