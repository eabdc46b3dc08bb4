import RateX.Limiter
import RateX.SlidingLog
import RateX.TokenBucketLaw

/-!
# The Redis sliding window, over whole runs

`slidingExec` is one execution of `SlidingWindowScript` on a key, at a true
time and with a caller's clock reading. `slidingMachine` is the same step with
the slot spelled out as a set and the time it was last touched.

- With agreeing clocks the script answers as the limiter that keeps its whole
  log (`slidingWindow_refines_log`): what it stores is the part of the log
  younger than the window when it was last touched, and that is all a later
  request may count.
- With clocks off by at most `d`, an admitted execution stays in the set for
  `W - 2 * d` of true time, whoever purges in between; so no shorter interval
  sees more than the limit (`slidingWindow_under_skew`).
-/

namespace RateX

open Redis Transducer Timeline SlidingLog

/-- One execution: when Redis runs it, the clock reading its caller took and
the member its caller drew. -/
structure Execution where
  time : ℚ
  reading : ℚ
  member : String

/-- `ARGV` for a limit `L` and a window of `W` milliseconds. -/
def slidingArgs (L : ℤ) (W : ℚ) (e : Execution) : SlidingArgs :=
  { limit := L, windowMs := W, nowMs := e.reading, member := e.member, ttlMs := 2 * W }

/-- One execution, on a key the server forgets at its deadline. -/
def slidingExec (L : ℤ) (W : ℚ) (key : Slot) (e : Execution) : Except Error (List Reply) × Slot :=
  execute (slidingWindowScript (slidingArgs L W e) e.time) (live e.time key)

/-- `Allow` of a sliding window passes `slidingArgs`, unless its window does
not fit a duration. -/
theorem SlidingWindow.args_eq {L W : ℤ} (hfit : Duration.Fits W) (now : ℚ) (member : String) :
    (newSlidingWindow L (.ofSeconds W)).args now member =
      slidingArgs L (W * 1000) ⟨now, now, member⟩ := by
  simp only [SlidingWindow.args, newSlidingWindow, slidingArgs,
    Duration.milliseconds_ofSeconds hfit, Duration.milliseconds_twice hfit]
  push_cast
  rw [mul_assoc]

/-! ## The script as a machine on sets -/

/-- The set as its last execution left it. -/
structure SetAt where
  members : List (String × ℚ)
  touched : ℚ

def slotOf (W : ℚ) : Option SetAt → Slot
  | none => none
  | some s => some ⟨.zset s.members, some (s.touched + 2 * W)⟩

/-- The members an execution at `time` finds. -/
def foundMembers (W : ℚ) : Option SetAt → ℚ → List (String × ℚ)
  | none, _ => []
  | some s, time => if s.touched + 2 * W ≤ time then [] else s.members

/-- What is left after `ZREMRANGEBYSCORE`. -/
def purged (W : ℚ) (members : List (String × ℚ)) (reading : ℚ) : List (String × ℚ) :=
  members.filter fun m => ¬(0 ≤ m.2 ∧ m.2 ≤ reading - W)

/-- What the script answers when the set, once purged, holds these scores. -/
def slidingReply (L : ℤ) (W : ℚ) (scores : List ℚ) (reading : ℚ) : List Reply :=
  if (scores.length : ℤ) < L then
    [.integer 1, .integer (L - scores.length - 1), .integer 0, .integer L]
  else
    let retryAfter : Int := match scores.min? with
      | none => 1
      | some score => max 1 ⌈(score + W - reading) / 1000⌉
    [.integer 0, .integer 0, .integer retryAfter, .integer L]

/-- The set an execution keeps: the members found, purged. -/
def keptMembers (W : ℚ) (s : Option SetAt) (e : Execution) : List (String × ℚ) :=
  purged W (foundMembers W s e.time) e.reading

def slidingMachine (L : ℤ) (W : ℚ) (s : Option SetAt) (e : Execution) :
    Except Error (List Reply) × Option SetAt :=
  let kept := keptMembers W s e
  (.ok (slidingReply L W (kept.map Prod.snd) e.reading),
    some ⟨if (kept.length : ℤ) < L then
        kept.filter (fun m => m.1 ≠ e.member) ++ [(e.member, e.reading)]
      else kept, e.time⟩)

theorem isSet_live (W : ℚ) (s : Option SetAt) (time : ℚ) :
    IsSet (live time (slotOf W s)) (foundMembers W s time) := by
  cases s with
  | none => exact isSet_none
  | some s =>
      rcases le_or_gt (s.touched + 2 * W) time with h | h
      · simp only [slotOf, live_of_le _ h, foundMembers, if_pos h]
        exact isSet_none
      · simp only [slotOf, live_of_lt _ h, foundMembers, if_neg (not_le.mpr h)]
        exact isSet_some ..

/-- What an execution that keeps `kept` leaves: its own member beside them, if
there is room. -/
def leftMembers (L : ℤ) (kept : List (String × ℚ)) (e : Execution) : List (String × ℚ) :=
  if (kept.length : ℤ) < L then kept.filter (fun m => m.1 ≠ e.member) ++ [(e.member, e.reading)]
  else kept

theorem mem_leftMembers {L : ℤ} {kept : List (String × ℚ)} {e : Execution} {m : String × ℚ}
    (h : m ∈ leftMembers L kept e) : m ∈ kept ∨ m = (e.member, e.reading) := by
  unfold leftMembers at h
  split at h
  · rcases List.mem_append.mp h with h | h
    · exact .inl (List.mem_of_mem_filter h)
    · exact .inr (List.mem_singleton.mp h)
  · exact .inl h

/-- **One execution on a set**, whoever left it there. -/
theorem slidingExec_of_set {L : ℤ} {W : ℚ} (hL : 1 ≤ L) (hW : 0 < W) {key : Slot} {e : Execution}
    {members : List (String × ℚ)} (h : IsSet (live e.time key) members) :
    slidingExec L W key e =
      (.ok (slidingReply L W ((purged W members e.reading).map Prod.snd) e.reading),
        some ⟨.zset (leftMembers L (purged W members e.reading) e), some (e.time + 2 * W)⟩) := by
  have httl : (0 : ℚ) < 2 * W := by linarith
  have hkept : (slidingArgs L W e).kept members = purged W members e.reading := rfl
  have hscript := slidingWindowScript_set h (slidingArgs L W e) e.time
  rw [hkept] at hscript
  generalize purged W members e.reading = kept at hscript
  simp only [slidingExec, execute, slidingReply, leftMembers, List.length_map]
  obtain ⟨hlt, deadline, heq⟩ | ⟨hge, set, hset, heq⟩ := hscript
  · have hlt' : (kept.length : ℤ) < L := by
      simp only [slidingArgs] at hlt
      exact_mod_cast hlt
    have hleft : luaReply ((L : ℚ) - kept.length - 1) = .integer (L - kept.length - 1) := by
      rw [← luaReply_intCast]
      push_cast
      rfl
    rw [heq, if_pos hlt', if_pos hlt']
    simp only [slidingArgs, pexpire_some _ httl, hleft, luaReply_intCast]
    rfl
  · have hge' : L ≤ (kept.length : ℤ) := by
      simp only [slidingArgs] at hge
      exact_mod_cast hge
    have hne : kept ≠ [] := fun h0 => by
      rw [h0, List.length_nil, Nat.cast_zero] at hge'
      omega
    rw [heq, if_neg (not_lt.mpr hge'), if_neg (not_lt.mpr hge')]
    simp only [slidingArgs, hset.pexpire hne httl, luaReply_intCast]
    rfl

/-- **One execution** is one step of the machine. -/
theorem slidingExec_eq {L : ℤ} {W : ℚ} (hL : 1 ≤ L) (hW : 0 < W) (s : Option SetAt)
    (e : Execution) :
    slidingExec L W (slotOf W s) e =
      ((slidingMachine L W s e).1, slotOf W (slidingMachine L W s e).2) :=
  slidingExec_of_set hL hW (isSet_live W s e.time)

theorem trace_slidingExec {L : ℤ} {W : ℚ} (hL : 1 ≤ L) (hW : 0 < W) (run : List Execution) :
    trace (slidingExec L W) none run = trace (slidingMachine L W) none run :=
  (trace_eq_of_proj (slotOf W) (fun s e _ => slidingExec_eq hL hW s e) none).symm

theorem allows_slidingReply (L : ℤ) (W : ℚ) (scores : List ℚ) (reading : ℚ) :
    allows (.ok (slidingReply L W scores reading)) = decide ((scores.length : ℤ) < L) := by
  unfold slidingReply
  split <;> simp_all [allows]

theorem slidingMachine_allows {L : ℤ} {W : ℚ} (s : Option SetAt) (e : Execution) :
    allows (slidingMachine L W s e).1 = decide (((keptMembers W s e).length : ℤ) < L) := by
  rw [slidingMachine, allows_slidingReply, List.length_map]

abbrev Past := List (Execution × Except Error (List Reply))

abbrev admittedTimes (past : Past) : List ℚ := picked Execution.time allows past

/-- A set is a product of its past: its members were drawn there, and the last
execution of it is the one that touched the set. -/
structure Traced (past : Past) (s : SetAt) : Prop where
  drawn : ∀ m ∈ s.members, ∃ p ∈ past, p.1.member = m.1
  last : ∃ p ∈ past, p.1.time = s.touched
  latest : ∀ p ∈ past, p.1.time ≤ s.touched

theorem mem_keptMembers {W : ℚ} {s : SetAt} {e : Execution} {m : String × ℚ}
    (h : m ∈ keptMembers W (some s) e) : m ∈ s.members := by
  have hm := List.mem_of_mem_filter h
  simp only [foundMembers] at hm
  split at hm
  · exact absurd hm List.not_mem_nil
  · exact hm

/-- What an execution leaves, its own member being new to the set. -/
def leftBy (L : ℤ) (W : ℚ) (s : Option SetAt) (e : Execution) : SetAt :=
  ⟨keptMembers W s e ++
      if ((keptMembers W s e).length : ℤ) < L then [(e.member, e.reading)] else [],
    e.time⟩

/-- `past` may be followed by `e`: time does not go back, no member is drawn twice. -/
def Precedes (e f : Execution) : Prop := e.time ≤ f.time ∧ e.member ≠ f.member

theorem slidingMachine_snd {L : ℤ} {W : ℚ} {past : Past} {s : Option SetAt} {e : Execution}
    (hs : ∀ s', s = some s' → Traced past s') (he : ∀ p ∈ past, Precedes p.1 e) :
    (slidingMachine L W s e).2 = some (leftBy L W s e) := by
  have hfresh : (keptMembers W s e).filter (fun m => m.1 ≠ e.member) = keptMembers W s e := by
    refine List.filter_eq_self.mpr fun m hm => ?_
    cases s with
    | none => exact absurd hm List.not_mem_nil
    | some s =>
        obtain ⟨p, hp, hname⟩ := (hs s rfl).drawn m (mem_keptMembers hm)
        simpa [hname] using (he p hp).2
  simp only [slidingMachine, leftBy, hfresh]
  split <;> simp

theorem traced_leftBy {L : ℤ} {W : ℚ} {past : Past} {s : Option SetAt} {e : Execution}
    (hs : ∀ s', s = some s' → Traced past s') (he : ∀ p ∈ past, Precedes p.1 e)
    (out : Except Error (List Reply)) : Traced (past ++ [(e, out)]) (leftBy L W s e) where
  drawn m hm := by
    rcases List.mem_append.mp hm with hm | hm
    · cases s with
      | none => exact absurd hm List.not_mem_nil
      | some s =>
          obtain ⟨p, hp, hname⟩ := (hs s rfl).drawn m (mem_keptMembers hm)
          exact ⟨p, List.mem_append_left _ hp, hname⟩
    · split at hm
      · obtain rfl := List.mem_singleton.mp hm
        exact ⟨(e, out), by simp, rfl⟩
      · exact absurd hm List.not_mem_nil
  last := ⟨(e, out), by simp, rfl⟩
  latest p hp := by
    rcases List.mem_append.mp hp with hp | hp
    · exact (he p hp).1
    · rw [List.mem_singleton.mp hp]
      exact le_rfl

/-! ## Agreeing clocks: the limiter that never forgets -/

/-- The reference: it keeps the time of every admitted request, counts those
in `(now - W, now]` and answers by the count. -/
def reference (L : ℤ) (W : ℚ) (log : List ℚ) (e : Execution) :
    Except Error (List Reply) × List ℚ :=
  (.ok (slidingReply L W (counted W log e.time) e.time), (serve W L log e.time).2)

theorem after_reference (L : ℤ) (W : ℚ) (log : List ℚ) (run : List Execution) :
    after (reference L W) log run = after (serve W L) log (run.map Execution.time) := by
  induction run generalizing log with
  | nil => rfl
  | cons e run ih => exact ih _

/-- The set is the part of the log younger than `W` when it was last touched. -/
def View (W : ℚ) (s : Option SetAt) (log : List ℚ) : Prop :=
  match s with
  | none => log = []
  | some s => s.members.map Prod.snd = young W log s.touched ∧
      ∀ t ∈ log, 0 ≤ t ∧ t ≤ s.touched

/-- So it is all that the reference counts later on. -/
theorem keptMembers_scores {W : ℚ} (hW : 0 < W) {s : Option SetAt} {log : List ℚ}
    (h : View W s log) {e : Execution} (he : ∀ s', s = some s' → s'.touched ≤ e.time)
    (hsync : e.reading = e.time) :
    (keptMembers W s e).map Prod.snd = counted W log e.time := by
  cases s with
  | none =>
      obtain rfl : log = [] := h
      rfl
  | some s =>
      obtain ⟨hview, hlog⟩ := h
      have hle : s.touched ≤ e.time := he s rfl
      rw [counted_eq fun t ht => (hlog t ht).2.trans hle, keptMembers, purged, hsync]
      rcases le_or_gt (s.touched + 2 * W) e.time with hexp | hlive
      · have hold : ∀ t ∈ log, ¬ decide (e.time - W < t) = true := fun t ht => by
          have := (hlog t ht).2
          simp only [decide_eq_true_eq, not_lt]
          linarith
        simp only [foundMembers, if_pos hexp, List.filter_nil, List.map_nil]
        exact (List.filter_eq_nil_iff.mpr hold).symm
      · have hscores : ∀ ms : List (String × ℚ),
            (ms.filter fun m => decide ¬(0 ≤ m.2 ∧ m.2 ≤ e.time - W)).map Prod.snd =
              (ms.map Prod.snd).filter fun t => decide ¬(0 ≤ t ∧ t ≤ e.time - W) := fun ms => by
          rw [List.filter_map]
          rfl
        simp only [foundMembers, if_neg (not_le.mpr hlive)]
        rw [hscores, hview, young, young, List.filter_filter]
        refine List.filter_congr fun t ht => ?_
        rw [Bool.eq_iff_iff]
        simp only [Bool.and_eq_true, decide_eq_true_eq, not_and, not_le]
        constructor
        · exact fun hkeep => hkeep.1 (hlog t ht).1
        · exact fun hlt => ⟨fun _ => hlt, by linarith⟩

/-- What an execution leaves is the view of the log with its own instant, if admitted. -/
theorem view_leftBy {L : ℤ} {W : ℚ} (hW : 0 < W) {s : Option SetAt} {log : List ℚ} {e : Execution}
    (hpast : ∀ t ∈ log, 0 ≤ t ∧ t ≤ e.time)
    (hscores : (keptMembers W s e).map Prod.snd = counted W log e.time)
    (hsync : 0 ≤ e.time ∧ e.reading = e.time) : View W (some (leftBy L W s e))
      (log ++ if ((keptMembers W s e).length : ℤ) < L then [e.time] else []) := by
  simp only [View, leftBy]
  constructor
  · rw [List.map_append, hscores, counted_eq fun t ht => (hpast t ht).2, young_append]
    congr 1
    split
    · rw [young_self hW, List.map_singleton, hsync.2]
    · rfl
  · intro t ht
    rcases List.mem_append.mp ht with ht | ht
    · exact hpast t ht
    · split at ht
      · rw [List.mem_singleton.mp ht]
        exact ⟨hsync.1, le_rfl⟩
      · exact absurd ht List.not_mem_nil

/-- The simulation: the machine's set views the reference's log, which is the
log of what the past admitted. -/
def Mirrors (L : ℤ) (W : ℚ) (past : Past) (s : Option SetAt) (log : List ℚ) : Prop :=
  (∀ s', s = some s' → Traced past s') ∧ View W s log ∧ log = admittedTimes past ∧ Sparse W L log

theorem mirrors_step {L : ℤ} {W : ℚ} (hW : 0 < W) {past : Past} {s : Option SetAt} {log : List ℚ}
    {e : Execution} (h : Mirrors L W past s log) (he : ∀ p ∈ past, Precedes p.1 e)
    (hsync : 0 ≤ e.time ∧ e.reading = e.time) :
    (slidingMachine L W s e).1 = (reference L W log e).1 ∧
      Mirrors L W (past ++ [(e, (slidingMachine L W s e).1)]) (slidingMachine L W s e).2
        (reference L W log e).2 := by
  obtain ⟨htraced, hview, hlog, hsparse⟩ := h
  have htouched : ∀ s', s = some s' → s'.touched ≤ e.time := fun s' hs' => by
    obtain ⟨p, hp, hlast⟩ := (htraced s' hs').last
    exact hlast ▸ (he p hp).1
  have hscores := keptMembers_scores hW hview htouched hsync.2
  have hpast : ∀ t ∈ log, 0 ≤ t ∧ t ≤ e.time := by
    cases s with
    | none => obtain rfl : log = [] := hview; simp
    | some s => exact fun t ht => ⟨(hview.2 t ht).1, (hview.2 t ht).2.trans (htouched s rfl)⟩
  have hlen : (keptMembers W s e).length = (counted W log e.time).length := by
    rw [← hscores, List.length_map]
  have hreply : (slidingMachine L W s e).1 = (reference L W log e).1 := by
    simp only [slidingMachine, reference, hscores, hsync.2]
  have hnew : (serve W L log e.time).2 =
      log ++ if ((keptMembers W s e).length : ℤ) < L then [e.time] else [] := by
    rw [hlen]
    rcases lt_or_ge ((counted W log e.time).length : ℤ) L with hlt | hge
    · rw [serve_of_lt hlt, if_pos hlt]
    · rw [serve_of_le hge, if_neg (not_lt.mpr hge), List.append_nil]
  refine ⟨hreply, ?_, ?_, ?_, sparse_serve hsparse fun t ht => (hpast t ht).2⟩
  · intro s' hs'
    rw [slidingMachine_snd htraced he] at hs'
    obtain rfl := Option.some.inj hs'
    exact traced_leftBy htraced he _
  · rw [slidingMachine_snd htraced he, reference, hnew]
    exact view_leftBy hW hpast hscores hsync
  · rw [reference, hnew, admittedTimes, picked_append, picked_singleton, slidingMachine_allows,
      hlog]
    simp only [decide_eq_true_eq]

theorem slidingExec_mirrors {L : ℤ} {W : ℚ} (hL : 1 ≤ L) (hW : 0 < W) {run : List Execution}
    (horder : run.Pairwise Precedes) (hsync : ∀ e ∈ run, 0 ≤ e.time ∧ e.reading = e.time) :
    trace (slidingExec L W) none run = trace (reference L W) [] run ∧
      Sparse W L (admittedTimes (trace (slidingExec L W) none run)) ∧
      after (reference L W) [] run = admittedTimes (trace (slidingExec L W) none run) := by
  obtain ⟨htrace, -, -, hlog, hsparse⟩ := trace_sim (slidingMachine L W) (reference L W)
    (S := Mirrors L W) (s := none) (t := []) horder hsync
    ⟨fun _ h => (nomatch h), rfl, rfl, sparse_nil W (by omega)⟩
    (fun _ _ _ _ h he hsync => mirrors_step hW h he hsync)
  rw [trace_slidingExec hL hW]
  exact ⟨htrace, hlog ▸ hsparse, hlog⟩

/-- **The sliding window keeps its log.** On a run in order of time, with
clocks that agree, every answer is the reference's; hence no half-open
interval of length `W`, open on either side, sees more than `L` admitted
requests, and a request is refused only where the interval that ends with it
has `L` already. -/
theorem slidingWindow_refines_log {L W : ℤ} (hL : 1 ≤ L) (hW : 1 ≤ W) {run : List Execution}
    (horder : run.Pairwise Precedes) (hsync : ∀ e ∈ run, 0 ≤ e.time ∧ e.reading = e.time) :
    let exec := slidingExec L (W * 1000)
    let log := admittedTimes (trace exec none run)
    trace exec none run = trace (reference L (W * 1000)) [] run ∧
      (∀ c : ℚ, (log.countP (fun t => c - W * 1000 < t ∧ t ≤ c) : ℤ) ≤ L) ∧
      (∀ c : ℚ, (log.countP (fun t => c ≤ t ∧ t < c + W * 1000) : ℤ) ≤ L) ∧
      ∀ before e later, run = before ++ e :: later →
        (allows (exec (after exec none before) e).1 = true ↔
          ((admittedTimes (trace exec none before)).countP
            (fun t => e.time - W * 1000 < t ∧ t ≤ e.time) : ℤ) < L) := by
  have hms : (0 : ℚ) < W * 1000 := by
    have := cast_pos hW
    linarith
  obtain ⟨htrace, hsparse, -⟩ := slidingExec_mirrors hL hms horder hsync
  refine ⟨htrace, hsparse.halfOpen, hsparse.halfOpen', ?_⟩
  rintro before e later rfl
  obtain ⟨hbefore, -, hlog⟩ := slidingExec_mirrors hL hms
    (horder.sublist (List.sublist_append_left ..)) fun f hf => hsync f (List.mem_append_left _ hf)
  -- the answer to `e` is the one entry of the two traces after `before`
  rw [trace_append, trace_append, hbefore] at htrace
  have hanswer : (slidingExec L (W * 1000) (after (slidingExec L (W * 1000)) none before) e).1 =
      (reference L (W * 1000) (after (reference L (W * 1000)) [] before) e).1 :=
    congrArg Prod.snd (List.cons_eq_cons.mp (List.append_cancel_left htrace)).1
  rw [hanswer, reference, allows_slidingReply, hlog, counted, decide_eq_true_eq,
    List.countP_eq_length_filter]

/-- A limit of one a second, met by requests a second apart and refusing one
in between. -/
theorem slidingWindow_refines_log_one :
    trace (slidingExec 1 ((1 : ℤ) * 1000)) none [⟨0, 0, "a"⟩, ⟨999, 999, "b"⟩, ⟨1000, 1000, "c"⟩] =
      trace (reference 1 ((1 : ℤ) * 1000)) [] [⟨0, 0, "a"⟩, ⟨999, 999, "b"⟩, ⟨1000, 1000, "c"⟩] :=
  (slidingWindow_refines_log (by norm_num) (by norm_num) (by simp [Precedes]; norm_num)
    (by simp)).1

/-! ## Disagreeing clocks: what a set still owes -/

/-- The members of the executions admitted less than `D` before `time`. -/
def owed (D : ℚ) (past : Past) (time : ℚ) : List (String × ℚ) :=
  (past.filter fun p => allows p.2 ∧ time - p.1.time < D).map fun p => (p.1.member, p.1.reading)

theorem owed_append (D : ℚ) (past new : Past) (time : ℚ) :
    owed D (past ++ new) time = owed D past time ++ owed D new time := by
  rw [owed, List.filter_append, List.map_append]
  rfl

theorem owed_later {D t t' : ℚ} (past : Past) (h : t ≤ t') :
    List.Sublist (owed D past t') (owed D past t) := by
  refine (List.monotone_filter_right past fun p hp => ?_).map _
  simp only [decide_eq_true_eq] at hp ⊢
  exact ⟨hp.1, by linarith [hp.2]⟩

theorem length_owed (D : ℚ) (past : Past) (time : ℚ) :
    (owed D past time).length = (admittedTimes past).countP fun t => time - D < t := by
  induction past with
  | nil => rfl
  | cons p past ih =>
      have hone : (owed D [p] time).length =
          (admittedTimes [p]).countP fun t => time - D < t := by
        rw [admittedTimes, picked_singleton p.1 p.2]
        have : time - p.1.time < D ↔ time - D < p.1.time := by constructor <;> intro h <;> linarith
        by_cases ha : allows p.2 = true <;> by_cases ht : time - D < p.1.time <;>
          simp_all [owed]
      have hsplit : p :: past = [p] ++ past := rfl
      rw [hsplit, owed_append, admittedTimes, picked_append, List.length_append, List.countP_append,
        ih, hone]

/-- The set holds what it owes: with clocks off by at most `d`, every execution
admitted less than `W - 2 * d` before the set was last touched. -/
def Retains (L : ℤ) (W d : ℚ) (past : Past) (s : Option SetAt) : Prop :=
  (∀ s', s = some s' → Traced past s' ∧
    List.Sublist (owed (W - 2 * d) past s'.touched) s'.members) ∧
  (s = none → past = []) ∧ Sparse (W - 2 * d) L (admittedTimes past)

/-- Neither the expiry nor the purge of a later execution takes any of it: the
member's reading is at most `d` behind its time, the purging one at most `d`
ahead. -/
theorem owed_sublist_kept {L : ℤ} {W d : ℚ} (hd : 0 ≤ d) (hdW : 2 * d < W) {past : Past}
    {s : Option SetAt} (h : Retains L W d past s) (hpast : ∀ p ∈ past, |p.1.reading - p.1.time| ≤ d)
    {e : Execution} (he : ∀ p ∈ past, Precedes p.1 e) (hskew : |e.reading - e.time| ≤ d) :
    List.Sublist (owed (W - 2 * d) past e.time) (keptMembers W s e) := by
  obtain ⟨hset, hnone, -⟩ := h
  cases s with
  | none =>
      rw [hnone rfl]
      exact List.Sublist.refl _
  | some s =>
      obtain ⟨htraced, howed⟩ := hset s rfl
      obtain ⟨p, hp, hlast⟩ := htraced.last
      have hle : s.touched ≤ e.time := hlast ▸ (he p hp).1
      rcases le_or_gt (s.touched + 2 * W) e.time with hexp | hlive
      · have hall : owed (W - 2 * d) past e.time = [] := by
          refine List.map_eq_nil_iff.mpr (List.filter_eq_nil_iff.mpr fun p hp => ?_)
          have := htraced.latest p hp
          simp only [decide_eq_true_eq, not_and, not_lt]
          intro _
          linarith
        rw [hall]
        exact List.nil_sublist _
      · have hkeep : (owed (W - 2 * d) past e.time).filter
            (fun m => ¬(0 ≤ m.2 ∧ m.2 ≤ e.reading - W)) = owed (W - 2 * d) past e.time := by
          refine List.filter_eq_self.mpr fun m hm => ?_
          obtain ⟨p, hp, rfl⟩ := List.mem_map.mp hm
          obtain ⟨hpp, hyoung⟩ := List.mem_filter.mp hp
          have h1 := abs_le.mp (hpast p hpp)
          have h2 := abs_le.mp hskew
          simp only [decide_eq_true_eq] at hyoung ⊢
          rintro ⟨-, hold⟩
          linarith [hyoung.2, h1.1, h2.2]
        rw [keptMembers, purged, foundMembers, if_neg (not_le.mpr hlive), ← hkeep]
        exact ((owed_later past hle).trans howed).filter _

theorem retains_step {L : ℤ} {W d : ℚ} (hd : 0 ≤ d) (hdW : 2 * d < W) {past : Past}
    {s : Option SetAt} (h : Retains L W d past s) (hpast : ∀ p ∈ past, |p.1.reading - p.1.time| ≤ d)
    {e : Execution} (he : ∀ p ∈ past, Precedes p.1 e) (hskew : |e.reading - e.time| ≤ d) :
    Retains L W d (past ++ [(e, (slidingMachine L W s e).1)]) (slidingMachine L W s e).2 := by
  have hkept := owed_sublist_kept hd hdW h hpast he hskew
  have htraced : ∀ s', s = some s' → Traced past s' := fun s' hs' => (h.1 s' hs').1
  have hallows := slidingMachine_allows (L := L) (W := W) s e
  rw [slidingMachine_snd htraced he]
  refine ⟨fun s' hs' => ?_, fun hs' => (nomatch hs'), ?_⟩
  · obtain rfl := Option.some.inj hs'
    refine ⟨traced_leftBy htraced he _, ?_⟩
    rw [owed_append]
    refine hkept.append ?_
    by_cases hlt : ((keptMembers W s e).length : ℤ) < L
    · rw [if_pos hlt]
      exact List.filter_sublist.map _
    · simp [owed, hallows, hlt]
  · rw [admittedTimes, picked_append, picked_singleton, hallows]
    by_cases hlt : ((keptMembers W s e).length : ℤ) < L
    · rw [if_pos (by simpa using hlt)]
      refine h.2.2.concat ?_
      have := hkept.length_le
      rw [length_owed] at this
      omega
    · rw [if_neg (by simpa using hlt), List.append_nil]
      exact h.2.2

/-- **Skew costs twice its bound.** When every reading is within `d` of its
true time, a true-time interval shorter than `W - 2 * d` sees at most `L`
admitted executions, whatever order the readings come in. -/
theorem slidingWindow_under_skew {L : ℤ} (hL : 1 ≤ L) {W d : ℚ} (hdW : 2 * d < W)
    {run : List Execution} (horder : run.Pairwise Precedes)
    (hskew : ∀ e ∈ run, |e.reading - e.time| ≤ d) {a b : ℚ} (hab : b - a < W - 2 * d) :
    (within a b (admittedTimes (trace (slidingExec L W) none run)) : ℤ) ≤ L := by
  cases run with
  | nil => simpa using (by omega : 0 ≤ L)
  | cons e run =>
      have hd : 0 ≤ d := (abs_nonneg _).trans (hskew e (List.mem_cons_self ..))
      obtain ⟨⟨-, -, hsparse⟩, -⟩ := trace_invariant (slidingMachine L W)
        (I := fun past s => Retains L W d past s ∧ ∀ p ∈ past, |p.1.reading - p.1.time| ≤ d)
        (s := none) horder hskew
        ⟨⟨fun _ h => (nomatch h), fun _ => rfl, sparse_nil _ (by omega)⟩, fun _ h => (nomatch h)⟩
        (fun past s e h he hskew => ⟨retains_step hd hdW h.1 h.2 he hskew, fun p hp => by
          rcases List.mem_append.mp hp with hp | hp
          · exact h.2 p hp
          · rw [List.mem_singleton.mp hp]; exact hskew⟩)
      rw [trace_slidingExec hL (by linarith)]
      exact hsparse.within hab

/-- A fast caller and a slow one, four tenths of a second apart. -/
theorem slidingWindow_under_skew_two :
    (within 0 400 (admittedTimes (trace (slidingExec 1 1000) none
      [⟨0, 200, "fast"⟩, ⟨400, 200, "slow"⟩])) : ℤ) ≤ 1 :=
  slidingWindow_under_skew (d := 200) (by norm_num) (by norm_num) (by simp [Precedes])
    (by simp; norm_num [abs_le]) (by norm_num)

end RateX
