import RateX.BucketAnswers
import RateX.FixedWindowCounter
import RateX.SlidingWindowLaw

/-!
# The wait a refused client is told

Both scripts answer a request that they reject with `retry_after`, a whole
number of seconds. The keys here are what any executions have left, under
policies that may have been edited in between.

- The token bucket's wait is enough, and no shorter one is
  (`tokenBucket_retryAfter`): the requests rejected meanwhile change nothing.
- The sliding window's wait is that of its oldest entry. It is enough iff fewer
  than the limit of the entries leave in a later second than some other
  (`slidingWindow_retryAfter_iff`); a set that a larger limit has filled may
  hold more of them.
-/

namespace RateX

open Redis Transducer

/-- The wait in the answer of a script that rejects. -/
def refusal : Except Error (List Reply) → Option ℤ
  | .ok [.integer 0, _, .integer retryAfter, _] => some retryAfter
  | _ => none

/-! ## The token bucket -/

/-- An execution of the token bucket's script, under the policy of its time. -/
structure TokenCall where
  capacity : ℤ
  capacity_pos : 1 ≤ capacity
  window : ℤ
  window_pos : 1 ≤ window
  now : ℚ

def serveToken (key : Slot) (c : TokenCall) : Except Error (List Reply) × Slot :=
  tokenExecLive c.capacity c.window key c.now

section TokenBucket

variable {C W : ℤ}

theorem refusal_tokenReply (x : ℚ) : refusal (.ok (tokenReply C W x)) =
    if 1 ≤ x then none else some ⌈(1 - x) / (C / W : ℚ)⌉ := by
  unfold tokenReply
  split <;> rfl

/-- Whatever policies served it, the key's hash is not overdrawn. -/
theorem funded_after (past : List TokenCall) : Funded (after serveToken none past) := by
  induction past using List.reverseRecOn with
  | nil => exact fun _ _ _ h => nomatch h
  | append_singleton past c ih =>
      rw [after_append]
      exact funded_tokenExecLive c.capacity_pos c.window_pos ih c.now

theorem refused_taken {b : Option (Bucket.Level ℚ)} {times : List ℚ}
    (h : ∀ p ∈ trace (tokenMachine C W) b times, refusal p.2 ≠ none) :
    ∀ p ∈ trace (taken C W) b times, p.2 = false := by
  induction times generalizing b with
  | nil => exact fun _ hp => nomatch hp
  | cons now times ih =>
      have hfirst : ¬ 1 ≤ found C W b now := fun h1 => h _ (List.mem_cons_self ..) (by
        rw [tokenMachine, refusal_tokenReply, if_pos h1])
      intro p hp
      rcases List.mem_cons.mp hp with rfl | hp
      · rw [taken, Bucket.take_of_lt (not_le.mp hfirst)]
      · exact ih (fun q hq => h q (List.mem_cons_of_mem _ hq)) p hp

/-- A key with `x` tokens at `t`, and nothing but rejected requests since: the
next one finds a token once the time since `t` has earned what was missing. -/
theorem answer_after_refused (hC : 1 ≤ C) (hW : 1 ≤ W) {key : Slot} {x t : ℚ} (h0 : 0 ≤ x)
    (hxC : x ≤ C) (hkey : HoldsUntil W key (some ⟨x, t⟩)) {times : List ℚ}
    (horder : (t :: times).Pairwise (· ≤ ·))
    (htimes : ∀ p ∈ trace (tokenExecLive C W) key times, refusal p.2 ≠ none) {t' : ℚ}
    (ht' : ∀ m ∈ t :: times, m ≤ t') :
    ∃ y, (tokenExecLive C W (after (tokenExecLive C W) key times) t').1 = .ok (tokenReply C W y) ∧
      (1 ≤ y ↔ 1000 * ((1 - x) / (C / W : ℚ)) ≤ t' - t) := by
  have hC1 : (1 : ℚ) ≤ C := by exact_mod_cast hC
  obtain ⟨htrace, hheld, hwithin⟩ :=
    trace_tokenExecLive hC hW hkey (Bucket.within_some h0 hxC) times
  rw [htrace] at htimes
  refine ⟨_, (tokenExecLive_spec hC hW hheld hwithin t').1, ?_⟩
  rw [after_tokenMachine, found,
    Bucket.available_after_refused hC1 horder (refused_taken htimes) ht',
    Bucket.one_le_available_iff hC1 (ratePerMs_pos hC hW) (ht' t (List.mem_cons_self ..)),
    missing_ms]

/-- **The token bucket's wait is kept, and is the least.** On a key that any
policies have served, let a request at `t` be told to wait `r` seconds. If the
requests after it are rejected too, one that comes `r` seconds after `t` or
later is allowed, and one that comes any fewer whole seconds after `t` is not. -/
theorem tokenBucket_retryAfter (hC : 1 ≤ C) (hW : 1 ≤ W) (past : List TokenCall) {t : ℚ} {r : ℤ}
    (hrefused : refusal (tokenExecLive C W (after serveToken none past) t).1 = some r) :
    let key := (tokenExecLive C W (after serveToken none past) t).2
    1 ≤ r ∧ ∀ times : List ℚ, (t :: times).Pairwise (· ≤ ·) →
      (∀ p ∈ trace (tokenExecLive C W) key times, refusal p.2 ≠ none) →
      ∀ t', (∀ m ∈ t :: times, m ≤ t') →
        let answer := (tokenExecLive C W (after (tokenExecLive C W) key times) t').1
        (t + 1000 * r ≤ t' → allows answer = true) ∧
          ∀ q : ℤ, q < r → t' = t + 1000 * q → refusal answer ≠ none := by
  intro key
  obtain ⟨reply, hreply⟩ : ∃ reply, (tokenExecLive C W (after serveToken none past) t).1 =
      .ok reply := by
    cases hout : (tokenExecLive C W (after serveToken none past) t).1 with
    | ok reply => exact ⟨reply, rfl⟩
    | error e => rw [hout] at hrefused; cases hrefused
  obtain ⟨x, h0, hxC, rfl, hkey⟩ := tokenExecLive_funded hC hW (funded_after past) hreply
  rw [hreply, refusal_tokenReply] at hrefused
  split at hrefused
  · cases hrefused
  rename_i hx
  obtain rfl := Option.some.inj hrefused
  rw [if_neg hx] at hkey
  have hmissing : 0 < (1 - x) / (C / W : ℚ) :=
    div_pos (by linarith) (div_pos (cast_pos hC) (cast_pos hW))
  refine ⟨Int.one_le_ceil_iff.mpr hmissing, fun times horder htimes t' ht' => ?_⟩
  obtain ⟨y, hanswer, hy⟩ := answer_after_refused hC hW h0 hxC hkey horder htimes ht'
  simp only [key, hanswer, allows_tokenReply, refusal_tokenReply, decide_eq_true_eq]
  refine ⟨fun hle => hy.mpr ?_, ?_⟩
  · have := Int.le_ceil ((1 - x) / (C / W : ℚ))
    linarith
  · rintro q hq rfl
    have hlt := Int.lt_ceil.mp hq
    have hshort : ¬ 1 ≤ y := fun h1 => by
      have := hy.mp h1
      linarith
    rw [if_neg hshort]
    exact Option.some_ne_none _

/-- A request that empties a bucket of one token a second. -/
def emptied : List TokenCall := [⟨1, by norm_num, 1, by norm_num, 0⟩]

/-- One second is what the next one has to wait. -/
theorem tokenBucket_retryAfter_one :
    allows (tokenExecLive 1 1 (tokenExecLive 1 1 (after serveToken none emptied) 0).2 1000).1 =
      true :=
  ((tokenBucket_retryAfter (by norm_num) (by norm_num) emptied (t := 0) (r := 1)
    (by decide +kernel)).2 [] (List.pairwise_singleton ..) (by simp) 1000 (by simp)).1
    (by norm_num)

end TokenBucket

/-! ## The sliding window -/

/-- An execution of the sliding window's script, under the policy of its time. -/
structure SlidingCall where
  limit : ℤ
  limit_pos : 1 ≤ limit
  window : ℤ
  window_pos : 1 ≤ window
  time : ℚ
  nonneg : 0 ≤ time
  member : String

def serveSliding (key : Slot) (c : SlidingCall) : Except Error (List Reply) × Slot :=
  slidingExec c.limit (c.window * 1000) key ⟨c.time, c.time, c.member⟩

/-- The entries that an execution at `t` counts, with a window of `W` seconds. -/
def scoresIn (W : ℤ) (key : Slot) (t : ℚ) : List ℚ :=
  match live t key with
  | some ⟨.zset members, _⟩ => (members.map Prod.snd).filter fun score => t - W * 1000 < score
  | _ => []

/-- In which second after `t` an entry leaves the window. -/
def leaves (W : ℤ) (t score : ℚ) : ℤ := ⌈(score + W * 1000 - t) / 1000⌉

/-- Some entry has the limit's worth of others that leave in a later second. -/
def Outlasted (L W : ℤ) (key : Slot) (t : ℚ) : Prop :=
  ∃ score ∈ scoresIn W key t,
    L ≤ (scoresIn W key t).countP fun other => leaves W t score < leaves W t other

instance (L W : ℤ) (key : Slot) (t : ℚ) : Decidable (Outlasted L W key t) :=
  inferInstanceAs (Decidable (∃ score ∈ _, _))

/-- If a request at `t` is told to wait `r` seconds and everything after it is
rejected too, a request under the same limit `r` seconds after `t` or later is
allowed. -/
def KeepsPromise (L W : ℤ) (key : Slot) (t : ℚ) (member : String) : Prop :=
  let out := slidingExec L (W * 1000) key ⟨t, t, member⟩
  ∀ r, refusal out.1 = some r → ∀ later : List SlidingCall,
    (t :: later.map SlidingCall.time).Pairwise (· ≤ ·) →
    (∀ p ∈ trace serveSliding out.2 later, refusal p.2 ≠ none) →
    ∀ t' member', (∀ c ∈ later, c.time ≤ t') → t + 1000 * r ≤ t' →
      allows (slidingExec L (W * 1000) (after serveSliding out.2 later) ⟨t', t', member'⟩).1 = true

section SlidingWindow

variable {L W : ℤ}

theorem refusal_slidingReply (w : ℚ) (scores : List ℚ) (reading : ℚ) :
    refusal (.ok (slidingReply L w scores reading)) = if (scores.length : ℤ) < L then none
      else some (match scores.min? with
        | none => 1
        | some score => max 1 ⌈(score + w - reading) / 1000⌉) := by
  unfold slidingReply
  split <;> rfl

/-! ### What a key holds -/

/-- The key is a set, of entries from between the epoch and `now`. -/
def Stamped (now : ℚ) (key : Slot) : Prop :=
  ∃ members, IsSet key members ∧ ∀ m ∈ members, 0 ≤ m.2 ∧ m.2 ≤ now

/-- The key is a set of these entries or some of them. -/
def Below (key : Slot) (members : List (String × ℚ)) : Prop :=
  ∃ rest, IsSet key rest ∧ rest.Sublist members

theorem stamped_serveSliding {now : ℚ} {key : Slot} (h : Stamped now key) {c : SlidingCall}
    (hc : c.time ≤ now) : Stamped now (serveSliding key c).2 := by
  obtain ⟨members, hset, hstamped⟩ := h
  obtain ⟨found, hfound, hsub⟩ := hset.live c.time
  have hexec := slidingExec_of_set (e := ⟨c.time, c.time, c.member⟩) c.limit_pos
    (FixedWindow.window_pos c.window_pos) hfound
  rw [serveSliding, hexec]
  refine ⟨_, isSet_some _ _, fun m hm => ?_⟩
  rcases mem_leftMembers hm with hm | rfl
  · exact hstamped m (hsub.subset (List.mem_of_mem_filter hm))
  · exact ⟨c.nonneg, hc⟩

theorem stamped_after {now : ℚ} {past : List SlidingCall} (hpast : ∀ c ∈ past, c.time ≤ now) :
    Stamped now (after serveSliding none past) := by
  induction past using List.reverseRecOn with
  | nil => exact ⟨[], isSet_none, fun _ h => nomatch h⟩
  | append_singleton past c ih =>
      rw [after_append]
      exact stamped_serveSliding (ih fun d hd => hpast d (List.mem_append_left _ hd))
        (hpast c (List.mem_append_right _ (List.mem_singleton.mpr rfl)))

/-- A rejected request adds no entry. -/
theorem below_serveSliding {key : Slot} {members : List (String × ℚ)} (h : Below key members)
    {c : SlidingCall} (hrefused : refusal (serveSliding key c).1 ≠ none) :
    Below (serveSliding key c).2 members := by
  obtain ⟨rest, hset, hrest⟩ := h
  obtain ⟨found, hfound, hsub⟩ := hset.live c.time
  have hexec := slidingExec_of_set (e := ⟨c.time, c.time, c.member⟩) c.limit_pos
    (FixedWindow.window_pos c.window_pos) hfound
  rw [serveSliding, hexec, refusal_slidingReply, List.length_map] at hrefused
  rw [serveSliding, hexec]
  refine ⟨_, isSet_some _ _, ?_⟩
  rw [leftMembers, if_neg fun hlt => hrefused (if_pos hlt)]
  exact List.filter_sublist.trans (hsub.trans hrest)

theorem below_after {key : Slot} {members : List (String × ℚ)} (h : Below key members)
    {later : List SlidingCall}
    (hrefused : ∀ p ∈ trace serveSliding key later, refusal p.2 ≠ none) :
    Below (after serveSliding key later) members := by
  induction later generalizing key with
  | nil => exact h
  | cons c later ih =>
      exact ih (below_serveSliding h (hrefused _ (List.mem_cons_self ..)))
        fun p hp => hrefused p (List.mem_cons_of_mem _ hp)

/-! ### What an entry's leaving says -/

theorem lt_leaves_iff {t score : ℚ} {r : ℤ} :
    r < leaves W t score ↔ t + 1000 * r - W * 1000 < score := by
  rw [leaves, Int.lt_ceil, lt_div_iff₀ (by norm_num)]
  constructor <;> intro h <;> linarith

theorem leaves_mono {t a b : ℚ} (h : a ≤ b) : leaves W t a ≤ leaves W t b := by
  unfold leaves
  exact Int.ceil_le_ceil (by linarith)

/-- The purge keeps what counts. -/
theorem map_purged {members : List (String × ℚ)} (hpos : ∀ m ∈ members, 0 ≤ m.2) (t : ℚ) :
    (purged (W * 1000) members t).map Prod.snd =
      (members.map Prod.snd).filter fun score => t - W * 1000 < score := by
  rw [List.filter_map]
  congr 1
  refine List.filter_congr fun m hm => ?_
  simp [hpos m hm]

theorem scoresIn_eq {key : Slot} {t : ℚ} {members : List (String × ℚ)}
    (h : IsSet (live t key) members) (hpos : ∀ m ∈ members, 0 ≤ m.2) :
    scoresIn W key t = (purged (W * 1000) members t).map Prod.snd := by
  rw [map_purged hpos, scoresIn]
  obtain ⟨hnone, rfl⟩ | ⟨deadline, hsome⟩ := h
  · rw [hnone]; rfl
  · rw [hsome]

theorem lt_of_mem_scoresIn {key : Slot} {t score : ℚ} (h : score ∈ scoresIn W key t) :
    t - W * 1000 < score := by
  unfold scoresIn at h
  split at h
  · exact of_decide_eq_true (List.mem_filter.mp h).2
  · cases h

/-- The wait of a rejected request is when its oldest entry leaves. -/
theorem refusal_oldest (hL : 1 ≤ L) {scores : List ℚ} {t : ℚ} {r : ℤ}
    (hscores : ∀ score ∈ scores, t - W * 1000 < score)
    (h : refusal (.ok (slidingReply L (W * 1000) scores t)) = some r) :
    L ≤ scores.length ∧ ∃ oldest ∈ scores, (∀ score ∈ scores, oldest ≤ score) ∧
      r = leaves W t oldest := by
  rw [refusal_slidingReply] at h
  split at h
  · cases h
  rename_i hge
  refine ⟨not_lt.mp hge, ?_⟩
  cases hmin : scores.min? with
  | none =>
      rw [List.min?_eq_none_iff] at hmin
      subst hmin
      simp only [List.length_nil, Nat.cast_zero] at hge
      omega
  | some oldest =>
      obtain ⟨hmem, hle⟩ := List.min?_eq_some_iff.mp hmin
      rw [hmin] at h
      refine ⟨oldest, hmem, hle, ?_⟩
      have hfirst : 1 ≤ leaves W t oldest := by
        have h0 : 0 < leaves W t oldest := lt_leaves_iff.mpr (by
          have := hscores oldest hmem
          push_cast
          linarith)
        omega
      exact (Option.some.inj h).symm.trans (max_eq_right hfirst)

theorem length_purged {members : List (String × ℚ)} (hpos : ∀ m ∈ members, 0 ≤ m.2) (t : ℚ) :
    (purged (W * 1000) members t).length =
      (members.map Prod.snd).countP fun score => t - W * 1000 < score := by
  rw [← List.length_map (f := Prod.snd), map_purged hpos, List.countP_eq_length_filter]

/-! ### The promise -/

/-- Entries of which fewer than the limit outlast the oldest leave a place by
the end of its second, whatever else is gone by then. -/
theorem allows_after_refused (hL : 1 ≤ L) (hW : 1 ≤ W) {key : Slot}
    {kept : List (String × ℚ)} (hpos : ∀ m ∈ kept, 0 ≤ m.2) (hkey : Below key kept) {t t' : ℚ}
    {r : ℤ} (hle : t + 1000 * r ≤ t')
    (hfew : ((kept.map Prod.snd).countP fun score => r < leaves W t score : ℤ) < L)
    (member : String) :
    allows (slidingExec L (W * 1000) key ⟨t', t', member⟩).1 = true := by
  obtain ⟨rest, hrest, hsub⟩ := hkey
  obtain ⟨found, hfound, hsub'⟩ := hrest.live t'
  have hfoundpos : ∀ m ∈ found, 0 ≤ m.2 := fun m hm => hpos m (hsub.subset (hsub'.subset hm))
  rw [slidingExec_of_set (e := ⟨t', t', member⟩) hL (FixedWindow.window_pos hW) hfound,
    allows_slidingReply, decide_eq_true_eq, List.length_map, length_purged hfoundpos]
  refine lt_of_le_of_lt (Nat.cast_le.mpr ?_) hfew
  calc (found.map Prod.snd).countP (fun score => t' - W * 1000 < score)
      ≤ (kept.map Prod.snd).countP fun score => t' - W * 1000 < score :=
        ((hsub'.trans hsub).map _).countP_le
    _ ≤ (kept.map Prod.snd).countP fun score => r < leaves W t score :=
        List.countP_mono_left fun score _ h => by
          simp only [decide_eq_true_eq, lt_leaves_iff] at h ⊢
          linarith

/-- What an execution that rejects leaves at the end of its wait: the entries
that outlast the oldest. -/
theorem allows_at_wait (hL : 1 ≤ L) (hW : 1 ≤ W) {kept : List (String × ℚ)} {t : ℚ}
    (hstamped : ∀ m ∈ kept, 0 ≤ m.2 ∧ m.2 ≤ t) {m : String × ℚ} (hm : m ∈ kept)
    (member : String) :
    let t' := t + 1000 * leaves W t m.2
    allows (slidingExec L (W * 1000) (some ⟨.zset kept, some (t + 2 * (W * 1000))⟩)
        ⟨t', t', member⟩).1 =
      decide (((kept.map Prod.snd).countP fun score => leaves W t m.2 < leaves W t score : ℤ)
        < L) := by
  intro t'
  have hwait : leaves W t m.2 ≤ W := by
    rw [leaves, Int.ceil_le, div_le_iff₀ (by norm_num)]
    linarith [(hstamped m hm).2]
  have hlive : t' < t + 2 * (W * 1000) := by
    have h1 : ((leaves W t m.2 : ℤ) : ℚ) ≤ W := by exact_mod_cast hwait
    have h2 : (1 : ℚ) ≤ W := by exact_mod_cast hW
    simp only [t']
    linarith
  have hfound : IsSet (live t' (some ⟨.zset kept, some (t + 2 * (W * 1000))⟩)) kept := by
    rw [live_of_lt _ hlive]
    exact isSet_some ..
  rw [slidingExec_of_set (e := ⟨t', t', member⟩) hL (FixedWindow.window_pos hW) hfound,
    allows_slidingReply, List.length_map, length_purged fun m hm => (hstamped m hm).1]
  simp only [t', lt_leaves_iff]

/-- **The sliding window's wait** is kept iff no entry has the limit's worth of
others that outlast it by a second. -/
theorem slidingWindow_retryAfter_iff (hL : 1 ≤ L) (hW : 1 ≤ W) {past : List SlidingCall} {t : ℚ}
    (hpast : ∀ c ∈ past, c.time ≤ t) (member : String) :
    KeepsPromise L W (after serveSliding none past) t member ↔
      ¬ Outlasted L W (after serveSliding none past) t := by
  obtain ⟨members, hset, hstamped⟩ := stamped_after hpast
  generalize after serveSliding none past = key at *
  obtain ⟨found, hfound, hsub⟩ := hset.live t
  have hkept : ∀ m ∈ purged (W * 1000) found t, 0 ≤ m.2 ∧ m.2 ≤ t := fun m hm =>
    hstamped m (hsub.subset (List.mem_of_mem_filter hm))
  have hscores := scoresIn_eq (W := W) hfound fun m hm => (hstamped m (hsub.subset hm)).1
  have hyoung : ∀ score ∈ scoresIn W key t, t - W * 1000 < score := fun _ => lt_of_mem_scoresIn
  have hexec := slidingExec_of_set (e := ⟨t, t, member⟩) hL (FixedWindow.window_pos hW) hfound
  simp only [KeepsPromise, Outlasted, hexec, hscores] at *
  generalize purged (W * 1000) found t = kept at *
  -- a request that is rejected leaves the entries that it counted
  have hleft : L ≤ (kept.map Prod.snd).length → leftMembers L kept ⟨t, t, member⟩ = kept :=
    fun hge => if_neg (by rw [List.length_map] at hge; exact not_lt.mpr hge)
  constructor
  · rintro hpromise ⟨score, hscore, hout⟩
    have hge : L ≤ (kept.map Prod.snd).length :=
      hout.trans (Nat.cast_le.mpr List.countP_le_length)
    obtain ⟨r, hr⟩ : ∃ r, refusal (.ok (slidingReply L (W * 1000) (kept.map Prod.snd) t)) =
        some r := by
      rw [refusal_slidingReply, if_neg (not_lt.mpr hge)]
      exact ⟨_, rfl⟩
    obtain ⟨-, oldest, hold, hmin, rfl⟩ := refusal_oldest hL hyoung hr
    obtain ⟨m, hm, rfl⟩ := List.mem_map.mp hold
    -- the promise fails at the very end of the wait, with nothing in between
    have hallowed := hpromise _ hr [] (List.pairwise_singleton ..) (fun _ hp => nomatch hp) _ ""
      (fun _ hc => nomatch hc) le_rfl
    rw [after_nil, hleft hge, allows_at_wait hL hW hkept hm, decide_eq_true_eq] at hallowed
    refine absurd (hout.trans (Nat.cast_le.mpr ?_)) (not_le.mpr hallowed)
    refine List.countP_mono_left fun other _ hlt => decide_eq_true ?_
    exact (leaves_mono (hmin score hscore)).trans_lt (of_decide_eq_true hlt)
  · rintro hnot r hr later - hrefused t' member' - hle
    obtain ⟨hge, oldest, hold, -, rfl⟩ := refusal_oldest hL hyoung hr
    rw [hleft hge] at hrefused ⊢
    have hbelow := below_after ⟨kept, isSet_some .., List.Sublist.refl _⟩ hrefused
    exact allows_after_refused hL hW (fun m hm => (hkept m hm).1) hbelow hle
      (lt_of_not_ge fun hout => hnot ⟨oldest, hold, hout⟩) member'

/-- Two requests under a limit of two, four seconds apart. -/
def fourApart : List SlidingCall :=
  [⟨2, by norm_num, 10, by norm_num, 0, Rat.le_refl, "1"⟩,
    ⟨2, by norm_num, 10, by norm_num, 4000, by norm_num, "2"⟩]

/-- Under the same limit the third is told the truth. -/
theorem slidingWindow_retryAfter_same :
    KeepsPromise 2 10 (after serveSliding none fourApart) 6000 "3" :=
  (slidingWindow_retryAfter_iff (by norm_num) (by norm_num) (by simp [fourApart]; norm_num) "3").mpr
    (by decide +kernel)

/-- Under a limit lowered to one it is told four seconds; then the second
request is still there. -/
theorem slidingWindow_retryAfter_lowered :
    ¬ KeepsPromise 1 10 (after serveSliding none fourApart) 6000 "3" := by
  intro h
  have hwait := h 4 (by decide +kernel) [] (List.pairwise_singleton ..) (fun _ hp => nomatch hp)
    10000 "4" (fun _ hc => nomatch hc) (by norm_num)
  revert hwait
  decide +kernel

end SlidingWindow

end RateX
