import Mathlib.Data.Int.Interval
import RateX.Grouping
import RateX.RecentEvents

/-!
# Analytics

The two reports of the dashboard, as the database may answer their queries, and
the chart that is drawn from the second. `TopRoutes` sums up the last hour by
route, and `Timeline` the last half hour by minute; a route or a minute without
an event has no row.

What the chart shows is counted in events (`chart_exact`): it drops the minutes
that began before its own range, and it never shows more than the half hour,
whatever range it is asked for.
-/

namespace RateX

open Grouping

/-! ## The queries -/

structure RouteSummary where
  route : String
  allowed : ℕ
  rejected : ℕ
  total : ℕ
deriving Repr, DecidableEq

structure TimeBucket where
  bucket : ℚ
  allowed : ℕ
  rejected : ℕ
  total : ℕ
deriving Repr, DecidableEq

/-- `where created_at > now() - interval`, of so many milliseconds. -/
def since (now interval : ℚ) (rows : List StoredEvent) : List StoredEvent :=
  rows.filter fun r => now - interval < r.createdAt

def hour : ℚ := 3600000

def halfHour : ℚ := 1800000

/-- `date_trunc('minute', t)`. -/
def minute (t : ℚ) : ℚ := ⌊t / 60000⌋ * 60000

def StoredEvent.route (r : StoredEvent) : String := r.event.route

def StoredEvent.minute (r : StoredEvent) : ℚ := RateX.minute r.createdAt

/-- `count(*) filter (where allowed)`. -/
def allowedCount (rows : List StoredEvent) : ℕ := rows.countP fun r => r.event.allowed

def rejectedCount (rows : List StoredEvent) : ℕ := rows.countP fun r => !r.event.allowed

def RouteSummary.of (route : String) (rows : List StoredEvent) : RouteSummary :=
  { route, allowed := allowedCount rows, rejected := rejectedCount rows, total := rows.length }

def TimeBucket.of (bucket : ℚ) (rows : List StoredEvent) : TimeBucket :=
  { bucket, allowed := allowedCount rows, rejected := rejectedCount rows, total := rows.length }

/-- What the database may answer `TopRoutes`. -/
def AnswersTopRoutes (now : ℚ) (rows : List StoredEvent) (answer : List RouteSummary) : Prop :=
  Top (fun s : RouteSummary => OrderDual.toDual s.total) 10
    (summaries StoredEvent.route RouteSummary.of (since now hour rows)) answer

/-- What the database may answer `Timeline`. -/
def AnswersTimeline (now : ℚ) (rows : List StoredEvent) (answer : List TimeBucket) : Prop :=
  answer.Perm (summaries StoredEvent.minute TimeBucket.of (since now halfHour rows)) ∧
    answer.Pairwise fun r s => r.bucket ≤ s.bucket

/-- `RequestEventRepository.Timeline`. -/
def RequestEventRepository.timeline (now : ℚ) (rows : List StoredEvent) : List TimeBucket :=
  sorted TimeBucket.bucket (summaries StoredEvent.minute TimeBucket.of (since now halfHour rows))

theorem answers_timeline (now : ℚ) (rows : List StoredEvent) :
    AnswersTimeline now rows (RequestEventRepository.timeline now rows) :=
  ⟨sorted_perm .., sorted_pairwise ..⟩

/-! ## The routes -/

/-- The ten routes, or all of them, with the most events. -/
structure RouteReport (recent : List StoredEvent) (answer : List RouteSummary) : Prop where
  routes : (answer.map RouteSummary.route).Nodup
  counts : ∀ s ∈ answer, s = .of s.route (group StoredEvent.route recent s.route) ∧ 0 < s.total
  ordered : answer.Pairwise fun r s => s.total ≤ r.total
  atMost : answer.length ≤ 10
  others : ∀ e ∈ recent, e.route ∉ answer.map RouteSummary.route → answer.length = 10 ∧
    ∀ s ∈ answer, recent.countP (fun r => r.route = e.route) ≤ s.total

section Routes

variable {recent : List StoredEvent} {answer : List RouteSummary} {s : RouteSummary}

theorem RouteSummary.route_of (route : String) (rows : List StoredEvent) :
    (RouteSummary.of route rows).route = route := rfl

theorem mem_summaries_route : s ∈ summaries StoredEvent.route RouteSummary.of recent ↔
    s = .of s.route (group StoredEvent.route recent s.route) ∧ 0 < s.total := by
  rw [mem_summaries RouteSummary.route_of]
  exact and_congr_right fun hs => by rw [congrArg RouteSummary.total hs, RouteSummary.of]

theorem nodup_summaries_route (recent : List StoredEvent) :
    (summaries StoredEvent.route RouteSummary.of recent).Nodup :=
  nodup_summaries RouteSummary.route_of

/-- **The top routes.** A list may be answered iff it reports the routes of the
last hour, each by its own events, with the most requested first, and leaves out
only what ten others come before. -/
theorem answersTopRoutes_iff (now : ℚ) (rows : List StoredEvent) (answer : List RouteSummary) :
    AnswersTopRoutes now rows answer ↔ RouteReport (since now hour rows) answer := by
  unfold AnswersTopRoutes
  generalize since now hour rows = recent
  rw [top_iff (nodup_summaries_route recent)]
  -- what is left out, as routes and as summaries
  have hothers (hcounts : ∀ s ∈ answer, s = .of s.route (group StoredEvent.route recent s.route)) :=
    forall_left_out RouteSummary.route_of hcounts
      (P := fun r => answer.length = 10 ∧ ∀ s ∈ answer, r.total ≤ s.total)
  have hcountP : ∀ route, (RouteSummary.of route (group StoredEvent.route recent route)).total =
      recent.countP fun r => r.route = route := fun route =>
    List.countP_eq_length_filter.symm
  constructor
  · rintro ⟨hnodup, hmem, hordered, hlength, hrest⟩
    have hcounts := fun s hs => mem_summaries_route.mp (hmem s hs)
    obtain ⟨hmost, hfull⟩ :=
      (length_eq_min_iff hnodup (nodup_summaries_route recent) hmem).mp hlength
    refine
      { routes := hnodup.map_on fun r hr s hs heq => ?_
        counts := hcounts
        ordered := hordered.imp fun h => OrderDual.toDual_le_toDual.mp h
        atMost := hmost
        others := fun e he hout => ?_ }
    · rw [(hcounts r hr).1, (hcounts s hs).1, heq]
    · rw [← hcountP]
      exact (hothers fun s hs => (hcounts s hs).1).mp (fun s hs hout => ⟨hfull s hs hout,
        fun r hr => OrderDual.toDual_le_toDual.mp (hrest r hr s hs hout)⟩) e he hout
  · rintro ⟨hroutes, hcounts, hordered, hmost, hleft⟩
    have hnodup : answer.Nodup := hroutes.of_map _
    have hmem : ∀ s ∈ answer, s ∈ summaries StoredEvent.route RouteSummary.of recent :=
      fun s hs => mem_summaries_route.mpr (hcounts s hs)
    have hout := (hothers fun s hs => (hcounts s hs).1).mpr fun e he hout => by
      rw [hcountP]
      exact hleft e he hout
    refine ⟨hnodup, hmem, hordered.imp fun h => OrderDual.toDual_le_toDual.mpr h, ?_,
      fun r hr s hs hs' => OrderDual.toDual_le_toDual.mpr ((hout s hs hs').2 r hr)⟩
    exact (length_eq_min_iff hnodup (nodup_summaries_route recent) hmem).mpr
      ⟨hmost, fun s hs hs' => (hout s hs hs').1⟩

end Routes

/-! ## The minutes -/

/-- One bucket for each minute with an event, in order of time. -/
structure MinuteReport (recent : List StoredEvent) (answer : List TimeBucket) : Prop where
  ordered : answer.Pairwise fun r s => r.bucket < s.bucket
  counts : ∀ b ∈ answer, b = .of b.bucket (group StoredEvent.minute recent b.bucket) ∧ 0 < b.total
  covered : ∀ e ∈ recent, e.minute ∈ answer.map TimeBucket.bucket

section Minutes

variable {recent : List StoredEvent} {answer : List TimeBucket} {b : TimeBucket} {t : ℚ}

theorem TimeBucket.bucket_of (bucket : ℚ) (rows : List StoredEvent) :
    (TimeBucket.of bucket rows).bucket = bucket := rfl

theorem mem_summaries_minute : b ∈ summaries StoredEvent.minute TimeBucket.of recent ↔
    b = .of b.bucket (group StoredEvent.minute recent b.bucket) ∧ 0 < b.total := by
  rw [mem_summaries TimeBucket.bucket_of]
  exact and_congr_right fun hb => by rw [congrArg TimeBucket.total hb, TimeBucket.of]

theorem nodup_summaries_minute (recent : List StoredEvent) :
    (summaries StoredEvent.minute TimeBucket.of recent).Nodup :=
  nodup_summaries TimeBucket.bucket_of

/-- Buckets have one order. -/
theorem answersTimeline_iff (now : ℚ) (rows : List StoredEvent) (answer : List TimeBucket) :
    AnswersTimeline now rows answer ↔ MinuteReport (since now halfHour rows) answer := by
  unfold AnswersTimeline
  generalize since now halfHour rows = recent
  constructor
  · rintro ⟨hperm, hordered⟩
    have hcounts := fun b (hb : b ∈ answer) => mem_summaries_minute.mp (hperm.mem_iff.mp hb)
    refine ⟨?_, hcounts, fun e he => ?_⟩
    · have hnodup := hperm.nodup_iff.mpr (nodup_summaries_minute recent)
      refine (hordered.and hnodup).imp_of_mem fun {r s} hr hs hrs => lt_of_le_of_ne hrs.1 ?_
      intro heq
      refine hrs.2 ?_
      rw [(hcounts r hr).1, (hcounts s hs).1, heq]
    · refine (summary_mem_iff TimeBucket.bucket_of fun b hb => (hcounts b hb).1).mp ?_
      exact hperm.mem_iff.mpr (summary_mem he)
  · rintro ⟨hordered, hcounts, hcovered⟩
    refine ⟨?_, hordered.imp le_of_lt⟩
    have hnodup : answer.Nodup := hordered.imp fun h heq => h.ne (congrArg TimeBucket.bucket heq)
    refine (List.perm_ext_iff_of_nodup hnodup (nodup_summaries_minute recent)).mpr fun b => ?_
    refine ⟨fun hb => mem_summaries_minute.mpr (hcounts b hb), fun hb => ?_⟩
    obtain ⟨bucket, hbucket, rfl⟩ := List.mem_map.mp hb
    obtain ⟨e, he, rfl⟩ := mem_keys.mp hbucket
    exact (summary_mem_iff TimeBucket.bucket_of fun b hb => (hcounts b hb).1).mpr (hcovered e he)

theorem lt_minute (t : ℚ) : t < minute t + 60000 := by
  have := Int.lt_floor_add_one (t / 60000)
  rw [div_lt_iff₀ (by norm_num)] at this
  unfold minute
  linarith

theorem floor_minute (t : ℚ) : ⌊minute t / 60000⌋ = ⌊t / 60000⌋ := by
  rw [minute, mul_div_cancel_right₀ _ (by norm_num), Int.floor_intCast]

/-- A bucket is the minute of its events. -/
theorem MinuteReport.exists_event (h : MinuteReport recent answer) (hb : b ∈ answer) :
    ∃ e ∈ recent, e.minute = b.bucket := by
  obtain ⟨hcount, hpos⟩ := h.counts b hb
  rw [hcount] at hpos
  obtain ⟨e, he⟩ := List.exists_mem_of_length_pos hpos
  exact ⟨e, (mem_group.mp he).1, (mem_group.mp he).2⟩

/-- Events of half an hour fall into 31 minutes. -/
theorem MinuteReport.length_le {now : ℚ} {rows : List StoredEvent}
    (h : MinuteReport (since now halfHour rows) answer) (hpast : ∀ r ∈ rows, r.createdAt ≤ now) :
    answer.length ≤ 31 := by
  let number (b : TimeBucket) : ℤ := ⌊b.bucket / 60000⌋
  have hnumber : ∀ b ∈ answer, ∃ e ∈ since now halfHour rows,
      number b = ⌊e.createdAt / 60000⌋ ∧ b.bucket = number b * 60000 := by
    intro b hb
    obtain ⟨e, he, hminute⟩ := h.exists_event hb
    have hfloor : number b = ⌊e.createdAt / 60000⌋ := by
      simp only [number, ← hminute, StoredEvent.minute, floor_minute]
    exact ⟨e, he, hfloor, by rw [hfloor, ← hminute]; rfl⟩
  have hnodup : (answer.map number).Nodup := by
    have hanswer : answer.Nodup := h.ordered.imp fun hlt heq =>
      hlt.ne (congrArg TimeBucket.bucket heq)
    refine hanswer.map_on fun r hr s hs heq => ?_
    obtain ⟨-, -, -, hr'⟩ := hnumber r hr
    obtain ⟨-, -, -, hs'⟩ := hnumber s hs
    rw [(h.counts r hr).1, (h.counts s hs).1, hr', hs', heq]
  have hrange : ∀ k ∈ answer.map number,
      k ∈ Finset.Icc ⌊(now - halfHour) / 60000⌋ (⌊(now - halfHour) / 60000⌋ + 30) := by
    intro k hk
    obtain ⟨b, hb, rfl⟩ := List.mem_map.mp hk
    obtain ⟨e, he, hfloor, -⟩ := hnumber b hb
    obtain ⟨he, hlate⟩ := List.mem_filter.mp he
    have hlate := of_decide_eq_true hlate
    have hle := hpast e he
    have hahead : now / 60000 = (now - halfHour) / 60000 + (30 : ℤ) := by
      rw [halfHour]
      push_cast
      ring
    rw [hfloor, Finset.mem_Icc, ← Int.floor_add_intCast, ← hahead]
    exact ⟨Int.floor_le_floor (by gcongr), Int.floor_le_floor (by gcongr)⟩
  calc answer.length = (answer.map number).toFinset.card := by
        rw [List.toFinset_card_of_nodup hnodup, List.length_map]
    _ ≤ (Finset.Icc ⌊(now - halfHour) / 60000⌋ (⌊(now - halfHour) / 60000⌋ + 30)).card :=
        Finset.card_le_card fun k hk => hrange k (List.mem_toFinset.mp hk)
    _ = 31 := by rw [Int.card_Icc]; omega

end Minutes

/-! ## The chart -/

structure RangeConfig where
  minutes : ℕ
  points : ℕ
  labelStep : ℕ
deriving DecidableEq

/-- The object `rangeConfig`, by its own keys. -/
def rangeConfig : String → Option RangeConfig
  | "30m" => some ⟨30, 12, 5⟩
  | "1h" => some ⟨60, 12, 5⟩
  | "6h" => some ⟨360, 12, 30⟩
  | "24h" => some ⟨1440, 12, 120⟩
  | _ => none

/-- The names that every object inherits. -/
def inherited : List String :=
  ["constructor", "__defineGetter__", "__defineSetter__", "hasOwnProperty", "__lookupGetter__",
    "__lookupSetter__", "isPrototypeOf", "propertyIsEnumerable", "toString", "valueOf",
    "__proto__", "toLocaleString"]

/-- `rangeConfig[activeRange] || rangeConfig['30m']`. What is inherited has no minutes and
no points. -/
def configOf (activeRange : String) : Option RangeConfig :=
  if activeRange ∈ inherited then none else some ((rangeConfig activeRange).getD ⟨30, 12, 5⟩)

/-- The object that `/api/stats` answers. -/
structure Stats where
  requests : ℕ
  allowed : ℕ
  rejected : ℕ

structure ChartPoint where
  t : String
  allowed : ℤ
  rejected : ℤ
deriving Repr, DecidableEq

/-- `a || b` of two numbers. -/
def orElse (a b : ℕ) : ℕ := if a = 0 then b else a

/-- `Math.round`. -/
def mathRound (x : ℚ) : ℤ := ⌊x + 1 / 2⌋

def buildFallbackData (config : RangeConfig) (stats : Stats) : List ChartPoint :=
  let maxAllowed := max 1 (orElse stats.allowed (orElse stats.requests 1))
  let maxRejected := max 0 (orElse stats.rejected 0)
  (List.range config.points).map fun index =>
    let wave := if index < 2 then 0 else if index < 5 then 1 else if index < 7 then 0
      else if index < 10 then 1 else 0
    { t := toString (index * config.labelStep) ++ "m"
      allowed := mathRound ((wave * maxAllowed : ℕ) : ℚ)
      rejected := mathRound ((if wave ≠ 0 then 18 / 100 else 0) * (maxRejected : ℚ)) }

/-- The minutes that the chart keeps, with the browser's clock at `clock`. -/
def charted (clock : ℚ) (minutes : ℕ) (timeline : List TimeBucket) : List TimeBucket :=
  timeline.filter fun point => clock - minutes * 60 * 1000 ≤ point.bucket

/-- `format` writes a time in the browser's own way. -/
def buildChartData (format : ℚ → String → String) (clock : ℚ) (timeline : List TimeBucket)
    (activeRange : String) (stats : Stats) : List ChartPoint :=
  match configOf activeRange with
  -- no time is at or after NaN, and `Array.from` makes nothing of no length
  | none => []
  | some config =>
      let filtered := (charted clock config.minutes timeline).map fun point =>
        ({ t := format point.bucket activeRange, allowed := point.allowed,
           rejected := point.rejected } : ChartPoint)
      if 0 < filtered.length then filtered else buildFallbackData config stats

/-- The events whose minutes the chart keeps. -/
def shown (clock : ℚ) (minutes : ℕ) (recent : List StoredEvent) : List StoredEvent :=
  recent.filter fun r => clock - minutes * 60 * 1000 ≤ r.minute

section Chart

variable {recent : List StoredEvent} {answer : List TimeBucket} {clock : ℚ} {minutes : ℕ}

theorem group_shown {bucket : ℚ} (h : clock - minutes * 60 * 1000 ≤ bucket) :
    group StoredEvent.minute (shown clock minutes recent) bucket =
      group StoredEvent.minute recent bucket := by
  rw [group, shown, List.filter_filter]
  refine List.filter_congr fun r _ => ?_
  by_cases hr : r.minute = bucket
  · simp [hr, h]
  · simp [hr]

/-- Counted over its points, the chart counts the events shown. -/
theorem MinuteReport.sum_charted (h : MinuteReport recent answer) (p : StoredEvent → Bool) :
    ((charted clock minutes answer).map fun b =>
        (group StoredEvent.minute recent b.bucket).countP p).sum =
      (shown clock minutes recent).countP p := by
  have hnodup : ((charted clock minutes answer).map TimeBucket.bucket).Nodup :=
    List.pairwise_map.mpr ((h.ordered.sublist List.filter_sublist).imp ne_of_lt)
  have hcover : ∀ r ∈ shown clock minutes recent,
      r.minute ∈ (charted clock minutes answer).map TimeBucket.bucket := by
    intro r hr
    obtain ⟨hr, hkept⟩ := List.mem_filter.mp hr
    obtain ⟨b, hb, heq⟩ := List.mem_map.mp (h.covered r hr)
    exact List.mem_map.mpr ⟨b, List.mem_filter.mpr ⟨hb, by rw [heq]; exact hkept⟩, heq⟩
  rw [← sum_countP_of_nodup p hnodup hcover, List.map_map]
  refine congrArg List.sum (List.map_congr_left fun b hb => ?_)
  have hkept := of_decide_eq_true (List.mem_filter.mp hb).2
  rw [Function.comp_apply, group_shown hkept]

theorem MinuteReport.charted_eq_nil (h : MinuteReport recent answer) :
    charted clock minutes answer = [] ↔ shown clock minutes recent = [] := by
  constructor
  · intro hnil
    have hsum := @h.sum_charted _ _ clock minutes fun _ => true
    rw [hnil, List.map_nil, List.sum_nil] at hsum
    simpa using hsum.symm
  · intro hnil
    refine List.filter_eq_nil_iff.mpr fun b hb hkept => ?_
    obtain ⟨e, he, heq⟩ := h.exists_event hb
    have hmem : e ∈ shown clock minutes recent :=
      List.mem_filter.mpr ⟨he, by rw [heq]; exact hkept⟩
    rw [hnil] at hmem
    cases hmem

/-- The counts of its points add up to that of the events shown. -/
theorem MinuteReport.sum_points (h : MinuteReport recent answer) (p : StoredEvent → Bool)
    {count : TimeBucket → ℕ}
    (hcount : ∀ b ∈ answer, count b = (group StoredEvent.minute recent b.bucket).countP p) :
    ((charted clock minutes answer).map fun b => (count b : ℤ)).sum =
      (shown clock minutes recent).countP p := by
  rw [← h.sum_charted, Nat.cast_list_sum, List.map_map]
  refine congrArg List.sum (List.map_congr_left fun b hb => ?_)
  exact congrArg Nat.cast (hcount b (List.mem_filter.mp hb).1)

/-- An hour reaches back to the minute of every event of the last half hour. -/
theorem shown_since {now : ℚ} {rows : List StoredEvent} (hlong : 60 ≤ minutes)
    (hsoon : clock ≤ now + 1740000) :
    shown clock minutes (since now halfHour rows) = since now halfHour rows := by
  refine List.filter_eq_self.mpr fun r hr => decide_eq_true ?_
  have hlate := of_decide_eq_true (List.mem_filter.mp hr).2
  have hminute := lt_minute r.createdAt
  have hrange : (60 : ℚ) ≤ minutes := by exact_mod_cast hlong
  simp only [halfHour] at hlate
  simp only [StoredEvent.minute]
  linarith

end Chart

/-- **What the chart shows.** From whatever the database answers at `now`: a
chart drawn at `clock` counts the events of the last half hour whose minute began
no longer ago than the range, and is invented if there are none. With a range of
an hour or more it counts all of them, and nothing else, until the list is 29
minutes old. A range that is an inherited name shows nothing. -/
theorem chart_exact {now : ℚ} {rows : List StoredEvent} {answer : List TimeBucket}
    (hanswer : AnswersTimeline now rows answer) (format : ℚ → String → String) (clock : ℚ)
    (activeRange : String) (stats : Stats) :
    let chart := buildChartData format clock answer activeRange stats
    (activeRange ∈ inherited → chart = []) ∧
      ∀ config, configOf activeRange = some config →
        let events := shown clock config.minutes (since now halfHour rows)
        (events = [] → chart = buildFallbackData config stats) ∧
          (events ≠ [] → (chart.map ChartPoint.allowed).sum = allowedCount events ∧
            (chart.map ChartPoint.rejected).sum = rejectedCount events) ∧
          (60 ≤ config.minutes → clock ≤ now + 1740000 → events = since now halfHour rows) := by
  intro chart
  constructor
  · intro hinherited
    simp only [chart, buildChartData, configOf, if_pos hinherited]
  intro config hconfig events
  have hreport := (answersTimeline_iff now rows answer).mp hanswer
  have hchart : chart = if charted clock config.minutes answer = [] then
        buildFallbackData config stats
      else (charted clock config.minutes answer).map fun point =>
        ⟨format point.bucket activeRange, point.allowed, point.rejected⟩ := by
    simp only [chart, buildChartData, hconfig, List.length_map]
    by_cases hnil : charted clock config.minutes answer = []
    · rw [if_pos hnil, hnil]
      rfl
    · rw [if_neg hnil, if_pos (List.length_pos_iff.mpr hnil)]
  refine ⟨fun hnil => ?_, fun hne => ?_, shown_since⟩
  · rw [hchart, if_pos (hreport.charted_eq_nil.mpr hnil)]
  · rw [hchart, if_neg fun hnil => hne (hreport.charted_eq_nil.mp hnil), List.map_map,
      List.map_map]
    exact ⟨hreport.sum_points (fun r => r.event.allowed) fun b hb =>
        congrArg TimeBucket.allowed (hreport.counts b hb).1,
      hreport.sum_points (fun r => !r.event.allowed) fun b hb =>
        congrArg TimeBucket.rejected (hreport.counts b hb).1⟩

/-- The events of one second, charted over an hour. -/
theorem chart_exact_fiftyOne :
    ((buildChartData (fun _ _ => "") 1000 (RequestEventRepository.timeline 1000 fiftyOne) "1h"
      ⟨0, 0, 0⟩).map ChartPoint.allowed).sum = 51 := by
  have hrecent : since 1000 halfHour fiftyOne = fiftyOne := by
    refine List.filter_eq_self.mpr fun r hr => decide_eq_true ?_
    obtain ⟨i, -, rfl⟩ := List.mem_map.mp hr
    have hi : (0 : ℚ) ≤ i := i.cast_nonneg
    show 1000 - halfHour < (i : ℚ)
    rw [halfHour]
    linarith
  have hallowed : allowedCount fiftyOne = 51 := by
    have hlength : fiftyOne.length = 51 := by rw [fiftyOne, List.length_map, List.length_range]
    rw [allowedCount, ← hlength, List.countP_eq_length]
    intro r hr
    obtain ⟨i, -, rfl⟩ := List.mem_map.mp hr
    rfl
  obtain ⟨-, hchart⟩ :=
    chart_exact (answers_timeline 1000 fiftyOne) (fun _ _ => "") 1000 "1h" ⟨0, 0, 0⟩
  obtain ⟨-, hcount, hall⟩ := hchart ⟨60, 12, 5⟩ (by decide +kernel)
  have hevents := (hall (by decide) (by norm_num)).trans hrecent
  rw [(hcount fun hnil => by rw [hevents] at hnil; cases hnil).1, hevents, hallowed]
  rfl

end RateX
