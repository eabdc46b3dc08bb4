import RateX.Events

/-!
# Recent events

`GET /api/events`, from the text of its `limit` to the rows it returns, and the
dashboard's load-more, which asks for thirty more each time.

A query with an `order by` and a `limit` may be answered by a start of any such
order (`Answers`); events made at different times have one only. A limit that
is not in 1..200 counts as 50. So a list is not extended by one that is asked
for with more than 200, if it has itself more than 50 events
(`recent_extends_iff`), and the dashboard comes there with the sixth click.
-/

namespace RateX

open Table

/-! ## The limit -/

inductive NumError where
  | errSyntax
  | errRange

/-- `strconv.ParseUint` in base 10, after the number `n`: it stops where the
number gets too large, whatever follows. -/
def parseUint : ℕ → List Char → Except NumError ℕ
  | n, [] => .ok n
  | n, c :: cs =>
      if c.isDigit = false then .error .errSyntax
      else if 2 ^ 64 ≤ 10 * n + (c.toNat - '0'.toNat) then .error .errRange
      else parseUint (10 * n + (c.toNat - '0'.toNat)) cs

def splitSign : List Char → Bool × List Char
  | '-' :: cs => (true, cs)
  | '+' :: cs => (false, cs)
  | cs => (false, cs)

/-- What `strconv.Atoi` returns, beside an error or without one: the nearest
`int`, and zero for a text that is no number. -/
def atoiValue (text : String) : Int :=
  let (negative, digits) := splitSign text.toList
  let magnitude : Option ℕ :=
    if digits.isEmpty then none
    else match parseUint 0 digits with
      | .ok n => some n
      | .error .errRange => some (2 ^ 64 - 1)
      | .error .errSyntax => none
  match magnitude with
  | none => 0
  | some n => if negative then max (-2 ^ 63) (-n) else min (2 ^ 63 - 1) n

/-- The limit that `RequestEventRepository.Recent` goes by. -/
def recentLimit (limit : Int) : ℕ := if limit ≤ 0 ∨ 200 < limit then 50 else limit.toNat

/-- The number of rows asked for by a request with the query `limit`. -/
def queryLimit (limit : Option String) : ℕ := recentLimit (atoiValue (limit.getD "50"))

/-! ## The rows -/

/-- `order by created_at desc`. -/
def Newest (rows ordered : List StoredEvent) : Prop :=
  ordered.Perm rows ∧ ordered.Pairwise fun r s => s.createdAt ≤ r.createdAt

/-- What the database may answer. -/
def Answers (rows : List StoredEvent) (limit : Option String) (events : List StoredEvent) : Prop :=
  ∃ ordered, Newest rows ordered ∧ events = ordered.take (queryLimit limit)

def newest (rows : List StoredEvent) : List StoredEvent :=
  rows.mergeSort fun r s => s.createdAt ≤ r.createdAt

/-- `EventHandler.Recent`, with the rows of one instant in the order of the table. -/
def EventHandler.recent (rows : List StoredEvent) (limit : Option String) : List StoredEvent :=
  (newest rows).take (queryLimit limit)

theorem newest_newest (rows : List StoredEvent) : Newest rows (newest rows) := by
  refine ⟨List.mergeSort_perm .., ?_⟩
  let later (r s : StoredEvent) : Bool := s.createdAt ≤ r.createdAt
  have htrans (r s t : StoredEvent) (hrs : later r s) (hst : later s t) : later r t :=
    decide_eq_true ((of_decide_eq_true hst).trans (of_decide_eq_true hrs))
  have htotal (r s : StoredEvent) : later r s || later s r := by
    simpa [later] using le_total s.createdAt r.createdAt
  exact (List.pairwise_mergeSort htrans htotal rows).imp fun h => of_decide_eq_true h

theorem answers_recent (rows : List StoredEvent) (limit : Option String) :
    Answers rows limit (EventHandler.recent rows limit) :=
  ⟨newest rows, newest_newest rows, rfl⟩

section Rows

variable {rows : List StoredEvent}

/-- Events made at different times have one order. -/
theorem Newest.eq (hdistinct : Keyed StoredEvent.createdAt rows) {l l' : List StoredEvent}
    (h : Newest rows l) (h' : Newest rows l') : l = l' := by
  refine List.Perm.eq_of_pairwise (fun r s hr hs hrs hsr => ?_) h.2 h'.2 (h.1.trans h'.1.symm)
  exact hdistinct.eq_of_key (h.1.mem_iff.mp hr) (h'.1.mem_iff.mp hs) (le_antisymm hsr hrs)

theorem answers_iff (hdistinct : Keyed StoredEvent.createdAt rows) {limit : Option String}
    {events : List StoredEvent} :
    Answers rows limit events ↔ events = EventHandler.recent rows limit := by
  constructor
  · rintro ⟨ordered, hordered, rfl⟩
    rw [hordered.eq hdistinct (newest_newest rows), EventHandler.recent]
  · rintro rfl
    exact answers_recent rows limit

theorem length_newest (rows : List StoredEvent) : (newest rows).length = rows.length :=
  (newest_newest rows).1.length_eq

theorem take_prefix_take {α : Type} (l : List α) (m n : ℕ) :
    l.take m <+: l.take n ↔ m ≤ n ∨ l.length ≤ n := by
  rw [List.prefix_take_iff, List.length_take]
  constructor
  · rintro ⟨-, h⟩
    omega
  · intro h
    exact ⟨List.take_prefix m l, by omega⟩

/-- A longer list is asked for, and a longer list is what comes, or all there is. -/
theorem recent_prefix_iff {limit limit' : Option String} :
    EventHandler.recent rows limit <+: EventHandler.recent rows limit' ↔
      queryLimit limit ≤ queryLimit limit' ∨ rows.length ≤ queryLimit limit' := by
  rw [EventHandler.recent, EventHandler.recent, take_prefix_take, length_newest]

end Rows

/-! ## Decimal texts -/

theorem le_ofDigitChars (cs : List Char) (n : ℕ) : n ≤ Nat.ofDigitChars 10 cs n := by
  induction cs generalizing n with
  | nil => rw [Nat.ofDigitChars_nil]
  | cons c cs ih =>
      rw [Nat.ofDigitChars_cons]
      exact le_trans (by omega) (ih _)

theorem parseUint_eq {cs : List Char} (hdigits : ∀ c ∈ cs, c.isDigit = true) {n : ℕ}
    (hn : n < 2 ^ 64) : parseUint n cs =
      if Nat.ofDigitChars 10 cs n < 2 ^ 64 then .ok (Nat.ofDigitChars 10 cs n)
      else .error .errRange := by
  induction cs generalizing n with
  | nil => rw [Nat.ofDigitChars_nil, if_pos hn, parseUint]
  | cons c cs ih =>
      obtain ⟨hc, hcs⟩ := List.forall_mem_cons.mp hdigits
      rw [parseUint, if_neg (by simp [hc]), Nat.ofDigitChars_cons]
      split
      · rename_i hlarge
        rw [if_neg (not_lt.mpr (hlarge.trans (le_ofDigitChars cs _)))]
      · rename_i hsmall
        exact ih hcs (not_le.mp hsmall)

theorem splitSign_eq {cs : List Char} (hdigits : ∀ c ∈ cs, c.isDigit = true) :
    splitSign cs = (false, cs) := by
  unfold splitSign
  split
  · exact absurd (hdigits '-' (List.mem_cons_self ..)) (by decide)
  · exact absurd (hdigits '+' (List.mem_cons_self ..)) (by decide)
  · rfl

theorem atoiValue_toString (n : ℕ) : atoiValue (toString n) = min (2 ^ 63 - 1) (n : Int) := by
  have hdigits : ∀ c ∈ Nat.toDigits 10 n, c.isDigit = true := fun c hc =>
    Nat.isDigit_of_mem_toDigits (by decide) (by decide) hc
  unfold atoiValue
  rw [Nat.toString_eq_repr, Nat.toList_repr, splitSign_eq hdigits]
  simp only [List.isEmpty_eq_false_iff.mpr Nat.toDigits_ne_nil, Bool.false_eq_true, if_false,
    parseUint_eq hdigits (by norm_num : 0 < 2 ^ 64), Nat.ofDigitChars_ten_toDigits]
  by_cases hn : n < 2 ^ 64
  · simp only [if_pos hn]
  · simp only [if_neg hn]
    omega

theorem queryLimit_toString {n : ℕ} (hn : 1 ≤ n) :
    queryLimit (toString n) = if n ≤ 200 then n else 50 := by
  rw [queryLimit, Option.getD_some, atoiValue_toString, recentLimit]
  split_ifs <;> omega

/-! ## The dashboard -/

/-- `onLoadMore`. -/
def loadMore (eventLimit : ℕ) : ℕ := eventLimit + 30

/-- The limit of the dashboard, thirty at first. -/
def eventLimit : ℕ → ℕ
  | 0 => 30
  | clicks + 1 => loadMore (eventLimit clicks)

theorem eventLimit_eq (clicks : ℕ) : eventLimit clicks = 30 + 30 * clicks := by
  induction clicks with
  | zero => rfl
  | succ clicks ih =>
      rw [eventLimit, ih, loadMore]
      omega

/-- **When more is more.** For every table of events made at different times
and whatever the database answers: the list for `n` is a start of the list for
`m`, unless `m` is above 200, `n` is not, and the list for `n` has more than 50
events; and every click of load-more extends the list, but for the sixth, if
there are more than 50 events. -/
theorem recent_extends_iff {rows : List StoredEvent}
    (hdistinct : Keyed StoredEvent.createdAt rows) {answer : Option String → List StoredEvent}
    (hanswer : ∀ limit, Answers rows limit (answer limit)) :
    (∀ n m : ℕ, 1 ≤ n → n ≤ m → (answer (toString n) <+: answer (toString m) ↔
        m ≤ 200 ∨ 200 < n ∨ n ≤ 50 ∨ rows.length ≤ 50)) ∧
      ∀ clicks : ℕ,
        (answer (toString (eventLimit clicks)) <+: answer (toString (eventLimit (clicks + 1))) ↔
          clicks ≠ 5 ∨ rows.length ≤ 50) := by
  obtain rfl : answer = EventHandler.recent rows :=
    funext fun limit => (answers_iff hdistinct).mp (hanswer limit)
  have hlimits (n m : ℕ) (hn : 1 ≤ n) (hnm : n ≤ m) :
      EventHandler.recent rows (toString n) <+: EventHandler.recent rows (toString m) ↔
        m ≤ 200 ∨ 200 < n ∨ n ≤ 50 ∨ rows.length ≤ 50 := by
    rw [recent_prefix_iff, queryLimit_toString hn, queryLimit_toString (hn.trans hnm)]
    split_ifs <;> omega
  refine ⟨hlimits, fun clicks => ?_⟩
  rw [hlimits _ _ (by rw [eventLimit_eq]; omega) (by rw [eventLimit, loadMore]; omega),
    eventLimit_eq, eventLimit_eq]
  omega

/-! ## Fifty-one events -/

/-- One event a millisecond. -/
def fiftyOne : List StoredEvent :=
  (List.range 51).map fun i =>
    { id := i + 1
      event := ⟨"GET", "/v1/products", "ip", "203.0.113.7", "free", true, 200, 100, 99, 0, 1⟩
      createdAt := i }

theorem keyed_fiftyOne : Keyed StoredEvent.createdAt fiftyOne := by
  refine List.pairwise_map.mpr (List.nodup_range.imp fun hne h => hne ?_)
  exact Nat.cast_injective (R := ℚ) h

/-- 200 asks for all of them, 201 for fifty; so do the dashboard's 180 and 210. -/
theorem recent_shrinks :
    Keyed StoredEvent.createdAt fiftyOne ∧
      (∀ limit, Answers fiftyOne limit (EventHandler.recent fiftyOne limit)) ∧
      ¬ EventHandler.recent fiftyOne (toString 200) <+:
        EventHandler.recent fiftyOne (toString 201) ∧
      ¬ EventHandler.recent fiftyOne (toString (eventLimit 5)) <+:
        EventHandler.recent fiftyOne (toString (eventLimit 6)) := by
  have hlength : fiftyOne.length = 51 := by simp [fiftyOne]
  refine ⟨keyed_fiftyOne, answers_recent fiftyOne, ?_, ?_⟩
  · rw [recent_prefix_iff, hlength, queryLimit_toString (by norm_num),
      queryLimit_toString (by norm_num)]
    decide
  · rw [recent_prefix_iff, hlength, eventLimit_eq, eventLimit_eq,
      queryLimit_toString (by norm_num), queryLimit_toString (by norm_num)]
    decide

/-- The fifth click shows more, and 201 shows more than 50. -/
theorem recent_extends_fiftyOne :
    EventHandler.recent fiftyOne (toString 50) <+: EventHandler.recent fiftyOne (toString 201) ∧
      EventHandler.recent fiftyOne (toString (eventLimit 4)) <+:
        EventHandler.recent fiftyOne (toString (eventLimit 5)) := by
  obtain ⟨hlimits, hclicks⟩ := recent_extends_iff keyed_fiftyOne (answers_recent fiftyOne)
  exact ⟨(hlimits 50 201 (by norm_num) (by norm_num)).mpr (.inr (.inr (.inl le_rfl))),
    (hclicks 4).mpr (.inl (by norm_num))⟩

end RateX
