import Mathlib.Algebra.Order.Field.Rat
import Mathlib.Algebra.Order.Floor.Ring
import Mathlib.Data.Rat.Floor
import Mathlib.Tactic.Linarith

/-!
# Redis, as far as the limiters use it

A key is a `Slot`: nothing, or a typed value with an optional deadline on the
server's clock. The commands below are the ones the two Lua scripts and
`FixedWindow.Allow` send, each a function of the slot it addresses; a command
sent to a value of another type is refused with `wrongType`. Lua numbers,
scores and clocks are rationals (milliseconds), counters are integers.

Expiry is lazy: every command first forgets a key whose deadline is reached
(`live`). What the background cycle of the server does besides cannot be
observed, since it forgets the same keys.
-/

namespace RateX

namespace Redis

inductive Error where
  | wrongType
  | connection
deriving Repr, DecidableEq

/-- The value types in use: the string an `INCR` counts in, a hash, and a
sorted set with its members and scores. -/
inductive Value where
  | counter (n : Int)
  | hash (fields : String → Option ℚ)
  | zset (members : List (String × ℚ))

structure Entry where
  value : Value
  expireAt : Option ℚ

abbrev Slot := Option Entry

/-- What a script or a command answers over the wire. -/
inductive Reply where
  | integer (n : Int)
  | bulk (text : String)
  | nil
deriving Repr, DecidableEq

/-! ## Expiry -/

/-- The slot as a command at `clock` finds it. -/
def live (clock : ℚ) : Slot → Slot
  | none => none
  | some e =>
      match e.expireAt with
      | none => some e
      | some deadline => if deadline ≤ clock then none else some e

/-- `PEXPIRE`: a time to live that is not positive deletes the key. -/
def pexpire (clock ttl : ℚ) : Slot → Slot
  | none => none
  | some e => if ttl ≤ 0 then none else some { e with expireAt := some (clock + ttl) }

/-- `TTL`: `-2` for no key, `-1` for no deadline, else the remaining time
rounded to the nearest second. -/
def ttl (clock : ℚ) : Slot → Int
  | none => -2
  | some e =>
      match e.expireAt with
      | none => -1
      | some deadline => ⌊(deadline - clock + 500) / 1000⌋

@[simp] theorem live_none (clock : ℚ) : live clock none = none := rfl

@[simp] theorem live_persistent (clock : ℚ) (v : Value) :
    live clock (some ⟨v, none⟩) = some ⟨v, none⟩ := rfl

theorem live_of_lt {clock deadline : ℚ} (v : Value) (h : clock < deadline) :
    live clock (some ⟨v, some deadline⟩) = some ⟨v, some deadline⟩ := by
  simp [live, h]

theorem live_of_le {clock deadline : ℚ} (v : Value) (h : deadline ≤ clock) :
    live clock (some ⟨v, some deadline⟩) = none := by
  simp [live, h]

theorem live_of_ahead {clock : ℚ} {e : Entry} (h : ∀ deadline, e.expireAt = some deadline →
    clock < deadline) : live clock (some e) = some e := by
  match e, h with
  | ⟨v, none⟩, _ => rfl
  | ⟨v, some deadline⟩, h => exact live_of_lt v (h deadline rfl)

theorem pexpire_some {clock ttl : ℚ} (e : Entry) (h : 0 < ttl) :
    pexpire clock ttl (some e) = some { e with expireAt := some (clock + ttl) } := by
  simp [pexpire, not_le.mpr h]

theorem live_eq (clock : ℚ) (slot : Slot) : live clock slot = none ∨ live clock slot = slot := by
  match slot with
  | none => exact .inl rfl
  | some ⟨v, none⟩ => exact .inr rfl
  | some ⟨v, some deadline⟩ =>
      rcases lt_or_ge clock deadline with h | h
      · exact .inr (live_of_lt v h)
      · exact .inl (live_of_le v h)

/-- What a key is found with, it has a deadline ahead of it or none. -/
theorem live_some {clock : ℚ} {slot : Slot} {e : Entry} (h : live clock slot = some e) :
    slot = some e ∧ ∀ deadline, e.expireAt = some deadline → clock < deadline := by
  match slot, h with
  | some ⟨v, none⟩, h =>
      obtain rfl := Option.some.inj h
      exact ⟨rfl, fun _ hd => nomatch hd⟩
  | some ⟨v, some deadline⟩, h =>
      rcases lt_or_ge clock deadline with hlt | hge
      · rw [live_of_lt v hlt] at h
        obtain rfl := Option.some.inj h
        exact ⟨rfl, fun d hd => Option.some.inj hd ▸ hlt⟩
      · rw [live_of_le v hge] at h
        cases h

/-- After a `PEXPIRE` the key is gone, or has a deadline. -/
theorem pexpire_dated {clock ttl : ℚ} {slot : Slot} {e : Entry}
    (h : pexpire clock ttl slot = some e) : e.expireAt ≠ none := by
  cases slot with
  | none => cases h
  | some e' =>
      simp only [pexpire] at h
      split at h
      · cases h
      · obtain rfl := Option.some.inj h
        exact Option.some_ne_none _

/-! ## Hashes -/

def hget (slot : Slot) (field : String) : Except Error (Option ℚ) :=
  match slot with
  | none => .ok none
  | some ⟨.hash fields, _⟩ => .ok (fields field)
  | some _ => .error .wrongType

/-- `HSET key field value …` keeps the other fields and the deadline. -/
def hset (slot : Slot) (pairs : List (String × ℚ)) : Except Error Slot :=
  let write := fun (fields : String → Option ℚ) (p : String × ℚ) =>
    Function.update fields p.1 (some p.2)
  match slot with
  | none => .ok (some ⟨.hash (pairs.foldl write fun _ => none), none⟩)
  | some ⟨.hash fields, deadline⟩ => .ok (some ⟨.hash (pairs.foldl write fields), deadline⟩)
  | some _ => .error .wrongType

/-! ## Sorted sets -/

/-- A sorted set that loses its last member is deleted. -/
def zsetSlot (members : List (String × ℚ)) (deadline : Option ℚ) : Slot :=
  if members.isEmpty then none else some ⟨.zset members, deadline⟩

/-- `ZREMRANGEBYSCORE key lo hi`, both ends included. -/
def zremrangebyscore (slot : Slot) (lo hi : ℚ) : Except Error Slot :=
  match slot with
  | none => .ok none
  | some ⟨.zset members, deadline⟩ =>
      .ok (zsetSlot (members.filter fun m => ¬(lo ≤ m.2 ∧ m.2 ≤ hi)) deadline)
  | some _ => .error .wrongType

def zcard (slot : Slot) : Except Error Nat :=
  match slot with
  | none => .ok 0
  | some ⟨.zset members, _⟩ => .ok members.length
  | some _ => .error .wrongType

/-- `ZADD key score member`: a member already present only changes its score. -/
def zadd (slot : Slot) (score : ℚ) (member : String) : Except Error Slot :=
  match slot with
  | none => .ok (some ⟨.zset [(member, score)], none⟩)
  | some ⟨.zset members, deadline⟩ =>
      .ok (some ⟨.zset (members.filter (fun m => m.1 ≠ member) ++ [(member, score)]), deadline⟩)
  | some _ => .error .wrongType

/-- `ZRANGE key 0 0 WITHSCORES`, its score: the lowest in the set. -/
def zrangeFirst (slot : Slot) : Except Error (Option ℚ) :=
  match slot with
  | none => .ok none
  | some ⟨.zset members, _⟩ => .ok (members.map Prod.snd).min?
  | some _ => .error .wrongType

/-- The slot as a sorted set: a missing key is the empty one. -/
def IsSet (slot : Slot) (members : List (String × ℚ)) : Prop :=
  (slot = none ∧ members = []) ∨ ∃ deadline, slot = some ⟨.zset members, deadline⟩

theorem isSet_none : IsSet none [] := .inl ⟨rfl, rfl⟩

theorem isSet_some (members : List (String × ℚ)) (deadline : Option ℚ) :
    IsSet (some ⟨.zset members, deadline⟩) members := .inr ⟨deadline, rfl⟩

section IsSet

variable {slot : Slot} {members : List (String × ℚ)}

theorem IsSet.zremrangebyscore (h : IsSet slot members) (lo hi : ℚ) :
    ∃ purged, Redis.zremrangebyscore slot lo hi = .ok purged ∧
      IsSet purged (members.filter fun m => ¬(lo ≤ m.2 ∧ m.2 ≤ hi)) := by
  obtain ⟨rfl, rfl⟩ | ⟨deadline, rfl⟩ := h
  · exact ⟨none, rfl, isSet_none⟩
  · refine ⟨_, rfl, ?_⟩
    unfold zsetSlot
    split
    · rename_i hempty
      exact .inl ⟨rfl, List.isEmpty_iff.mp hempty⟩
    · exact isSet_some ..

/-- A set that its deadline may have reached. -/
theorem IsSet.live (h : IsSet slot members) (clock : ℚ) :
    ∃ rest, IsSet (Redis.live clock slot) rest ∧ rest.Sublist members := by
  rcases live_eq clock slot with hgone | hsame
  · exact ⟨[], hgone ▸ isSet_none, List.nil_sublist _⟩
  · exact ⟨members, hsame.symm ▸ h, List.Sublist.refl _⟩

theorem IsSet.zcard (h : IsSet slot members) : Redis.zcard slot = .ok members.length := by
  obtain ⟨rfl, rfl⟩ | ⟨deadline, rfl⟩ := h <;> rfl

theorem IsSet.zadd (h : IsSet slot members) (score : ℚ) (member : String) :
    ∃ deadline, Redis.zadd slot score member =
      .ok (some ⟨.zset (members.filter (fun m => m.1 ≠ member) ++ [(member, score)]),
        deadline⟩) := by
  obtain ⟨rfl, rfl⟩ | ⟨deadline, rfl⟩ := h
  · exact ⟨none, rfl⟩
  · exact ⟨deadline, rfl⟩

theorem IsSet.zrangeFirst (h : IsSet slot members) :
    Redis.zrangeFirst slot = .ok (members.map Prod.snd).min? := by
  obtain ⟨rfl, rfl⟩ | ⟨deadline, rfl⟩ := h <;> rfl

theorem IsSet.pexpire (h : IsSet slot members) (hne : members ≠ []) {clock ttl : ℚ}
    (httl : 0 < ttl) :
    Redis.pexpire clock ttl slot = some ⟨.zset members, some (clock + ttl)⟩ := by
  obtain ⟨-, hempty⟩ | ⟨deadline, rfl⟩ := h
  · exact absurd hempty hne
  · exact pexpire_some _ httl

end IsSet

/-! ## Counters -/

/-- `INCR` counts a missing key from `0` and keeps the deadline of a present one. -/
def incr (slot : Slot) : Except Error (Int × Slot) :=
  match slot with
  | none => .ok (1, some ⟨.counter 1, none⟩)
  | some ⟨.counter n, deadline⟩ => .ok (n + 1, some ⟨.counter (n + 1), deadline⟩)
  | some _ => .error .wrongType

/-! ## The keyspace -/

abbrev Store := String → Slot

def Store.empty : Store := fun _ => none

/-- One command or script on one key, at the server's time `clock`. A refused
command writes nothing. -/
def Store.run {α : Type} (store : Store) (clock : ℚ) (key : String)
    (command : Slot → Except Error (α × Slot)) : Except Error α × Store :=
  match command (live clock (store key)) with
  | .ok (reply, slot) => (.ok reply, Function.update store key slot)
  | .error e => (.error e, store)

theorem Store.run_ok {α : Type} {store : Store} {clock : ℚ} {key : String}
    {command : Slot → Except Error (α × Slot)} {reply : α} {slot : Slot}
    (h : command (live clock (store key)) = .ok (reply, slot)) :
    store.run clock key command = (.ok reply, Function.update store key slot) := by
  rw [Store.run, h]

/-- A command that was refused has changed nothing; one that was carried out
has put what it left in the place of its key. -/
theorem Store.run_cases {α : Type} (store : Store) (clock : ℚ) (key : String)
    (command : Slot → Except Error (α × Slot)) :
    (∃ e, store.run clock key command = (.error e, store)) ∨
      ∃ reply slot, command (live clock (store key)) = .ok (reply, slot) ∧
        store.run clock key command = (.ok reply, Function.update store key slot) := by
  unfold Store.run
  split
  · rename_i reply slot h
    exact .inr ⟨reply, slot, h, rfl⟩
  · exact .inl ⟨_, rfl⟩

/-- The operation reads and writes one key of the store: its answer and the
key's next slot are read off the key's slot, and every other key is left alone. -/
structure Local {α : Type} (key : String) (op : Store → α × Store) : Prop where
  congr : ∀ {store store' : Store}, store key = store' key →
    (op store).1 = (op store').1 ∧ (op store).2 key = (op store').2 key
  frame : ∀ (store : Store) {other : String}, other ≠ key → (op store).2 other = store other

theorem Local.pure {α : Type} (key : String) (a : α) : Local key fun store => (a, store) :=
  ⟨fun h => ⟨rfl, h⟩, fun _ _ _ => rfl⟩

theorem Local.map {α β : Type} {key : String} {op : Store → α × Store} (h : Local key op)
    (f : α → β) : Local key fun store => (f (op store).1, (op store).2) :=
  ⟨fun hs => ⟨congrArg f (h.congr hs).1, (h.congr hs).2⟩, fun store _ hne => h.frame store hne⟩

theorem Local.bind {α β : Type} {key : String} {op : Store → α × Store}
    {next : α → Store → β × Store} (h : Local key op) (hnext : ∀ a, Local key (next a)) :
    Local key fun store => next (op store).1 (op store).2 := by
  constructor
  · intro store store' hs
    obtain ⟨h1, h2⟩ := h.congr hs
    rw [h1]
    exact (hnext _).congr h2
  · intro store other hne
    rw [(hnext _).frame _ hne, h.frame store hne]

theorem Store.run_local {α : Type} (clock : ℚ) (key : String)
    (command : Slot → Except Error (α × Slot)) :
    Local key fun store => store.run clock key command := by
  constructor
  · intro store store' h
    unfold Store.run
    rw [h]
    split
    · simp
    · exact ⟨rfl, h⟩
  · intro store other hne
    unfold Store.run
    split
    · exact Function.update_of_ne hne ..
    · rfl

/-- A command leaves every other key alone. -/
theorem Store.run_other {α : Type} (store : Store) (clock : ℚ) (key : String)
    (command : Slot → Except Error (α × Slot)) {other : String} (h : other ≠ key) :
    (store.run clock key command).2 other = store other :=
  (Store.run_local clock key command).frame store h

end Redis

end RateX
