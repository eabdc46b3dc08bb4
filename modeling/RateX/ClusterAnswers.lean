import RateX.ClusterLimiters

/-!
# What the cluster answers

The three limiters on Redis share one keyspace, and each kind of limiter has its
own kind of value: a bucket a hash, a sliding window a sorted set, a fixed window
a counter. No run of the cluster mixes them up (`Typed`), so Redis refuses no
command, every script's reply can be read, and no policy of the tables has a window
that a clock reading cannot be divided by. A call then fails for one reason only:
one of its own commands was lost. The default policy alone may have no window to
divide by, and then no call by it comes back (`requests_answered`).
-/

namespace RateX

namespace Cluster

open Redis Steps Database

/-! ## A typed keyspace -/

/-- The slot is free, or holds the kind of value that the limiter keeps. -/
def OfKind : RateLimiter → Slot → Prop
  | .token _, slot => ∀ e, slot = some e → ∃ fields, e.value = .hash fields
  | .sliding _, slot => ∀ e, slot = some e → ∃ members, e.value = .zset members
  | .fixed _, slot => ∀ e, slot = some e → ∃ n, e.value = .counter n
  | .memory _, _ => True

def Typed (store : Store) : Prop :=
  ∀ l key w, OfRedis l → OfKind l (store (storeKey l key w))

section Kinds

variable {l l' : RateLimiter} {slot slot' : Slot} {store store' : Store} {key key' : String}
  {w w' : ℤ} {clock : ℚ}

theorem ofKind_none (l : RateLimiter) : OfKind l none := by
  cases l with
  | memory l => trivial
  | _ => exact fun e he => by cases he

/-- Nothing but the value decides. -/
theorem OfKind.of_value (h : OfKind l slot)
    (hvalue : ∀ e', slot' = some e' → ∃ e, slot = some e ∧ e.value = e'.value) :
    OfKind l slot' := by
  cases l with
  | memory l => trivial
  | _ =>
      intro e' he'
      obtain ⟨e, he, heq⟩ := hvalue e' he'
      exact heq ▸ h e he

theorem OfKind.live (h : OfKind l slot) (clock : ℚ) : OfKind l (Redis.live clock slot) :=
  h.of_value fun e' he' => ⟨e', (live_some he').1, rfl⟩

theorem OfKind.pexpire (h : OfKind l slot) (clock ttl : ℚ) :
    OfKind l (Redis.pexpire clock ttl slot) := by
  refine h.of_value fun e' he' => ?_
  cases slot with
  | none => cases he'
  | some e =>
      simp only [Redis.pexpire] at he'
      split at he'
      · cases he'
      · exact ⟨e, rfl, by rw [← Option.some.inj he']⟩

/-- A key tells the kind of its limiter. -/
theorem ofKind_of_storeKey (hl : OfRedis l) (hl' : OfRedis l')
    (h : storeKey l key w = storeKey l' key' w') (hslot : OfKind l' slot) : OfKind l slot := by
  cases sameKind_of_storeKey hl hl' h <;> exact hslot

theorem Typed.update (h : Typed store) (hl : OfRedis l) (hslot : OfKind l slot) :
    Typed (Function.update store (storeKey l key w) slot) := by
  intro l' key' w' hl'
  by_cases hkey : storeKey l' key' w' = storeKey l key w
  · rw [hkey, Function.update_self]
    exact ofKind_of_storeKey hl' hl hkey hslot
  · rw [Function.update_of_ne hkey]
    exact h l' key' w' hl'

/-! ## Commands on it -/

/-- The command is carried out on every slot of the kind, and leaves one. -/
def Accepts {α : Type} (l : RateLimiter) (command : Slot → Except Redis.Error (α × Slot))
    (answer : α → Prop) : Prop :=
  ∀ slot, OfKind l slot → ∃ reply slot', command slot = .ok (reply, slot') ∧ OfKind l slot' ∧
    answer reply

/-- A command that is sent is carried out, or lost. -/
theorem Typed.send {α : Type} (h : Typed store) (hl : OfRedis l)
    {command : Slot → Except Redis.Error (α × Slot)} {answer : α → Prop}
    (hcommand : Accepts l command answer) (net : Network) (clock : ℚ) (key : String) (w : ℤ) :
    let out := send net store clock (storeKey l key w) command
    Typed out.2 ∧ ((∃ reply, out.1 = .ok reply ∧ answer reply) ∨
      (out.1 = .error .connection ∧ net ≠ .up)) := by
  obtain ⟨reply, slot, hrun, hslot, hanswer⟩ :=
    hcommand (Redis.live clock (store (storeKey l key w))) ((h l key w hl).live clock)
  have hstore : Typed (Function.update store (storeKey l key w) slot) := h.update hl hslot
  have hout := Store.run_ok hrun
  cases net with
  | up =>
      simp only [Cluster.send, hout]
      exact ⟨hstore, .inl ⟨reply, rfl, hanswer⟩⟩
  | answerLost =>
      simp only [Cluster.send, hout]
      exact ⟨hstore, .inr ⟨trivial, by simp⟩⟩
  | down => exact ⟨h, .inr ⟨rfl, by simp⟩⟩

/-- A reply that `parseReply` can read. -/
def Legible (values : List Reply) : Prop := ∃ a b c d : ℤ,
  values = [.integer a, .integer b, .integer c, .integer d]

/-- A legible reply is an answer. -/
theorem parse_error {reply : Except Redis.Error (List Reply)} {net : Network}
    (h : (∃ values, reply = .ok values ∧ Legible values) ∨ (reply = .error .connection ∧ net ≠ .up))
    {resetAfter : Int} {e : AllowError}
    (he : Reached.answer (parseReply reply resetAfter) = .answer (.error e)) :
    e = .redis .connection ∧ net ≠ .up := by
  rcases h with ⟨values, rfl, a, b, c, d, rfl⟩ | ⟨rfl, hnet⟩
  · cases he
  · cases he
    exact ⟨rfl, hnet⟩

theorem ofKind_hash (l : TokenBucket) (fields : String → Option ℚ) (deadline : Option ℚ) :
    OfKind (.token l) (some ⟨.hash fields, deadline⟩) := fun _ he =>
  ⟨fields, by rw [← Option.some.inj he]⟩

theorem accepts_tokenBucketScript (l : TokenBucket) (argv : TokenArgs) (clock : ℚ) :
    Accepts (.token l) (tokenBucketScript argv clock) Legible := by
  intro slot hslot
  cases slot with
  | none => exact ⟨_, _, rfl, (ofKind_hash l _ _).pexpire clock _, ⟨_, _, _, _, rfl⟩⟩
  | some e =>
      obtain ⟨value, deadline⟩ := e
      obtain ⟨fields, rfl⟩ := hslot _ rfl
      exact ⟨_, _, rfl, (ofKind_hash l _ _).pexpire clock _, ⟨_, _, _, _, rfl⟩⟩

theorem accepts_slidingWindowScript (l : SlidingWindow) (argv : SlidingArgs) (clock : ℚ) :
    Accepts (.sliding l) (slidingWindowScript argv clock) Legible := by
  intro slot hslot
  have hset : ∃ members, IsSet slot members := by
    cases slot with
    | none => exact ⟨[], isSet_none⟩
    | some e =>
        obtain ⟨value, deadline⟩ := e
        obtain ⟨members, rfl⟩ := hslot _ rfl
        exact ⟨members, isSet_some members deadline⟩
  have hkind : ∀ {slot members}, IsSet slot members → OfKind (.sliding l) slot := by
    rintro slot members (⟨rfl, -⟩ | ⟨deadline, rfl⟩)
    · exact ofKind_none _
    · intro e he
      exact ⟨members, by rw [← Option.some.inj he]⟩
  obtain ⟨members, hmembers⟩ := hset
  obtain ⟨-, deadline, heq⟩ | ⟨-, purged, hpurged, heq⟩ :=
    slidingWindowScript_set hmembers argv clock
  · exact ⟨_, _, heq, (hkind (isSet_some ..)).pexpire clock _, ⟨_, _, _, _, rfl⟩⟩
  · exact ⟨_, _, heq, (hkind hpurged).pexpire clock _, ⟨_, _, _, _, rfl⟩⟩

theorem accepts_incr (l : FixedWindow) : Accepts (.fixed l) Redis.incr fun _ => True := by
  intro slot hslot
  cases slot with
  | none => exact ⟨_, _, rfl, fun e he => ⟨1, by rw [← Option.some.inj he]⟩, trivial⟩
  | some e =>
      obtain ⟨value, deadline⟩ := e
      obtain ⟨n, rfl⟩ := hslot _ rfl
      exact ⟨_, _, rfl, fun e he => ⟨n + 1, by rw [← Option.some.inj he]⟩, trivial⟩

theorem accepts_expire (l l' : FixedWindow) (clock : ℚ) :
    Accepts (.fixed l) (l'.expire clock) fun _ => True :=
  fun _ hslot => ⟨(), _, rfl, hslot.pexpire clock _, trivial⟩

/-! ## Calls on it -/

/-- A fixed window of no whole second: a clock reading cannot be divided by it. -/
def Undivided : RateLimiter → Prop
  | .fixed l => truncate l.window.seconds = 0
  | _ => False

theorem call_undivided (h : Undivided l) (net : Network) (now reading : ℚ) (member key : String)
    (store : Store) :
    call net now reading member key (l, store) = (.answer (.error .panic), l, store) := by
  cases l with
  | fixed l =>
      have hnone : l.windowID reading = none := by
        unfold FixedWindow.windowID
        exact if_pos h
      simp only [call, hnone]
  | _ => exact h.elim

/-- The first command of a call is answered, or lost. -/
theorem Typed.call (h : Typed store) (hl : OfRedis l) (hdivided : ¬ Undivided l) (net : Network)
    (now reading : ℚ) (member key : String) :
    let out := call net now reading member key (l, store)
    Typed out.2.2 ∧ ∀ e, out.1 = .answer (.error e) → e = .redis .connection ∧ net ≠ .up := by
  cases hl with
  | token C W =>
      obtain ⟨htyped, hout⟩ := h.send (.token C W)
        (accepts_tokenBucketScript _ ((newTokenBucket C W).args reading) now) net now key 0
      by_cases hcap : (newTokenBucket C W).capacity ≤ 0
      · simp only [Cluster.call, if_pos hcap]
        exact ⟨h, fun e he => by cases he⟩
      · simp only [Cluster.call, if_neg hcap]
        exact ⟨htyped, fun e he => parse_error hout he⟩
  | sliding L W =>
      obtain ⟨htyped, hout⟩ := h.send (.sliding L W)
        (accepts_slidingWindowScript _ ((newSlidingWindow L W).args reading member) now) net now
        key 0
      exact ⟨htyped, fun e he => parse_error hout he⟩
  | fixed L W =>
      obtain ⟨w, hid⟩ : ∃ w, (newFixedWindow L W).windowID reading = some w := by
        unfold FixedWindow.windowID
        exact ⟨_, if_neg hdivided⟩
      obtain ⟨htyped, hout⟩ := h.send (.fixed L W) (accepts_incr (newFixedWindow L W)) net now key w
      simp only [Cluster.call, hid]
      refine ⟨htyped, fun e he => ?_⟩
      simp only [storeKey] at hout
      rcases hout with ⟨count, hreply, -⟩ | ⟨hreply, hnet⟩
      · simp only [hreply, Reached.ofIncr] at he
        cases he
      · simp only [hreply, Reached.ofIncr] at he
        cases he
        exact ⟨rfl, hnet⟩

end Kinds

/-! ## The tables' policies -/

section Policies

variable {db : Database} {p : Policy}

theorem enabledRoute_mem {method route : String} (hp : db.enabledRoute method route = some p) :
    p ∈ db.policies := by
  obtain ⟨rp, -, hrow⟩ := List.exists_of_findSome?_eq_some hp
  split at hrow
  · exact List.mem_of_find?_eq_some hrow
  · cases hrow

theorem identify_mem {sha256 : String → String} {down : Bool} {now : ℚ} {req : Request}
    {id : Identity} (hid : identify sha256 db down now req = .ok id) (hp : id.policy = some p) :
    p ∈ db.policies := by
  by_cases hkey : extractAPIKey req = ""
  · rw [identify_of_no_key hkey] at hid
    split at hid
    · cases hid
    · cases hid
      cases hp
  · obtain ⟨key, policy, hrow, rfl⟩ := identify_of_key hkey sha256 db down now hid
    obtain rfl := Option.some.inj hp
    obtain ⟨k, -, hk⟩ := List.exists_of_findSome?_eq_some hrow
    split at hk
    · obtain ⟨q, hq, heq⟩ := Option.map_eq_some_iff.mp hk
      cases heq
      exact List.mem_of_find?_eq_some hq
    · cases hk

end Policies

/-! ## The system -/

/-- A command of the move, or its answer, is lost. -/
def Move.Lost : Move → Prop
  | .allow net _ _ => net ≠ .up
  | .expire net => net ≠ .up
  | _ => False

/-- A call by a window that it cannot divide by panics; any other one has a result, or lost
its connection. -/
structure Excused (undivided lost : Prop) (outcome : Outcome) : Prop where
  panics : undivided → outcome = .error .panic
  answers : ¬ undivided → (∃ r, outcome = .ok r) ∨ (outcome = .error (.redis .connection) ∧ lost)

/-- What the call of the request came to. -/
def Stage.outcome : Stage → Option (Ticket × Outcome)
  | .answered t _ outcome => some (t, outcome)
  | .served t _ outcome _ => some (t, outcome)
  | _ => none

/-- The limiter that the request goes by. -/
def Ticket.limiter (srv : Server) (t : Ticket) : RateLimiter := srv.limiter (srv.orDefault t.policy)

def Stage.Sound (srv : Server) (lost : Prop) : Stage → Prop
  | .identified id => ∀ p, id.policy = some p → Stored p
  | .chosen t => ∀ p, t.policy = some p → Stored p
  | .holding t _ => ∀ p, t.policy = some p → Stored p
  | .counted t _ _ _ _ _ => (∀ p, t.policy = some p → Stored p) ∧ ¬ Undivided (t.limiter srv)
  | .answered t _ outcome => (∀ p, t.policy = some p → Stored p) ∧
      Excused (Undivided (t.limiter srv)) lost outcome
  | .served t _ outcome _ => (∀ p, t.policy = some p → Stored p) ∧
      Excused (Undivided (t.limiter srv)) lost outcome
  | _ => True

theorem Excused.mono {undivided lost lost' : Prop} {outcome : Outcome}
    (h : Excused undivided lost outcome) (hlost : lost → lost') :
    Excused undivided lost' outcome where
  panics := h.panics
  answers hdivided := (h.answers hdivided).imp_right fun hc => ⟨hc.1, hlost hc.2⟩

theorem Stage.Sound.mono {srv : Server} {lost lost' : Prop} {stage : Stage}
    (h : stage.Sound srv lost) (hlost : lost → lost') : stage.Sound srv lost' := by
  cases stage with
  | answered t reading outcome => exact ⟨h.1, h.2.mono hlost⟩
  | served t reading outcome out => exact ⟨h.1, h.2.mono hlost⟩
  | _ => exact h

/-- The default policy of the instance is a fixed window of no whole second. -/
def ZeroWindow (srv : Server) : Prop :=
  let policy := LimiterFactory.defaultPolicy srv.cfg
  policy.algorithm = algorithmFixedWindow ∧
    truncate (Duration.ofSeconds policy.windowSeconds).seconds = 0

/-- The task has lost a command in the run. -/
def LostIn (run : List Action) (n : ℕ) : Prop := ∃ m, .move n m ∈ run ∧ m.Lost

structure Answering (d : Deployment) (run : List Action) (s : Sys) : Prop where
  ready : Ready d s
  wellFormed : s.db.WellFormed
  typed : Typed s.store
  sound : ∀ n x, s.tasks n = some x → x.stage.Sound (d.server x.inst) (LostIn run n)

section Answering

variable {d : Deployment} {i : ℕ} {now : ℚ} {db : Database} {req : Request} {inst inst' : Instance}
  {store store' : Store} {stage stage' : Stage} {m : Move} {run : List Action} {s s' : Sys}

theorem undivided_limiter (hredis : d.OnRedis) (i : ℕ) (policy : Policy) :
    Undivided ((d.server i).limiter policy) ↔ policy.algorithm = algorithmFixedWindow ∧
      truncate (Duration.ofSeconds policy.windowSeconds).seconds = 0 := by
  unfold Server.limiter LimiterFactory.newLimiter
  simp only [if_neg (not_inMemory hredis i)]
  by_cases hfixed : policy.algorithm = algorithmFixedWindow
  · rw [if_pos hfixed]
    exact (and_iff_right hfixed).symm
  · rw [if_neg hfixed]
    refine iff_of_false ?_ fun h => hfixed h.1
    split <;> exact not_false

/-- Of the policies that calls go by, the default one alone may have no window to divide by. -/
theorem undivided_ticket (hredis : d.OnRedis) {t : Ticket}
    (h : ∀ p, t.policy = some p → Stored p) :
    Undivided (t.limiter (d.server i)) ↔ t.policy = none ∧ ZeroWindow (d.server i) := by
  unfold Ticket.limiter
  rw [undivided_limiter hredis]
  cases hp : t.policy with
  | none => exact (and_iff_right rfl).symm
  | some p =>
      have hpos := (h p hp).window_pos
      have hlt := (h p hp).window_lt
      have hfit : Duration.Fits p.windowSeconds := ⟨by omega, by omega⟩
      refine iff_of_false (fun hzero => ?_) fun hnone => nomatch hnone.1
      obtain ⟨-, hzero⟩ := hzero
      rw [show (d.server i).orDefault (some p) = p from rfl, Duration.seconds_ofSeconds hfit,
        truncate_intCast] at hzero
      omega

theorem Moved.sound (hredis : d.OnRedis)
    (hfits : stage.Fits (d.server i) req inst.heap) (hwf : db.WellFormed) (htyped : Typed store)
    {lost : Prop} (hsound : stage.Sound (d.server i) lost)
    (h : Moved (d.server i) now db req inst store stage m (stage', inst', store')) :
    Typed store' ∧ stage'.Sound (d.server i) (lost ∨ m.Lost) := by
  cases h with
  | refused hid => exact ⟨htyped, trivial⟩
  | identified hid => exact ⟨htyped, fun p hp => hwf.stored p (identify_mem hid hp)⟩
  | @chosen id down found hfound =>
      refine ⟨htyped, fun p hp => ?_⟩
      cases found with
      | none => exact hsound p hp
      | some q =>
          obtain rfl := Option.some.inj hp
          split at hfound
          · cases hfound
          · exact hwf.stored q (enabledRoute_mem hfound.symm)
  | holding hlim hwired hle => exact ⟨htyped, hsound⟩
  | @called t lim net reading member reached l _ hcall =>
      by_cases hundivided : Undivided (t.limiter (d.server i))
      · rw [Ticket.limiter] at hundivided
        rw [call_undivided hundivided] at hcall
        cases hcall
        exact ⟨htyped, hsound, fun _ => rfl, fun hdivided => absurd hundivided hdivided⟩
      · obtain ⟨htyped', herror⟩ := htyped.call (ofRedis_limiter hredis i _) hundivided net now
          reading member (t.key req)
        rw [hcall] at htyped' herror
        refine ⟨htyped', ?_⟩
        cases reached with
        | counted f redisKey count => exact ⟨hsound, hundivided⟩
        | answer outcome =>
            refine ⟨hsound, fun h => absurd h hundivided, fun _ => ?_⟩
            cases outcome with
            | ok r => exact .inl ⟨r, rfl⟩
            | error e =>
                obtain ⟨rfl, hnet⟩ := herror e rfl
                exact .inr ⟨rfl, .inr hnet⟩
  | @expired t reading f redisKey count net reply _ hsend =>
      obtain ⟨hlim, w, rfl⟩ := hfits
      obtain ⟨hstored, hdivided⟩ := hsound
      have hl : OfRedis (.fixed f) := hlim ▸ ofRedis_limiter hredis i _
      obtain ⟨htyped', hreply⟩ := htyped.send hl (accepts_expire f f now) net now (t.key req) w
      have hkey : storeKey (.fixed f) (t.key req) w = f.redisKey (t.key req) w := rfl
      rw [hkey, hsend] at htyped' hreply
      refine ⟨htyped', ?_⟩
      rcases hreply with ⟨u, rfl, -⟩ | ⟨rfl, hnet⟩
      · exact ⟨hstored, hdivided⟩
      · exact ⟨hstored, fun h => absurd h hdivided, fun _ => .inr ⟨rfl, .inr hnet⟩⟩
  | @returned t reading f redisKey count net =>
      exact ⟨htyped, hsound.1, fun h => absurd h hsound.2, fun _ => .inl ⟨_, rfl⟩⟩
  | replied => exact ⟨htyped, hsound.1, hsound.2.mono .inl⟩

theorem LostIn.append {n : ℕ} (h : LostIn run n) (a : Action) : LostIn (run ++ [a]) n :=
  h.imp fun _ hm => ⟨List.mem_append_left _ hm.1, hm.2⟩

/-- A step that leaves Redis alone and answers nobody. -/
theorem Answering.later (h : Answering d run s) (a : Action) (hready : Ready d s')
    (hwf : s'.db.WellFormed) (hstore : s'.store = s.store)
    (hsound : ∀ n x, s'.tasks n = some x → x.stage.Sound (d.server x.inst) (LostIn run n)) :
    Answering d (run ++ [a]) s' where
  ready := hready
  wellFormed := hwf
  typed := hstore ▸ h.typed
  sound n x hx := (hsound n x hx).mono fun hlost => hlost.append a

theorem answering_step (hredis : d.OnRedis) (h : Answering d run s) {a : Action}
    (hs : step d s a = some s') : Answering d (run ++ [a]) s' := by
  have hready := ready_step hredis h.ready hs
  cases step_stepped hs with
  | tick hle => exact h.later _ hready h.wellFormed rfl h.sound
  | admin =>
      exact h.later _ hready (admin_wellFormed d.uuid d.sha256 h.wellFormed _) rfl h.sound
  | arrive hfree => exact h.later _ hready h.wellFormed rfl (forall_tasks h.sound trivial)
  | @move n m =>
      obtain ⟨x, ⟨stage, inst, store⟩, hx, -, hmoved, hput, -⟩ := h.ready.move hredis hs
      rw [hput] at hready ⊢
      obtain ⟨htyped, hsound⟩ := hmoved.sound hredis (h.ready.fits n x hx) h.wellFormed
        h.typed (h.sound n x hx)
      refine ⟨hready, h.wellFormed, htyped, forall_tasks (fun k y hy => ?_) ?_⟩
      · exact (h.sound k y hy).mono fun hlost => hlost.append _
      · refine hsound.mono fun hlost => ?_
        rcases hlost with hlost | hlost
        · exact hlost.append _
        · exact ⟨m, List.mem_append_right _ (List.mem_singleton.mpr rfl), hlost⟩

theorem answering_exec (hredis : d.OnRedis) (hdb : db.WellFormed)
    (hs : exec (step d) (Sys.init d db) run = some s) : Answering d run s :=
  exec_invariant (I := Answering d)
    { ready := ready_init d db
      wellFormed := hdb
      typed := fun _ _ _ _ => ofKind_none _
      sound := fun n x h => by cases h }
    (fun _ _ _ _ h hs => answering_step hredis h hs) hs

/-- **Only a lost connection fails a call.** In every run of the cluster, from
well-formed tables and an empty Redis, whatever limiters share the keyspace and
however the policies change meanwhile: a call that is over has a result, unless
one of its own commands was lost. The exception is an instance whose default
policy is a fixed window of no second, where all calls without a policy panic. -/
theorem requests_answered (d : Deployment) (hredis : d.OnRedis) {db : Database}
    (hdb : db.WellFormed) {run : List Action} {s : Sys}
    (hs : exec (step d) (Sys.init d db) run = some s) {n : ℕ} {x : Task}
    (hx : s.tasks n = some x) {t : Ticket} {outcome : Outcome}
    (hover : x.stage.outcome = some (t, outcome)) :
    (t.policy = none ∧ ZeroWindow (d.server x.inst) → outcome = .error .panic) ∧
      (¬ (t.policy = none ∧ ZeroWindow (d.server x.inst)) → (∃ r, outcome = .ok r) ∨
        (outcome = .error (.redis .connection) ∧ ∃ m, .move n m ∈ run ∧ m.Lost)) := by
  have hsound := (answering_exec hredis hdb hs).sound n x hx
  have hexcused : (∀ p, t.policy = some p → Stored p) ∧
      Excused (Undivided (t.limiter (d.server x.inst))) (LostIn run n) outcome := by
    revert hover hsound
    cases x.stage with
    | answered t' reading outcome' =>
        intro hover hsound
        cases hover
        exact hsound
    | served t' reading outcome' out =>
        intro hover hsound
        cases hover
        exact hsound
    | _ =>
        intro hover
        cases hover
  obtain ⟨hstored, hpanics, hanswers⟩ := hexcused
  rw [undivided_ticket hredis hstored] at hpanics hanswers
  exact ⟨hpanics, hanswers⟩

end Answering

/-- A call without an answer, in the default bucket. -/
def lostCall : List Action :=
  [.arrive 0 0 getProducts, .move 0 (.identify false), .move 0 (.findPolicy true),
    .move 0 (.fromPolicy false), .move 0 (.allow .answerLost 0 "a")]

theorem requests_answered_lostCall : ∃ (s : Sys) (x : Task) (t : Ticket) (outcome : Outcome),
    exec (step onRedis) (Sys.init onRedis (migrated "1" "2" "3")) lostCall = some s ∧
      s.tasks 0 = some x ∧ x.stage.outcome = some (t, outcome) ∧ ((∃ r, outcome = .ok r) ∨
        (outcome = .error (.redis .connection) ∧ ∃ m, .move 0 m ∈ lostCall ∧ m.Lost)) := by
  have hrun : ∃ s ∈ exec (step onRedis) (Sys.init onRedis (migrated "1" "2" "3")) lostCall,
      ∃ x ∈ s.tasks 0, ∃ out ∈ x.stage.outcome, True := by
    decide +kernel
  obtain ⟨s, hs, x, hx, ⟨t, outcome⟩, hover, -⟩ := hrun
  obtain ⟨-, hanswers⟩ := requests_answered onRedis onRedis_onRedis
    (wellFormed_migrated (by decide) (by decide) (by decide)) hs hx hover
  have hbucket : ¬ ZeroWindow (onRedis.server x.inst) := fun hzero =>
    absurd (show closedServer.cfg.defaultAlgorithm = algorithmFixedWindow from hzero.1) (by decide)
  exact ⟨s, x, t, outcome, hs, hx, hover, hanswers fun h => hbucket h.2⟩

end Cluster

end RateX
