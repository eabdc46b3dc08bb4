import RateX.ClusterCounters
import RateX.ClusterIsolation

/-!
# The table of events of the cluster

The reply to a decided request sends its event off to a goroutine of its instance,
which inserts it at any later time, in any order with the others, or fails: the
columns may refuse the event, and the database may be down or slow. A `Logged`
run is a run of the cluster with its counters and with the table.

In every state of every run a request has at most one row, and that is the event
of its own decision (`rows_true`). When no insert waits and none was lost, every
decided request has its row, and the counters of all instances add up to the
rows, iff every decided request is recordable (`rows_exact`).
-/

namespace RateX

namespace Cluster

open Redis Steps Database

/-! ## The event of a reply -/

section Reply

variable {srv : Server} {req : Request} {t : Ticket} {handler : Handler} {durationMS : Int}

theorem reply_events_ok (r : Result) : (reply srv req t (.ok r) handler durationMS).events =
    (recordedStatus handler r).toList.map
      (eventOf req t.id (policyName t.policy) r durationMS) := by
  have hevents := (respond_ok (replying srv handler durationMS) req t.id (policyName t.policy) r).2
  refine hevents.trans ?_
  rw [List.map_eq_flatMap]
  rfl

theorem reply_events_error (e : AllowError) :
    (reply srv req t (.error e) handler durationMS).events = [] :=
  (respond_error (replying srv handler durationMS) req t.id (policyName t.policy) e).2.2

end Reply

/-! ## Texts from the tables -/

/-- The texts that a request has from the tables fit their columns. -/
structure Stage.Texts (req : Request) (stage : Stage) : Prop where
  identity : ∀ id, stage.id = some id →
    RateX.Fits 24 id.identityType ∧ RateX.Fits 100 (policyName id.policy) ∧
      (RateX.Fits 255 id.identityValue ↔
        (extractAPIKey req = "" → RateX.Fits 255 (clientAddress req)))
  policy : ∀ t, stage.ticket = some t → RateX.Fits 100 (policyName t.policy)

section Texts

variable {srv : Server} {now : ℚ} {db : Database} {req : Request} {stage : Stage}

theorem texts_of_unidentified (hid : stage.id = none) (hticket : stage.ticket = none) :
    stage.Texts req where
  identity id h := by
    rw [hid] at h
    cases h
  policy t h := by
    rw [hticket] at h
    cases h

theorem move_texts {m : Move} {inst : Instance} {store : Store}
    {out : Stage × Instance × Store} (hconf : db.Conforms) (h : stage.Texts req)
    (hmove : move srv now db req stage m (inst, store) = some out) : out.1.Texts req := by
  obtain ⟨stage', inst', store'⟩ := out
  rcases move_lookups hmove with ⟨down, -, -, ⟨e, -, rfl⟩ | ⟨id, hid, rfl⟩⟩ |
    ⟨id, down, rfl, -, rfl⟩ | ⟨t, ht, ht'⟩
  · exact texts_of_unidentified rfl rfl
  · let sit : Situation :=
      { db, now, keysDown := down, routesDown := false, routed := true, recording := true,
        handler := .panics, durationMS := 0 }
    have hfits := @Server.identity_fits srv ⟨sit, req, .error .panic⟩ id hconf hid
    refine ⟨fun id' h' => ?_, fun t h' => by cases h'⟩
    obtain rfl := Option.some.inj h'
    exact hfits
  · refine ⟨fun id' h' => h.identity id' h', fun t ht => ?_⟩
    obtain rfl := Option.some.inj ht
    have hname := (h.identity id rfl).2.1
    cases down with
    | true => exact hname
    | false =>
        show Fits 100 (policyName
          ((db.enabledRoute (toUpper req.method) (routeOf req)).or id.policy))
        cases hrow : db.enabledRoute (toUpper req.method) (routeOf req) with
        | none => exact hname
        | some p => exact hconf.enabledRoute hrow
  · refine ⟨fun id hid => ?_, fun t' h' => ?_⟩
    · rw [id_of_ticket ht'] at hid
      exact h.identity id ((id_of_ticket ht).trans hid)
    · rw [ht'] at h'
      exact h.policy t' (ht.trans h')

/-- The tables conform, and every request has fitting texts from them. -/
structure Conforming (s : Sys) : Prop where
  db : s.db.Conforms
  texts : ∀ n x, s.tasks n = some x → x.stage.Texts x.request

theorem Conforming.step {d : Deployment} {s s' : Sys} (h : Conforming s) {a : Action}
    (hs : Cluster.step d s a = some s') : Conforming s' := by
  cases step_stepped hs with
  | tick hle => exact ⟨h.db, h.texts⟩
  | admin => exact ⟨admin_conforms d.uuid d.sha256 h.db _, h.texts⟩
  | arrive hfree => exact ⟨h.db, forall_tasks h.texts (texts_of_unidentified rfl rfl)⟩
  | @move n m x out hx hmember hout =>
      exact ⟨h.db, forall_tasks h.texts (move_texts h.db (h.texts n x hx) hout)⟩

end Texts

/-! ## Runs -/

/-- The reply to a task, with what its last move brought. -/
structure Reply where
  task : ℕ
  handler : Handler
  durationMS : Int

/-- A reply that tells `r`, as an attempt of its own. -/
def Reply.attempt (q : Reply) (req : Request) (r : Result) : Attempt :=
  { situation :=
      { db := ⟨[], [], []⟩, now := 0, keysDown := false, routesDown := false, routed := true,
        recording := true, handler := q.handler, durationMS := q.durationMS }
    request := req
    answer := .ok r }

/-- The decision that a reply tells. -/
def Stage.decision : Stage → Option Result
  | .served _ _ (.ok r) _ => some r
  | _ => none

/-- The cluster with its counters and its table of events; `replies` is a ghost,
the replies made, in their order. -/
structure Logged where
  metered : Metered
  events : Outbox RequestEvent StoredEvent
  replies : List Reply

/-- The events that the reply to a task sends. -/
def Sys.eventsOf (s : Sys) (n : ℕ) : List RequestEvent :=
  (((s.tasks n).bind fun x => x.stage.reply).map Served.events).getD []

namespace Logged

inductive Act where
  | run (a : Action)
  /-- The goroutine at place `k` of those that wait runs its `Insert`, or fails. -/
  | insert (k id : ℕ) (fails : Bool)

def init (d : Deployment) (db : Database) : Logged :=
  { metered := .init d db, events := Outbox.empty, replies := [] }

def insert (l : Logged) (id : ℕ) (fails : Bool) (event : RequestEvent) : Option StoredEvent :=
  if fails then none
  else (RequestEventRepository.insert id l.metered.sys.now event).toOption

def step (d : Deployment) (l : Logged) : Act → Option Logged
  | .run (.move n (.respond handler durationMS)) =>
      (Metered.step d l.metered (.move n (.respond handler durationMS))).map fun metered =>
        { metered
          events := l.events.send (metered.sys.eventsOf n)
          replies := l.replies ++ [⟨n, handler, durationMS⟩] }
  | .run a => (Metered.step d l.metered a).map fun metered => { l with metered }
  | .insert k id fails =>
      (l.events.deliver k (l.insert id fails)).map fun events => { l with events }

/-- No insert fails but by its columns. -/
def Lossless (_ : Logged) : Act → Prop
  | .insert _ _ fails => fails = false
  | .run _ => True

/-- The rows of a request. -/
def rowsOf (l : Logged) (n : ℕ) : List StoredEvent :=
  (l.events.stored.filter fun p => l.replies[p.1]?.any fun q => q.task = n).map Prod.snd

/-- What a step comes to, with the table. -/
inductive Stepped (d : Deployment) (l : Logged) : Act → Logged → Prop
  | quiet {a : Action} {metered : Metered} (hrun : Metered.step d l.metered a = some metered)
      (hnot : ∀ n handler durationMS, a ≠ .move n (.respond handler durationMS)) :
      Stepped d l (.run a) { l with metered }
  | respond {n : ℕ} {handler : Handler} {durationMS : Int} {metered : Metered}
      (hrun : Metered.step d l.metered (.move n (.respond handler durationMS)) = some metered) :
      Stepped d l (.run (.move n (.respond handler durationMS)))
        { metered
          events := l.events.send (metered.sys.eventsOf n)
          replies := l.replies ++ [⟨n, handler, durationMS⟩] }
  | insert {k id : ℕ} {fails : Bool} {events : Outbox RequestEvent StoredEvent}
      (hevents : l.events.deliver k (l.insert id fails) = some events) :
      Stepped d l (.insert k id fails) { l with events }

theorem step_stepped {d : Deployment} {l l' : Logged} {act : Act} (hs : step d l act = some l') :
    Stepped d l act l' := by
  unfold step at hs
  split at hs
  · obtain ⟨metered, hrun, rfl⟩ := Option.map_eq_some_iff.mp hs
    exact .respond hrun
  · rename_i a hnot
    obtain ⟨metered, hrun, rfl⟩ := Option.map_eq_some_iff.mp hs
    exact .quiet hrun fun n handler durationMS heq => hnot n handler durationMS heq
  · obtain ⟨events, hevents, rfl⟩ := Option.map_eq_some_iff.mp hs
    exact .insert hevents

/-! ## The replies of a run -/

/-- The reply is that of its task, from what the task was answered. -/
def Made (d : Deployment) (s : Sys) (q : Reply) : Prop :=
  ∃ x t reading outcome, s.tasks q.task = some x ∧ x.stage = .served t reading outcome
    (reply (d.server x.inst) x.request t outcome q.handler q.durationMS)

structure Recorded (d : Deployment) (l : Logged) : Prop where
  made : ∀ q ∈ l.replies, Made d l.metered.sys q
  once : (l.replies.map Reply.task).Nodup
  all : ∀ n x t reading outcome out, l.metered.sys.tasks n = some x →
    x.stage = .served t reading outcome out → n ∈ l.replies.map Reply.task
  sent : l.events.sent = l.replies.map fun q => l.metered.sys.eventsOf q.task
  covered : l.events.Covered columns StoredEvent.event

section Recorded

variable {d : Deployment} {l l' : Logged}

theorem recorded_init (d : Deployment) (db : Database) : Recorded d (init d db) where
  made q hq := by cases hq
  once := List.nodup_nil
  all n x t reading outcome out hx _ := by cases hx
  sent := rfl
  covered := Outbox.covered_empty

theorem insert_columns_eq {id : ℕ} {fails : Bool} {event : RequestEvent} {row : StoredEvent}
    (h : l.insert id fails event = some row) : columns event = some row.event := by
  unfold insert at h
  cases fails with
  | true => cases h
  | false =>
      rw [if_neg Bool.false_ne_true] at h
      rw [← insert_columns id l.metered.sys.now event, h]
      rfl

/-- A reply that has been made stays, with the events it sent. -/
theorem Made.final {s s' : Sys} {a : Action} (hs : Cluster.step d s a = some s') {q : Reply}
    (h : Made d s q) : Made d s' q ∧ s'.eventsOf q.task = s.eventsOf q.task := by
  obtain ⟨x, t, reading, outcome, hx, hstage⟩ := h
  have hx' := task_final hs hx (by rw [hstage]; exact Option.some_ne_none _)
  refine ⟨⟨x, t, reading, outcome, hx', hstage⟩, ?_⟩
  rw [Sys.eventsOf, Sys.eventsOf, hx, hx']

/-- A step of the cluster that makes no reply of a decision. -/
theorem Recorded.quiet (h : Recorded d l) {a : Action} {metered : Metered}
    (hs : Cluster.step d l.metered.sys a = some metered.sys)
    (hnot : ∀ n handler durationMS, a ≠ .move n (.respond handler durationMS)) :
    Recorded d { l with metered } where
  made q hq := ((h.made q hq).final hs).1
  once := h.once
  all n x t reading outcome out hx hstage := by
    rcases step_task hs hx with hx | ⟨-, hnew⟩ | ⟨m, y, moved, rfl, -, hmove, rfl⟩
    · exact h.all n x t reading outcome out hx hstage
    · rw [hnew] at hstage
      cases hstage
    · have hends := (move_ends hmove).2
      rw [show moved.1 = _ from hstage] at hends
      obtain ⟨handler, durationMS, _, _, _, rfl, -⟩ | ⟨-, hreply | hreply⟩ := hends
      · exact absurd rfl (hnot n handler durationMS)
      · cases hreply
      · cases hreply
  sent := h.sent.trans (List.map_congr_left fun q hq => ((h.made q hq).final hs).2.symm)
  covered := h.covered

/-- The reply of a decision. -/
theorem Recorded.respond (h : Recorded d l) {n : ℕ} {handler : Handler} {durationMS : Int}
    {metered : Metered}
    (hs : Cluster.step d l.metered.sys (.move n (.respond handler durationMS)) =
      some metered.sys) :
    Recorded d
      { metered
        events := l.events.send (metered.sys.eventsOf n)
        replies := l.replies ++ [⟨n, handler, durationMS⟩] } := by
  obtain ⟨x, out, hx, -, hmove, hput⟩ := step_move hs
  obtain ⟨hnone, ⟨_, _, t, reading, outcome, heq, -, hout⟩ | ⟨hnot, -⟩⟩ := move_ends hmove
  swap
  · exact absurd rfl (hnot handler durationMS)
  cases heq
  have hx' : metered.sys.tasks n = some { x with stage := out.1 } := by
    rw [hput]
    exact Function.update_self ..
  have hmade : Made d metered.sys ⟨n, handler, durationMS⟩ :=
    ⟨{ x with stage := out.1 }, t, reading, outcome, hx', hout⟩
  have hfresh : n ∉ l.replies.map Reply.task := by
    intro hmem
    obtain ⟨q, hq, rfl⟩ := List.mem_map.mp hmem
    obtain ⟨y, _, _, _, hy, hstage⟩ := h.made q hq
    obtain rfl := Option.some.inj (hx.symm.trans hy)
    rw [hstage] at hnone
    cases hnone
  refine ⟨fun q hq => ?_, ?_, fun k y t' reading' outcome' out' hy hstage => ?_, ?_,
    h.covered.send _⟩
  · rcases List.mem_append.mp hq with hq | hq
    · exact ((h.made q hq).final hs).1
    · rw [List.mem_singleton.mp hq]
      exact hmade
  · rw [List.map_append, List.map_singleton]
    exact (List.nodup_append_comm.mp (List.nodup_cons.mpr ⟨hfresh, h.once⟩))
  · rw [List.map_append, List.mem_append]
    rcases step_task hs hy with hy | ⟨-, hnew⟩ | ⟨m, z, moved, heq, -⟩
    · exact .inl (h.all k y t' reading' outcome' out' hy hstage)
    · rw [hnew] at hstage
      cases hstage
    · cases heq
      exact .inr (List.mem_singleton.mpr rfl)
  · rw [Outbox.send, h.sent, List.map_append, List.map_singleton]
    refine congrArg (· ++ _) (List.map_congr_left fun q hq => ?_)
    exact ((h.made q hq).final hs).2.symm

theorem Recorded.step (h : Recorded d l) {act : Act} (hs : Logged.step d l act = some l') :
    Recorded d l' := by
  have hsys : ∀ {a metered}, Metered.step d l.metered a = some metered →
      Cluster.step d l.metered.sys a = some metered.sys := by
    intro a metered hrun
    rw [← Metered.step_sys, hrun, Option.map_some]
  cases step_stepped hs with
  | quiet hrun hnot => exact h.quiet (hsys hrun) hnot
  | respond hrun => exact h.respond (hsys hrun)
  | insert hevents =>
      exact ⟨h.made, h.once, h.all, (Outbox.deliver_sent hevents).trans h.sent,
        h.covered.deliver (fun _ _ => insert_columns_eq) hevents⟩

theorem recorded_of_reach {db : Database} {G : Logged → Act → Prop}
    (h : Reach (step d) G (init d db) l) : Recorded d l :=
  h.invariant (recorded_init d db) fun _ _ _ hI _ hs => hI.step hs

/-! ## The rows of a request -/

theorem Recorded.rowsOf_eq (h : Recorded d l) {i : ℕ} {q : Reply} (hq : l.replies[i]? = some q) :
    l.rowsOf q.task = l.events.storedFor i := by
  refine congrArg (List.map Prod.snd) (List.filter_congr fun p _ => ?_)
  have hi : (l.replies.map Reply.task)[i]? = some q.task := by
    rw [List.getElem?_map, hq, Option.map_some]
  have hlt : i < (l.replies.map Reply.task).length := (List.getElem?_eq_some_iff.mp hi).1
  rw [Bool.eq_iff_iff, decide_eq_true_eq, Option.any_eq_true]
  constructor
  · rintro ⟨q', hq', htask⟩
    refine ((List.getElem?_inj hlt h.once).mp ?_).symm
    rw [hi, List.getElem?_map, hq', Option.map_some, of_decide_eq_true htask]
  · rintro rfl
    exact ⟨q, hq, decide_eq_true rfl⟩

theorem rowsOf_eq_nil {n : ℕ} (h : n ∉ l.replies.map Reply.task) : l.rowsOf n = [] := by
  refine List.map_eq_nil_iff.mpr (List.filter_eq_nil_iff.mpr fun p _ hp => h ?_)
  obtain ⟨q, hq, htask⟩ := (Option.any_eq_true _ _).mp hp
  exact List.mem_map.mpr ⟨q, List.mem_of_getElem? hq, of_decide_eq_true htask⟩

/-- The row that the reply of a decision may leave. -/
def rowOf (q : Reply) (x : Task) (t : Ticket) (r : Result) : Option RequestEvent :=
  (recordedStatus q.handler r).bind fun status =>
    columns (eventOf x.request t.id (policyName t.policy) r q.durationMS status)

/-- What the events of a reply come to. -/
theorem columns_events {s : Sys} {q : Reply} {x : Task} {t : Ticket} {reading : ℚ}
    {outcome : Outcome} (hx : s.tasks q.task = some x)
    (hstage : x.stage = .served t reading outcome
      (reply (d.server x.inst) x.request t outcome q.handler q.durationMS)) :
    (s.eventsOf q.task).filterMap columns =
      (outcome.toOption.bind (rowOf q x t)).toList := by
  have hevents : s.eventsOf q.task =
      (reply (d.server x.inst) x.request t outcome q.handler q.durationMS).events := by
    rw [Sys.eventsOf, hx, Option.bind_some, hstage]
    rfl
  rw [hevents]
  cases outcome with
  | error e =>
      rw [reply_events_error]
      rfl
  | ok r =>
      rw [reply_events_ok]
      show _ = (rowOf q x t r).toList
      unfold rowOf
      cases recordedStatus q.handler r with
      | none => rfl
      | some status =>
          generalize hevent : eventOf x.request t.id (policyName t.policy) r q.durationMS = event
          show [event status].filterMap columns = (columns (event status)).toList
          rw [List.filterMap_cons, List.filterMap_nil]
          cases columns (event status) <;> rfl

/-- **The table is true.** In every state of every run, whatever the instances do at the same
time and whichever inserts are late or fail: every row is of one request, a request has at most
one, and that is its event, as it was identified, limited and answered. -/
theorem rows_true {db : Database} (h : Reach (step d) Any (init d db) l) :
    (∀ p ∈ l.events.stored, ∃ n, p.2 ∈ l.rowsOf n) ∧
    ∀ n, l.rowsOf n = [] ∨ ∃ x t reading r handler durationMS status row,
      l.metered.sys.tasks n = some x ∧
      x.stage = .served t reading (.ok r)
        (reply (d.server x.inst) x.request t (.ok r) handler durationMS) ∧
      recordedStatus handler r = some status ∧ l.rowsOf n = [row] ∧
      columns (eventOf x.request t.id (policyName t.policy) r durationMS status) =
        some row.event := by
  have hrec := recorded_of_reach h
  constructor
  · intro p hp
    have hlt := hrec.covered.lt_length hp
    rw [hrec.sent, List.length_map] at hlt
    refine ⟨l.replies[p.1].task, List.mem_map.mpr ⟨p, List.mem_filter.mpr ⟨hp, ?_⟩, rfl⟩⟩
    rw [List.getElem?_eq_getElem hlt, Option.any_some]
    exact decide_eq_true rfl
  · intro n
    by_cases hn : n ∈ l.replies.map Reply.task
    swap
    · exact .inl (rowsOf_eq_nil hn)
    obtain ⟨q, hq, rfl⟩ := List.mem_map.mp hn
    obtain ⟨i, hi⟩ := List.mem_iff_getElem?.mp hq
    obtain ⟨x, t, reading, outcome, hx, hstage⟩ := hrec.made q hq
    have hrows := hrec.covered.of_request i
    rw [hrec.sent, List.getElem?_map, hi, Option.map_some, Option.getD_some,
      columns_events hx hstage, ← hrec.rowsOf_eq hi] at hrows
    rcases Outbox.eq_of_subperm_toList hrows with hnil | ⟨event, hevent, hone⟩
    · exact .inl (List.map_eq_nil_iff.mp hnil)
    · obtain ⟨r, hr, hrow⟩ := Option.bind_eq_some_iff.mp hevent
      obtain ⟨status, hstatus, hcolumns⟩ := Option.bind_eq_some_iff.mp hrow
      obtain ⟨row, hrowOf, rfl⟩ := List.map_eq_singleton_iff.mp hone
      cases outcome with
      | error e => cases hr
      | ok r' =>
          obtain rfl := Option.some.inj hr
          exact .inr ⟨x, t, reading, r', q.handler, q.durationMS, status, row, hx, hstage,
            hstatus, hrowOf, hcolumns⟩

/-! ## Rows and counters -/

theorem step_metered {act : Act} (hs : step d l act = some l') :
    l'.metered = l.metered ∨ ∃ a, Metered.step d l.metered a = some l'.metered := by
  cases step_stepped hs with
  | quiet hrun hnot => exact .inr ⟨_, hrun⟩
  | respond hrun => exact .inr ⟨_, hrun⟩
  | insert hevents => exact .inl rfl

theorem tallied_of_reach {db : Database} {G : Logged → Act → Prop}
    (h : Reach (step d) G (init d db) l) : Metered.Tallied d l.metered := by
  refine h.invariant (I := fun l => Metered.Tallied d l.metered) (Metered.tallied_init d db)
    fun l l' act hI _ hs => ?_
  rcases step_metered hs with heq | ⟨a, ha⟩
  · rwa [heq]
  · exact hI.step ha

theorem conforming_of_reach {db : Database} (hdb : db.Conforms) {G : Logged → Act → Prop}
    (h : Reach (step d) G (init d db) l) : Conforming l.metered.sys := by
  refine h.invariant (I := fun l => Conforming l.metered.sys) ⟨hdb, fun n x hx => by cases hx⟩
    fun l l' act hI _ hs => ?_
  rcases step_metered hs with heq | ⟨a, ha⟩
  · rwa [heq]
  · exact hI.step (by rw [← Metered.step_sys, ha, Option.map_some])

/-- Nothing sent is lost. -/
theorem accounted_of_reach {db : Database} (h : Reach (step d) Lossless (init d db) l) :
    l.events.Accounted columns StoredEvent.event := by
  refine h.invariant (I := fun l => l.events.Accounted columns StoredEvent.event)
    Outbox.accounted_empty fun l l' act hI hG hs => ?_
  cases step_stepped hs with
  | quiet hrun hnot => exact hI
  | respond hrun => exact hI.send _
  | @insert k id fails events hevents =>
      cases fails with
      | true => cases hG
      | false => exact hI.deliver (insert_columns id l.metered.sys.now) hevents

/-- A reply whose event can be stored leaves it, and no other does. -/
theorem rowOf_of_recordable {x : Task} {t : Ticket} {q : Reply} {r : Result}
    (htexts : x.stage.Texts x.request) (ht : x.stage.ticket = some t)
    (hrec : Recordable (q.attempt x.request r) r) :
    ∃ event, rowOf q x t r = some event ∧ event.allowed = r.allowed := by
  obtain ⟨htype, -, hvalue⟩ := htexts.identity t.id (id_of_ticket ht)
  obtain ⟨status, hstatus, hfits⟩ :=
    (recordable_iff_fits (a := q.attempt x.request r) htype (htexts.policy t ht) hvalue).mp hrec
  obtain ⟨event, hevent, hallowed⟩ := columns_of_fits hfits
  exact ⟨event, Option.bind_eq_some_iff.mpr ⟨status, hstatus, hevent⟩, hallowed⟩

theorem recordable_of_rowOf {x : Task} {t : Ticket} {q : Reply} {r : Result}
    (htexts : x.stage.Texts x.request) (ht : x.stage.ticket = some t) {event : RequestEvent}
    (hrow : rowOf q x t r = some event) : Recordable (q.attempt x.request r) r := by
  obtain ⟨htype, -, hvalue⟩ := htexts.identity t.id (id_of_ticket ht)
  obtain ⟨status, hstatus, hevent⟩ := Option.bind_eq_some_iff.mp hrow
  refine (recordable_iff_fits (a := q.attempt x.request r) htype (htexts.policy t ht) hvalue).mpr
    ⟨status, hstatus, ?_⟩
  by_contra hnot
  exact absurd (hevent.symm.trans (columns_of_not_fits hnot)) (Option.some_ne_none _)

theorem Recorded.stage (h : Recorded d l) {q : Reply} (hq : q ∈ l.replies) {x : Task}
    (hx : l.metered.sys.tasks q.task = some x) :
    ∃ t reading outcome, x.stage = .served t reading outcome
      (reply (d.server x.inst) x.request t outcome q.handler q.durationMS) := by
  obtain ⟨y, t, reading, outcome, hy, hstage⟩ := h.made q hq
  obtain rfl := Option.some.inj (hx.symm.trans hy)
  exact ⟨t, reading, outcome, hstage⟩

theorem served_of_decision {stage : Stage} {r : Result} (h : stage.decision = some r) :
    ∃ t reading out, stage = .served t reading (.ok r) out := by
  cases stage with
  | served t reading outcome out =>
      cases outcome with
      | error e => cases h
      | ok r' =>
          obtain rfl := Option.some.inj h
          exact ⟨t, reading, out, rfl⟩
  | _ => cases h

/-- A request that is decided has its reply among those made. -/
theorem Recorded.decided (h : Recorded d l) {n : ℕ} {x : Task}
    (hx : l.metered.sys.tasks n = some x) {r : Result} (hr : x.stage.decision = some r) :
    ∃ q ∈ l.replies, q.task = n := by
  obtain ⟨t, reading, out, hstage⟩ := served_of_decision hr
  exact List.mem_map.mp (h.all n x t reading _ out hx hstage)

theorem Recorded.decision (h : Recorded d l) {q : Reply} (hq : q ∈ l.replies) {x : Task}
    (hx : l.metered.sys.tasks q.task = some x) {r : Result} (hr : x.stage.decision = some r) :
    ∃ t reading, x.stage.ticket = some t ∧ x.stage = .served t reading (.ok r)
      (reply (d.server x.inst) x.request t (.ok r) q.handler q.durationMS) := by
  obtain ⟨t, reading, outcome, hstage⟩ := h.stage hq hx
  obtain ⟨t', reading', out, hstage'⟩ := served_of_decision hr
  obtain ⟨rfl, rfl, rfl, -⟩ := Stage.served.inj (hstage.symm.trans hstage')
  exact ⟨t, reading, by rw [hstage]; rfl, hstage⟩

/-- What a reply has left when no insert waits and none was lost. -/
theorem Recorded.rowsOf_perm (h : Recorded d l)
    (hacc : l.events.Accounted columns StoredEvent.event) (hdone : l.events.inFlight = [])
    {q : Reply} (hq : q ∈ l.replies) {x : Task} {t : Ticket} {reading : ℚ} {outcome : Outcome}
    (hx : l.metered.sys.tasks q.task = some x)
    (hstage : x.stage = .served t reading outcome
      (reply (d.server x.inst) x.request t outcome q.handler q.durationMS)) :
    ((l.rowsOf q.task).map StoredEvent.event).Perm
      (outcome.toOption.bind (rowOf q x t)).toList := by
  obtain ⟨i, hi⟩ := List.mem_iff_getElem?.mp hq
  have hrows := hacc.of_request hdone i
  rwa [h.sent, List.getElem?_map, hi, Option.map_some, Option.getD_some,
    columns_events hx hstage, ← h.rowsOf_eq hi] at hrows

/-- A fate that comes with a decision. -/
theorem served_of_fate {stage : Stage} (h : stage.fate = .allowed ∨ stage.fate = .rejected) :
    ∃ t reading r out, stage = .served t reading (.ok r) out := by
  cases stage with
  | served t reading outcome out =>
      cases outcome with
      | ok r => exact ⟨t, reading, r, out, rfl⟩
      | error e => cases e <;> rcases h with h | h <;> cases h
  | _ => rcases h with h | h <;> cases h

/-- Rows of a kind that every reply of one fate leaves one of, and no other reply any. -/
theorem Recorded.countP_rows (h : Recorded d l) (htallied : Metered.Tallied d l.metered)
    (hacc : l.events.Accounted columns StoredEvent.event) (hdone : l.events.inFlight = [])
    {fate : Fate} (hfate : fate = .allowed ∨ fate = .rejected) {p : RequestEvent → Bool}
    (hcount : ∀ q ∈ l.replies, ∀ x, l.metered.sys.tasks q.task = some x →
      ((l.metered.sys.eventsOf q.task).filterMap columns).countP p =
        if x.stage.fate = fate then 1 else 0) :
    l.events.stored.countP (fun row => p row.2.event) = (l.metered.arrived.filter fun n =>
      (l.metered.sys.tasks n).any fun x => x.stage.fate = fate).card := by
  let weight (n : ℕ) : ℕ :=
    if (l.metered.sys.tasks n).any fun x => x.stage.fate = fate then 1 else 0
  have hone : ∀ q ∈ l.replies,
      ((l.metered.sys.eventsOf q.task).filterMap columns).countP p = weight q.task := by
    intro q hq
    obtain ⟨x, -, -, -, hx, -⟩ := h.made q hq
    rw [hcount q hq x hx]
    simp [weight, hx]
  have harrived : (l.replies.map Reply.task).toFinset ⊆ l.metered.arrived := by
    intro n hn
    obtain ⟨q, hq, rfl⟩ := List.mem_map.mp (List.mem_toFinset.mp hn)
    obtain ⟨x, -, -, -, hx, -⟩ := h.made q hq
    rw [htallied.arrived, hx]
    rfl
  -- a request without a reply has come to neither fate
  have hrest : ∀ n ∈ l.metered.arrived, n ∉ (l.replies.map Reply.task).toFinset →
      weight n = 0 := by
    intro n _ hn
    refine if_neg fun hany => hn (List.mem_toFinset.mpr ?_)
    obtain ⟨x, hx, hx'⟩ := (Option.any_eq_true _ _).mp hany
    obtain ⟨t, reading, r, out, hstage⟩ :=
      served_of_fate (by rwa [of_decide_eq_true hx'] : x.stage.fate = .allowed ∨ _)
    exact h.all n x t reading (.ok r) out hx hstage
  calc l.events.stored.countP (fun row => p row.2.event)
      = (l.events.sent.flatten.filterMap columns).countP p := by
        rw [← (hacc.total hdone).countP_eq, List.countP_map]
        rfl
    _ = ((l.replies.map Reply.task).map weight).sum := by
        rw [h.sent, List.flatten_eq_flatMap, List.flatMap_map, List.filterMap_flatMap,
          List.countP_flatMap, List.map_map]
        exact congrArg List.sum (List.map_congr_left hone)
    _ = ∑ n ∈ (l.replies.map Reply.task).toFinset, weight n :=
        (List.sum_toFinset weight h.once).symm
    _ = ∑ n ∈ l.metered.arrived, weight n := Finset.sum_subset harrived hrest
    _ = _ := (Finset.card_filter ..).symm

/-- What a reply leaves counts for the fate of its request, if its event can be stored. -/
theorem countP_events {s : Sys} {q : Reply} {x : Task} {t : Ticket} {reading : ℚ}
    {outcome : Outcome} (htexts : x.stage.Texts x.request) (hx : s.tasks q.task = some x)
    (hstage : x.stage = .served t reading outcome
      (reply (d.server x.inst) x.request t outcome q.handler q.durationMS))
    (hrec : ∀ r, outcome = .ok r → Recordable (q.attempt x.request r) r) :
    ((s.eventsOf q.task).filterMap columns).countP RequestEvent.allowed =
        (if x.stage.fate = .allowed then 1 else 0) ∧
      (((s.eventsOf q.task).filterMap columns).countP fun event => !event.allowed) =
        if x.stage.fate = .rejected then 1 else 0 := by
  have ht : x.stage.ticket = some t := by
    rw [hstage]
    rfl
  rw [columns_events hx hstage]
  cases outcome with
  | error e =>
      rw [hstage]
      cases e <;> exact ⟨rfl, rfl⟩
  | ok r =>
      obtain ⟨event, hevent, hallowed⟩ := rowOf_of_recordable htexts ht (hrec r rfl)
      have hbind : (Except.toOption (.ok r : Outcome)).bind (rowOf q x t) = some event := hevent
      rw [hbind, hstage]
      cases hr : r.allowed <;> simp [Stage.fate, hr, hallowed]

/-- **When every decision is recorded**: once no insert waits and if none was lost, each decided
request of the cluster has exactly its one row, and the counters of the instances add up to the
rows, iff every decided request is recordable. -/
theorem rows_exact {db : Database} (hdb : db.Conforms)
    (h : Reach (step d) Lossless (init d db) l) (hdone : l.events.inFlight = []) :
    ((∀ n x r, l.metered.sys.tasks n = some x → x.stage.decision = some r →
        ∃ row, l.rowsOf n = [row] ∧ row.event.allowed = r.allowed) ∧
      ∀ insts : Finset ℕ, (∀ n x, l.metered.sys.tasks n = some x → x.inst ∈ insts) →
        ∑ i ∈ insts, (overview (l.metered.counters i)).allowed =
            l.events.stored.countP (fun p => p.2.event.allowed) ∧
          ∑ i ∈ insts, (overview (l.metered.counters i)).rejected =
            l.events.stored.countP fun p => !p.2.event.allowed) ↔
    ∀ q ∈ l.replies, ∀ x r, l.metered.sys.tasks q.task = some x →
      x.stage.decision = some r → Recordable (q.attempt x.request r) r := by
  have hrec := recorded_of_reach h
  have hacc := accounted_of_reach h
  have htallied := tallied_of_reach h
  have hconf := conforming_of_reach hdb h
  constructor
  · rintro ⟨hrows, -⟩ q hq x r hx hr
    obtain ⟨t, reading, ht, hstage⟩ := hrec.decision hq hx hr
    obtain ⟨row, hrow, -⟩ := hrows q.task x r hx hr
    have hperm := hrec.rowsOf_perm hacc hdone hq hx hstage
    rw [hrow, List.map_singleton, List.singleton_perm] at hperm
    exact recordable_of_rowOf (hconf.texts _ x hx) ht
      (Option.toList_eq_singleton_iff.mp hperm.symm)
  · intro hall
    have hcount : ∀ q ∈ l.replies, ∀ x, l.metered.sys.tasks q.task = some x →
        ((l.metered.sys.eventsOf q.task).filterMap columns).countP RequestEvent.allowed =
            (if x.stage.fate = .allowed then 1 else 0) ∧
          (((l.metered.sys.eventsOf q.task).filterMap columns).countP fun event =>
            !event.allowed) = if x.stage.fate = .rejected then 1 else 0 := by
      intro q hq x hx
      obtain ⟨t, reading, outcome, hstage⟩ := hrec.stage hq hx
      refine countP_events (hconf.texts _ x hx) hx hstage fun r hr => hall q hq x r hx ?_
      rw [hstage, hr]
      rfl
    refine ⟨fun n x r hx hr => ?_, fun insts hinsts => ⟨?_, ?_⟩⟩
    · obtain ⟨q, hq, rfl⟩ := hrec.decided hx hr
      obtain ⟨t, reading, ht, hstage⟩ := hrec.decision hq hx hr
      obtain ⟨event, hevent, hallowed⟩ :=
        rowOf_of_recordable (hconf.texts _ x hx) ht (hall q hq x r hx hr)
      have hperm : ((l.rowsOf q.task).map StoredEvent.event).Perm (rowOf q x t r).toList :=
        hrec.rowsOf_perm hacc hdone hq hx hstage
      rw [hevent, Option.toList_some, List.perm_singleton, List.map_eq_singleton_iff] at hperm
      obtain ⟨row, hrow, rfl⟩ := hperm
      exact ⟨row, hrow, hallowed⟩
    · simp only [htallied.overview_eq]
      rw [Metered.sum_having _ _ hinsts]
      exact (hrec.countP_rows htallied hacc hdone (.inl rfl)
        fun q hq x hx => (hcount q hq x hx).1).symm
    · simp only [htallied.overview_eq]
      rw [Metered.sum_having _ _ hinsts]
      exact (hrec.countP_rows htallied hacc hdone (.inr rfl)
        fun q hq x hx => (hcount q hq x hx).2).symm

end Recorded

/-- One request, which is allowed and recorded. -/
def recordedRequest : List Act := Metered.allowedRequest.map .run ++ [.insert 0 0 false]

theorem rows_true_recordedRequest : ∃ l,
    exec (step onRedis) (init onRedis strictProducts) recordedRequest = some l ∧
      ∃ (x : Task) (t : Ticket) (r : Result) (row : StoredEvent) (durationMS : Int) (status : ℕ),
        l.metered.sys.tasks 0 = some x ∧ l.rowsOf 0 = [row] ∧
        columns (eventOf x.request t.id (policyName t.policy) r durationMS status) =
          some row.event := by
  have hrun : ∃ l ∈ exec (step onRedis) (init onRedis strictProducts) recordedRequest,
      (l.rowsOf 0).isEmpty = false := by
    decide +kernel
  obtain ⟨l, hl, hrow⟩ := hrun
  obtain hnil | ⟨x, t, -, r, -, durationMS, status, row, hx, -, -, hone, hevent⟩ :=
    (rows_true (reach_exec .init hl)).2 0
  · rw [hnil] at hrow
    cases hrow
  · exact ⟨l, hl, x, t, r, row, durationMS, status, hx, hone, hevent⟩

theorem rows_exact_recordedRequest : ∃ l,
    exec (step onRedis) (init onRedis strictProducts) recordedRequest = some l ∧
      (∃ row, l.rowsOf 0 = [row] ∧ row.event.allowed = true) ∧
      (overview (l.metered.counters 0)).allowed =
        l.events.stored.countP fun p => p.2.event.allowed := by
  have hrun : ∃ l ∈ exec (step onRedis) (init onRedis strictProducts) recordedRequest,
      l.events.inFlight.isEmpty = true ∧
      (∃ x ∈ l.metered.sys.tasks 0, ∃ r ∈ x.stage.decision, r.allowed = true) ∧
      (∀ n ∈ l.metered.arrived, ∃ x ∈ l.metered.sys.tasks n, x.inst = 0) ∧
      ∀ q ∈ l.replies, ∃ x ∈ l.metered.sys.tasks q.task, ∃ r ∈ x.stage.decision,
        recordedStatus q.handler r = some 200 ∧ Fits 12 x.request.method ∧
          Fits 255 (routeOf x.request) ∧ Fits 255 (clientAddress x.request) ∧ Fits32 r.limit ∧
            Fits32 r.remaining ∧ Fits32 r.retryAfter ∧ Fits32 q.durationMS := by
    decide +kernel
  obtain ⟨l, hl, hempty, ⟨x, hx, r, hr, hallowed⟩, hinst, hfits⟩ := hrun
  have hreach : Reach (step onRedis) Lossless (init onRedis strictProducts) l := by
    refine Reach.init.exec (fun _ act hact => ?_) hl
    rcases List.mem_append.mp hact with hact | hact
    · obtain ⟨a, -, rfl⟩ := List.mem_map.mp hact
      trivial
    · rw [List.mem_singleton.mp hact]
      rfl
  have hexact := (rows_exact conforms_strict hreach (List.isEmpty_iff.mp hempty)).mpr
    fun q hq x r hx hr => by
      obtain ⟨x', hx', r', hr', hstatus, hmethod, hroute, haddress, hlimit, hremaining, hretry,
        hduration⟩ := hfits q hq
      obtain rfl := Option.some.inj (hx.symm.trans hx')
      obtain rfl := Option.some.inj (hr.symm.trans hr')
      refine ⟨fun hallowed => ?_, hmethod, hroute, fun _ => haddress, hlimit, hremaining, hretry,
        hduration⟩
      unfold recordedStatus at hstatus
      rw [if_pos hallowed] at hstatus
      cases hhandler : q.handler with
      | returns status =>
          rw [hhandler] at hstatus
          cases hstatus
          exact ⟨200, hhandler, by norm_num⟩
      | panics =>
          rw [hhandler] at hstatus
          cases hstatus
  obtain ⟨row, hrow, hsame⟩ := hexact.1 0 x r hx hr
  have hsum := (hexact.2 {0} fun n x hx => ?_).1
  · rw [Finset.sum_singleton] at hsum
    exact ⟨l, hl, ⟨row, hrow, hsame.trans hallowed⟩, hsum⟩
  · have harrived := ((tallied_of_reach hreach).arrived n).mpr (by rw [hx]; rfl)
    obtain ⟨x', hx', hzero⟩ := hinst n harrived
    obtain rfl := Option.some.inj (hx.symm.trans hx')
    exact Finset.mem_singleton.mpr hzero

end Logged

end Cluster

end RateX
