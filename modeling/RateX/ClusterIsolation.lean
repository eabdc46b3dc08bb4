import RateX.ClusterLimiters

/-!
# Isolation in the cluster

With Redis as the backend, a request is answered as if only the requests of its
own pair of identity and route were there: from any interleaved run the moves
of all the others can be deleted, and what is left is a run with the same
replies (`requests_isolated`), whichever instances serve them, whatever policies
they are under, wherever they stop, and while the tables change.

Two runs are compared by what a task shows (`Task.view`): the address of its
limiter may differ, for the others build limiters too.
-/

namespace RateX

namespace Cluster

open Redis Steps

/-! ## Whose a request is -/

def Stage.id : Stage → Option Identity
  | .identified id => some id
  | .chosen t => some t.id
  | .holding t _ => some t.id
  | .counted t _ _ _ _ _ => some t.id
  | .answered t _ _ => some t.id
  | .served t _ _ _ => some t.id
  | _ => none

/-- The ticket, once the request has looked everything up. -/
def Stage.ticket : Stage → Option Ticket
  | .chosen t => some t
  | .holding t _ => some t
  | .counted t _ _ _ _ _ => some t
  | .answered t _ _ => some t
  | .served t _ _ _ => some t
  | _ => none

/-- The request is identified, and of this pair. -/
def Task.isOf (p : Pair) (x : Task) : Bool :=
  x.stage.id.any fun id => id.identity = p.identity && routeOf x.request = p.route.text

/-- The request is for a route pattern of Gin. -/
def Routed (req : Request) : Prop := ∃ r : Route, routeOf req = r.text

/-- The action is not about a request of another pair, as far as `s` can tell. -/
def Sys.concerns (s : Sys) (p : Pair) : Action → Bool
  | .arrive n _ _ => (s.tasks n).any (Task.isOf p)
  | .move n _ => (s.tasks n).any (Task.isOf p)
  | _ => true

def Stage.view : Stage → Stage
  | .holding t _ => .holding t 0
  | stage => stage

def Task.view (x : Task) : Task := { x with stage := x.stage.view }

section Views

variable {stage stage' : Stage} {x y : Task} {p : Pair}

theorem view_of_ne (h : ∀ t lim, stage ≠ .holding t lim) : stage.view = stage := by
  cases stage with
  | holding t lim => exact absurd rfl (h t lim)
  | _ => rfl

theorem id_of_ticket {t : Ticket} (h : stage.ticket = some t) : stage.id = some t.id := by
  cases stage with
  | arrived => cases h
  | refused out => cases h
  | identified id => cases h
  | _ =>
      obtain rfl := Option.some.inj h
      rfl

/-- Only an address is not seen. -/
theorem eq_of_view (h : stage'.view = stage.view) (hne : ∀ t lim, stage ≠ .holding t lim) :
    stage' = stage := by
  rw [view_of_ne hne] at h
  subst h
  cases stage' with
  | holding t lim => exact absurd rfl (hne t 0)
  | _ => rfl

theorem holding_of_view {t : Ticket} {lim : Ref} (h : stage'.view = (Stage.holding t lim).view) :
    ∃ lim', stage' = .holding t lim' := by
  cases stage' with
  | holding t' lim' =>
      obtain ⟨rfl, -⟩ := Stage.holding.inj h
      exact ⟨lim', rfl⟩
  | _ => cases h

theorem isOf_iff : x.isOf p = true ↔
    ∃ id, x.stage.id = some id ∧ id.identity = p.identity ∧ routeOf x.request = p.route.text := by
  unfold Task.isOf
  cases x.stage.id <;> simp

/-- The key of a request of the pair is the pair's. -/
theorem key_of_isOf (h : x.isOf p = true) {t : Ticket} (ht : x.stage.id = some t.id) :
    t.key x.request = p.key := by
  obtain ⟨id, hid, hidentity, hroute⟩ := isOf_iff.mp h
  obtain rfl := Option.some.inj (hid.symm.trans ht)
  rw [Ticket.key, hidentity, hroute, Pair.key]

/-- An identified request that is not of the pair has the key of another. -/
theorem pair_of_not_isOf (h : x.isOf p = false) (hrouted : Routed x.request) {t : Ticket}
    (ht : x.stage.id = some t.id) : ∃ q : Pair, q ≠ p ∧ t.key x.request = q.key := by
  obtain ⟨r, hr⟩ := hrouted
  refine ⟨⟨t.id.identity, r⟩, fun hq => ?_, by rw [Ticket.key, hr, Pair.key]⟩
  have hof : x.isOf p = true := isOf_iff.mpr ⟨t.id, ht, by rw [← hq], by rw [hr, ← hq]⟩
  rw [hof] at h
  cases h

end Views

/-! ## One move -/

section Moved

variable {d : Deployment} {i : ℕ} {now : ℚ} {db : Database} {req : Request} {inst inst' : Instance}
  {store store' : Store} {stage stage' : Stage} {m : Move} {p : Pair}

/-- What a move has looked up: the identity, the route policy, or nothing. -/
theorem move_lookups {srv : Server}
    (h : move srv now db req stage m (inst, store) = some (stage', inst', store')) :
    (∃ down, stage = .arrived ∧ m = .identify down ∧
      ((∃ e, identify srv.sha256 db down now req = .error e ∧ stage' = .refused (refusal req)) ∨
        ∃ id, identify srv.sha256 db down now req = .ok id ∧ stage' = .identified id)) ∨
    (∃ id down, stage = .identified id ∧ m = .findPolicy down ∧ stage' = .chosen ⟨id,
      (if down then none else db.enabledRoute (toUpper req.method) (routeOf req)).or id.policy⟩) ∨
    ∃ t, stage.ticket = some t ∧ stage'.ticket = some t := by
  cases stage with
  | arrived =>
      cases m with
      | identify down =>
          simp only [move] at h
          split at h
          · rename_i id hid
            cases h
            exact .inl ⟨down, rfl, rfl, .inr ⟨id, hid, rfl⟩⟩
          · rename_i e hid
            cases h
            exact .inl ⟨down, rfl, rfl, .inl ⟨e, hid, rfl⟩⟩
      | _ => cases h
  | identified id =>
      cases m with
      | findPolicy down =>
          cases h
          exact .inr (.inl ⟨id, down, rfl, rfl, by cases down <;> rfl⟩)
      | _ => cases h
  | chosen t =>
      cases m with
      | fromPolicy late =>
          obtain ⟨id, policy⟩ := t
          cases policy <;> cases h <;> exact .inr (.inr ⟨_, rfl, rfl⟩)
      | _ => cases h
  | holding t lim =>
      cases m with
      | allow net reading member =>
          simp only [move] at h
          split at h
          · generalize call net now reading member (t.key req) _ = out at h
            obtain ⟨reached, l, store''⟩ := out
            cases h
            cases reached <;> exact .inr (.inr ⟨t, rfl, rfl⟩)
          · cases h
            exact .inr (.inr ⟨t, rfl, rfl⟩)
      | _ => cases h
  | counted t reading l next redisKey count =>
      cases next with
      | expire =>
          cases m with
          | expire net =>
              simp only [move] at h
              generalize send net store now redisKey (l.expire now) = out at h
              obtain ⟨reply, store''⟩ := out
              cases h
              cases reply <;> exact .inr (.inr ⟨t, rfl, rfl⟩)
          | _ => cases h
      | ttl =>
          cases m with
          | ttl net =>
              cases h
              exact .inr (.inr ⟨t, rfl, rfl⟩)
          | _ => cases h
  | answered t reading outcome =>
      cases m with
      | respond handler durationMS =>
          cases h
          exact .inr (.inr ⟨t, rfl, rfl⟩)
      | _ => cases h
  | _ => cases m <;> cases h

/-- Once identified, a request stays who it is. -/
theorem move_id {srv : Server}
    (h : move srv now db req stage m (inst, store) = some (stage', inst', store')) {id : Identity}
    (hid : stage.id = some id) : stage'.id = some id := by
  rcases move_lookups h with ⟨-, rfl, -⟩ | ⟨id', -, rfl, -, rfl⟩ | ⟨t, ht, ht'⟩
  · cases hid
  · exact hid
  · rw [id_of_ticket ht']
    rwa [id_of_ticket ht] at hid

/-- A move of another pair's request leaves the pair's keys alone. -/
theorem Moved.frame (hredis : d.OnRedis) (hfits : stage.Fits (d.server i) req inst.heap)
    (hother : ∀ t : Ticket, stage.id = some t.id → ∃ q : Pair, q ≠ p ∧ t.key req = q.key)
    (h : Moved (d.server i) now db req inst store stage m (stage', inst', store'))
    {l : RateLimiter} (hl : OfRedis l) (w : ℤ) :
    store' (storeKey l p.key w) = store (storeKey l p.key w) := by
  cases h with
  | @called t lim net reading member reached l' _ hcall =>
      obtain ⟨q, hne, hkey⟩ := hother t rfl
      have hlim := ofRedis_limiter hredis i ((d.server i).orDefault t.policy)
      obtain ⟨w', op, hlocal, hop, -⟩ := call_local hlim net now reading member (t.key req)
      rw [hop] at hcall
      obtain rfl := congrArg (fun out => out.2.2) hcall
      rw [hkey] at hlocal
      exact hlocal.frame store fun heq => hne (pair_of_storeKey hl hlim heq).symm
  | @expired t reading l' redisKey count net reply _ hsend =>
      obtain ⟨q, hne, hkey⟩ := hother t rfl
      obtain ⟨hlim, w', rfl⟩ := hfits
      have hof : OfRedis (.fixed l') := hlim ▸ ofRedis_limiter hredis i _
      obtain rfl := congrArg Prod.snd hsend
      rw [hkey]
      exact (send_local net now (storeKey (.fixed l') q.key w') (l'.expire now)).frame store
        fun heq => hne (pair_of_storeKey hl hof heq).symm
  | _ => rfl

/-- In an instance and a store that agree on what the pair's request can see,
its move comes to the same. -/
theorem Moved.agree (hredis : d.OnRedis) (hfits : stage.Fits (d.server i) req inst.heap)
    (hkey : ∀ t : Ticket, stage.id = some t.id → t.key req = p.key)
    (h : Moved (d.server i) now db req inst store stage m (stage', inst', store'))
    {stage₂ : Stage} {inst₂ : Instance} {store₂ : Store} (hview : stage₂.view = stage.view)
    (hfits₂ : stage₂.Fits (d.server i) req inst₂.heap)
    (hstore : ∀ l w, OfRedis l → store (storeKey l p.key w) = store₂ (storeKey l p.key w)) :
    ∃ stage₂' inst₂' store₂', move (d.server i) now db req stage₂ m (inst₂, store₂) =
        some (stage₂', inst₂', store₂') ∧ stage₂'.view = stage'.view ∧
      ∀ l w, OfRedis l → store' (storeKey l p.key w) = store₂' (storeKey l p.key w) := by
  -- a local operation on one of the pair's keys
  have hop : ∀ {α : Type} {l : RateLimiter} {w : ℤ} {op : Store → α × Store},
      Local (storeKey l p.key w) op → OfRedis l → (op store).1 = (op store₂).1 ∧
        ∀ l' w', OfRedis l' →
          (op store).2 (storeKey l' p.key w') = (op store₂).2 (storeKey l' p.key w') := by
    intro α l w op hlocal hl
    obtain ⟨hout, hnext⟩ := hlocal.congr (hstore l w hl)
    refine ⟨hout, fun l' w' hl' => ?_⟩
    by_cases hsame : storeKey l' p.key w' = storeKey l p.key w
    · rw [hsame]
      exact hnext
    · rw [hlocal.frame _ hsame, hlocal.frame _ hsame]
      exact hstore l' w' hl'
  cases h with
  | refused hid =>
      obtain rfl := eq_of_view hview (by simp)
      exact ⟨_, inst₂, store₂, by simp only [move, hid], rfl, hstore⟩
  | identified hid =>
      obtain rfl := eq_of_view hview (by simp)
      exact ⟨_, inst₂, store₂, by simp only [move, hid], rfl, hstore⟩
  | @chosen id down found hfound =>
      obtain rfl := eq_of_view hview (by simp)
      refine ⟨_, _, _, rfl, ?_, hstore⟩
      rw [hfound]
      cases down <;> rfl
  | @holding t late lim _ hlim hwired hle =>
      obtain rfl := eq_of_view hview (by simp)
      obtain ⟨id, policy⟩ := t
      cases policy with
      | some policy => exact ⟨_, _, _, rfl, rfl, hstore⟩
      | none => exact ⟨_, _, _, rfl, rfl, hstore⟩
  | @called t lim net reading member reached l _ hcall =>
      obtain ⟨lim₂, rfl⟩ := holding_of_view hview
      have hlim := ofRedis_limiter hredis i ((d.server i).orDefault t.policy)
      obtain ⟨w, op, hlocal, hcalls, -⟩ := call_local hlim net now reading member (t.key req)
      rw [hcalls] at hcall
      obtain ⟨rfl, -, rfl⟩ := hcall
      rw [hkey t rfl] at hlocal
      obtain ⟨hout, hnext⟩ := hop hlocal hlim
      have hlim₂ : inst₂.heap[lim₂]? = _ := hfits₂
      refine ⟨(op store₂).1.stage t reading, { inst₂ with heap := inst₂.heap.set lim₂ _ },
        (op store₂).2, by rw [move_allow hlim₂, hcalls], ?_, hnext⟩
      rw [hout]
  | @expired t reading l redisKey count net reply _ hsend =>
      obtain rfl := eq_of_view hview (by simp)
      obtain ⟨hlim, w, rfl⟩ := hfits
      have hof : OfRedis (.fixed l) := hlim ▸ ofRedis_limiter hredis i _
      have hlocal := send_local net now (storeKey (.fixed l) p.key w) (l.expire now)
      obtain ⟨hout, hnext⟩ := hop hlocal hof
      rw [hkey t rfl] at hsend ⊢
      obtain ⟨rfl, rfl⟩ := Prod.ext_iff.mp hsend
      exact ⟨_, inst₂, (send net store₂ now (l.redisKey p.key w) (l.expire now)).2, rfl,
        congrArg (fun reply => (Stage.ofExpire t reading l _ count reply).view) hout.symm, hnext⟩
  | @returned t reading l redisKey count net =>
      obtain rfl := eq_of_view hview (by simp)
      obtain ⟨hlim, w, rfl⟩ := hfits
      have hof : OfRedis (.fixed l) := hlim ▸ ofRedis_limiter hredis i _
      have hslot : store (l.redisKey p.key w) = store₂ (l.redisKey p.key w) :=
        hstore (.fixed l) w hof
      rw [hkey t rfl, hslot]
      exact ⟨_, _, _, rfl, rfl, hstore⟩
  | replied =>
      obtain rfl := eq_of_view hview (by simp)
      exact ⟨_, _, _, rfl, rfl, hstore⟩

end Moved

/-! ## Two runs -/

/-- The tasks `mine` are those that are, or may come to be, of the pair. -/
structure Sorted (p : Pair) (mine : ℕ → Bool) (s : Sys) : Prop where
  routed : ∀ n x, s.tasks n = some x → Routed x.request
  own : ∀ n x, s.tasks n = some x → mine n = true → ∀ id, x.stage.id = some id → x.isOf p = true
  other : ∀ n x, s.tasks n = some x → mine n = false → x.isOf p = false

/-- `t` has the tasks `mine` only, and agrees with `s` on all they can see. -/
structure Alike (d : Deployment) (p : Pair) (mine : ℕ → Bool) (s t : Sys) : Prop where
  now : t.now = s.now
  db : t.db = s.db
  drawn : ∀ member ∈ t.drawn, member ∈ s.drawn
  ready : Ready d s
  ready' : Ready d t
  store : ∀ l w, OfRedis l → s.store (storeKey l p.key w) = t.store (storeKey l p.key w)
  own : ∀ n, mine n = true → (t.tasks n).map Task.view = (s.tasks n).map Task.view
  other : ∀ n, mine n = false → t.tasks n = none

section Runs

variable {d : Deployment} {p : Pair} {mine : ℕ → Bool} {s s' t : Sys} {a : Action} {n : ℕ}

/-- A task is never given up, nor taken for another. -/
theorem task_persists (hs : step d s a = some s') {x : Task} (hx : s.tasks n = some x) :
    ∃ x', s'.tasks n = some x' ∧ x'.request = x.request ∧
      ∀ id, x.stage.id = some id → x'.stage.id = some id := by
  cases step_stepped hs with
  | tick hle => exact ⟨x, hx, rfl, fun _ h => h⟩
  | admin => exact ⟨x, hx, rfl, fun _ h => h⟩
  | @arrive k i req hfree =>
      have hne : n ≠ k := fun heq => by
        rw [← heq, hx] at hfree
        cases hfree
      exact ⟨x, (Function.update_of_ne hne ..).trans hx, rfl, fun _ h => h⟩
  | @move k m y out hy hmember hout =>
      obtain ⟨stage, inst, store⟩ := out
      by_cases hn : n = k
      · subst hn
        obtain rfl := Option.some.inj (hx.symm.trans hy)
        exact ⟨{ x with stage }, Function.update_self .., rfl, fun id hid => move_id hout hid⟩
      · exact ⟨x, (Function.update_of_ne hn ..).trans hx, rfl, fun _ h => h⟩

theorem Sorted.back (hs : step d s a = some s') (h : Sorted p mine s') : Sorted p mine s := by
  have hisOf : ∀ {x x' : Task}, x'.request = x.request →
      (∀ id, x.stage.id = some id → x'.stage.id = some id) → x.isOf p = true →
        x'.isOf p = true := by
    intro x x' hreq hid hof
    obtain ⟨id, hx, hrest⟩ := isOf_iff.mp hof
    exact isOf_iff.mpr ⟨id, hid id hx, by rwa [hreq]⟩
  refine ⟨fun n x hx => ?_, fun n x hx hmine id hid => ?_, fun n x hx hmine => ?_⟩
  · obtain ⟨x', hx', hreq, -⟩ := task_persists hs hx
    exact hreq ▸ h.routed n x' hx'
  · obtain ⟨x', hx', hreq, hids⟩ := task_persists hs hx
    obtain ⟨id', hid', hrest⟩ := isOf_iff.mp (h.own n x' hx' hmine id (hids id hid))
    obtain rfl := Option.some.inj ((hids id hid).symm.trans hid')
    exact isOf_iff.mpr ⟨id, hid, by rwa [← hreq]⟩
  · obtain ⟨x', hx', hreq, hids⟩ := task_persists hs hx
    by_contra hof
    have hof' := hisOf hreq hids (Bool.not_eq_false _ ▸ hof)
    rw [h.other n x' hx' hmine] at hof'
    cases hof'

/-- A task of the pair moves in both systems alike. -/
theorem Alike.own_move (hredis : d.OnRedis) (h : Alike d p mine s t) (hsorted : Sorted p mine s)
    {m : Move} (hmine : mine n = true) (hs : step d s (.move n m) = some s') :
    ∃ t', step d t (.move n m) = some t' ∧ Alike d p mine s' t' := by
  obtain ⟨x, ⟨stage', inst', store'⟩, hx, hmember, hmoved, rfl, hready⟩ := h.ready.move hredis hs
  have hview := h.own n hmine
  rw [hx, Option.map_some] at hview
  obtain ⟨⟨i, req, stage₂⟩, hy, hview⟩ := Option.map_eq_some_iff.mp hview
  obtain ⟨i, req, stage⟩ := x
  obtain ⟨rfl, rfl, hview⟩ := Task.mk.inj hview
  have hkey : ∀ t : Ticket, stage.id = some t.id → t.key req = p.key := fun t ht =>
    key_of_isOf (hsorted.own n _ hx hmine t.id ht) ht
  obtain ⟨stage₂', inst₂', store₂', hmove₂, hview', hstore'⟩ := hmoved.agree hredis
    (h.ready.fits n _ hx) hkey hview (h.ready'.fits n _ hy) h.store
  have hfree : ¬ (m.member.any (· ∈ t.drawn)) = true := by
    cases hm : m.member with
    | none => simp
    | some member => simpa using fun hin => hmember member hm (h.drawn member hin)
  have hstep : step d t (.move n m) =
      some (t.put n ⟨i, req, stage₂⟩ m (stage₂', inst₂', store₂')) := by
    simp only [step, hy, if_neg hfree, h.now, h.db, hmove₂, Option.map_some]
  refine ⟨_, hstep, h.now, h.db, fun member hin => ?_, hready, ready_step hredis h.ready' hstep,
    hstore', fun n' hn' => ?_, fun n' hn' => ?_⟩
  · rcases List.mem_append.mp hin with hin | hin
    · exact List.mem_append_left _ hin
    · exact List.mem_append_right _ (h.drawn member hin)
  · simp only [Sys.put]
    by_cases hn : n' = n
    · rw [hn, Function.update_self, Function.update_self, Option.map_some, Option.map_some]
      exact congrArg some (congrArg (Task.mk i req) hview')
    · rw [Function.update_of_ne hn, Function.update_of_ne hn]
      exact h.own n' hn'
  · have hn : n' ≠ n := ne_of_apply_ne mine (by simp [hn', hmine])
    simp only [Sys.put, Function.update_of_ne hn]
    exact h.other n' hn'

/-- A task of another pair moves unseen. -/
theorem Alike.other_move (hredis : d.OnRedis) (h : Alike d p mine s t) (hsorted : Sorted p mine s)
    {m : Move} (hmine : mine n = false) (hs : step d s (.move n m) = some s') :
    Alike d p mine s' t := by
  obtain ⟨x, ⟨stage', inst', store'⟩, hx, -, hmoved, rfl, hready⟩ := h.ready.move hredis hs
  refine ⟨h.now, h.db, fun member hin => List.mem_append_right _ (h.drawn member hin), hready,
    h.ready', fun l w hl => ?_, fun n' hn' => ?_, h.other⟩
  · have hother : ∀ t : Ticket, x.stage.id = some t.id →
        ∃ q : Pair, q ≠ p ∧ t.key x.request = q.key := fun t ht =>
      pair_of_not_isOf (hsorted.other n x hx hmine) (hsorted.routed n x hx) ht
    exact (hmoved.frame hredis (h.ready.fits n x hx) hother hl w).trans (h.store l w hl)
  · have hn : n' ≠ n := ne_of_apply_ne mine (by simp [hn', hmine])
    simp only [Sys.put, Function.update_of_ne hn]
    exact h.own n' hn'

/-- A new task has nobody yet. -/
theorem Alike.arrive (hredis : d.OnRedis) (h : Alike d p mine s t) {i : ℕ} {req : Request}
    (hs : step d s (.arrive n i req) = some s') :
    (mine n = true → ∃ t', step d t (.arrive n i req) = some t' ∧ Alike d p mine s' t') ∧
      (mine n = false → Alike d p mine s' t) := by
  have hready := ready_step hredis h.ready hs
  cases step_stepped hs with
  | arrive hnone =>
      constructor
      · intro hmine
        have hfree : t.tasks n = none := by
          have hown := h.own n hmine
          rw [hnone, Option.map_none] at hown
          exact Option.map_eq_none_iff.mp hown
        have hstep : step d t (.arrive n i req) =
            some { t with tasks := Function.update t.tasks n (some ⟨i, req, .arrived⟩) } := by
          simp only [step, hfree]
        refine ⟨_, hstep, h.now, h.db, h.drawn, hready, ready_step hredis h.ready' hstep, h.store,
          fun n' hn' => ?_, fun n' hn' => ?_⟩
        · by_cases hn : n' = n
          · simp only [hn, Function.update_self]
          · simp only [Function.update_of_ne hn]
            exact h.own n' hn'
        · have hn : n' ≠ n := ne_of_apply_ne mine (by simp [hn', hmine])
          simp only [Function.update_of_ne hn]
          exact h.other n' hn'
      · intro hmine
        refine ⟨h.now, h.db, h.drawn, hready, h.ready', h.store, fun n' hn' => ?_, h.other⟩
        have hn : n' ≠ n := ne_of_apply_ne mine (by simp [hn', hmine])
        simp only [Function.update_of_ne hn]
        exact h.own n' hn'

/-- Time and the tables are the same for everyone. -/
theorem Alike.tick (h : Alike d p mine s t) {now : ℚ} (hs : step d s (.tick now) = some s') :
    ∃ t', step d t (.tick now) = some t' ∧ Alike d p mine s' t' := by
  cases step_stepped hs with
  | tick hle =>
      exact ⟨{ t with now }, by simp only [step, h.now, if_pos hle], rfl, h.db, h.drawn,
        ⟨h.ready.wired, h.ready.fits⟩, ⟨h.ready'.wired, h.ready'.fits⟩, h.store, h.own, h.other⟩

theorem Alike.admin (h : Alike d p mine s t) {c : AdminCall}
    (hs : step d s (.admin c) = some s') :
    ∃ t', step d t (.admin c) = some t' ∧ Alike d p mine s' t' := by
  obtain rfl := Option.some.inj hs
  refine ⟨_, rfl, h.now, ?_, h.drawn, ⟨h.ready.wired, h.ready.fits⟩,
    ⟨h.ready'.wired, h.ready'.fits⟩, h.store, h.own, h.other⟩
  simp only [h.now, h.db]

/-- What the requests of a run are for, its tasks are for. -/
theorem routed_of_exec {run : List Action} {db : Database}
    (hroutes : ∀ n i req, .arrive n i req ∈ run → Routed req)
    (hs : exec (step d) (Sys.init d db) run = some s) {x : Task} (hx : s.tasks n = some x) :
    Routed x.request := by
  let guard : Sys → Action → Prop := fun _ a => ∀ n i req, a = .arrive n i req → Routed req
  have hreach : Reach (step d) guard (Sys.init d db) s := by
    refine Reach.init.exec (fun _ a ha n i req heq => ?_) hs
    rw [heq] at ha
    exact hroutes n i req ha
  refine hreach.invariant (I := fun s => ∀ n x, s.tasks n = some x → Routed x.request)
    (fun n x h => ?_) (fun s s' a ih hguard hs => ?_) n x hx
  · cases h
  · cases step_stepped hs with
    | tick hle => exact ih
    | admin => exact ih
    | arrive hfree => exact forall_tasks ih (hguard _ _ _ rfl)
    | @move n m x out hx => exact forall_tasks ih (ih n x hx)

/-- **Isolation in the cluster.** On Redis, the requests of all other pairs can
be deleted from a run: what is left is a run in which every request of the pair
has the same identity and policy, the same outcome and the same reply. -/
theorem requests_isolated (d : Deployment) (hredis : d.OnRedis) (db : Database) (p : Pair)
    {run : List Action} (hroutes : ∀ n i req, .arrive n i req ∈ run → Routed req)
    {s : Sys} (hs : exec (step d) (Sys.init d db) run = some s) :
    ∃ t, exec (step d) (Sys.init d db) (run.filter (s.concerns p)) = some t ∧
      ∀ n x, s.tasks n = some x → x.isOf p = true →
        (t.tasks n).map Task.view = some x.view := by
  let mine : ℕ → Bool := fun n => (s.tasks n).any (Task.isOf p)
  have hmine : ∀ {n x}, s.tasks n = some x → mine n = x.isOf p := by
    intro n x hx
    simp only [mine, hx, Option.any_some]
  have hsorted : Sorted p mine s := by
    refine ⟨fun n x hx => routed_of_exec hroutes hs hx, fun n x hx h id _ => ?_,
      fun n x hx h => ?_⟩
    · rw [← hmine hx]
      exact h
    · rw [← hmine hx]
      exact h
  have hstart : Alike d p mine (Sys.init d db) (Sys.init d db) :=
    ⟨rfl, rfl, fun _ h => h, ready_init d db, ready_init d db, fun _ _ _ => rfl, fun _ _ => rfl,
      fun _ _ => rfl⟩
  have hin : ∀ u u' t a, s.concerns p a = true → Sorted p mine u' → Alike d p mine u t →
      step d u a = some u' → ∃ t', step d t a = some t' ∧ Alike d p mine u' t' := by
    intro u u' t a ha hsorted' halike hu
    cases a with
    | tick now => exact halike.tick hu
    | admin c => exact halike.admin hu
    | arrive n i req => exact (halike.arrive hredis hu).1 ha
    | move n m => exact halike.own_move hredis (hsorted'.back hu) ha hu
  have hout : ∀ u u' t a, s.concerns p a = false → Sorted p mine u' → Alike d p mine u t →
      step d u a = some u' → Alike d p mine u' t := by
    intro u u' t a ha hsorted' halike hu
    cases a with
    | tick now => cases ha
    | admin c => cases ha
    | arrive n i req => exact (halike.arrive hredis hu).2 ha
    | move n m => exact halike.other_move hredis (hsorted'.back hu) ha hu
  obtain ⟨t, ht, halike⟩ := exec_purge (fun _ _ _ hs h => Sorted.back hs h) hin hout hstart
    hsorted hs
  refine ⟨t, ht, fun n x hx hof => ?_⟩
  show (t.tasks n).map Task.view = (some x).map Task.view
  rw [← hx]
  exact halike.own n ((hmine hx).trans hof)

end Runs

def otherClient : Request := { getProducts with clientIP := "198.51.100.9" }

/-- Two clients of two instances, the second in between the moves of the first. -/
def twoClients : List Action :=
  [.arrive 0 0 getProducts, .arrive 1 1 otherClient, .move 1 (.identify false),
    .move 0 (.identify false), .move 1 (.findPolicy false), .tick 5, .move 0 (.findPolicy false),
    .move 1 (.fromPolicy false), .move 0 (.fromPolicy false), .move 1 (.allow .up 5 "a"),
    .move 0 (.allow .up 5 "b")]

/-- A path with no colon in it. -/
def products : Route where
  text := "/v1/products"
  rooted := rfl
  named x y h := by
    have hcolon : ':' ∈ "/v1/products".toList := h ▸ List.mem_append_right x (List.mem_cons_self ..)
    exact absurd hcolon (by decide)

theorem requests_isolated_twoClients : ∃ s t,
    exec (step onRedis) (Sys.init onRedis strictProducts) twoClients = some s ∧
      exec (step onRedis) (Sys.init onRedis strictProducts)
        (twoClients.filter (s.concerns ⟨"ip:203.0.113.7", products⟩)) = some t ∧
      ∀ n x, s.tasks n = some x → x.isOf ⟨"ip:203.0.113.7", products⟩ = true →
        (t.tasks n).map Task.view = some x.view := by
  have hsome :
      (exec (step onRedis) (Sys.init onRedis strictProducts) twoClients).isSome = true := by
    decide +kernel
  obtain ⟨s, hs⟩ := Option.isSome_iff_exists.mp hsome
  obtain ⟨t, ht, htasks⟩ := requests_isolated onRedis onRedis_onRedis strictProducts
    ⟨"ip:203.0.113.7", products⟩ (fun n i req h => ⟨products, by
      simp only [twoClients, List.mem_cons, Action.arrive.injEq, reduceCtorEq, List.not_mem_nil,
        or_false] at h
      obtain ⟨-, -, rfl⟩ | ⟨-, -, rfl⟩ := h <;> rfl⟩) hs
  exact ⟨s, t, hs, ht, htasks⟩

end Cluster

end RateX
