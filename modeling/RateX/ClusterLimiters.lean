import RateX.Cluster
import RateX.Isolation

/-!
# The limiters of the cluster

What a request of the cluster can do with Redis as the backend. A limiter is
then the one its policy asks for, wherever it is held and whoever built it
(`Ready`), and every command of its calls is on a key of the call's own
(`call_local`), which no other pair of identity and route has
(`pair_of_storeKey`). `Moved` lists what a move can come to; what is proved about
the cluster is proved from it.
-/

namespace RateX

namespace Cluster

open Redis Steps

/-! ## Limiters on Redis -/

/-- A limiter as a factory with a Redis client builds it. -/
inductive OfRedis : RateLimiter → Prop
  | token (C : ℤ) (W : Duration) : OfRedis (.token (newTokenBucket C W))
  | sliding (L : ℤ) (W : Duration) : OfRedis (.sliding (newSlidingWindow L W))
  | fixed (L : ℤ) (W : Duration) : OfRedis (.fixed (newFixedWindow L W))

def Deployment.OnRedis (d : Deployment) : Prop := ∀ i, (d.cfg i).rateLimitBackend ≠ "memory"

/-- Instances that are configured alike. -/
def onRedis : Deployment := { cfg := fun _ => closedServer.cfg, sha256 := id, uuid := some }

theorem onRedis_onRedis : onRedis.OnRedis := fun _ =>
  show closedServer.cfg.rateLimitBackend ≠ "memory" by decide

/-- The factory of an instance on Redis builds no memory bucket. -/
theorem not_inMemory {d : Deployment} (h : d.OnRedis) (i : ℕ) :
    ¬ ((LimiterFactory.new (d.server i).redis (d.server i).cfg).cfg.rateLimitBackend = "memory" ∨
      (LimiterFactory.new (d.server i).redis (d.server i).cfg).redis = false) := by
  refine not_or.mpr ⟨h i, ?_⟩
  simpa [LimiterFactory.new, Deployment.server] using h i

theorem ofRedis_limiter {d : Deployment} (h : d.OnRedis) (i : ℕ) (policy : Policy) :
    OfRedis ((d.server i).limiter policy) := by
  unfold Server.limiter LimiterFactory.newLimiter
  split
  · rename_i hmemory
    exact absurd hmemory (not_inMemory h i)
  · split
    · exact .fixed _ _
    · split
      · exact .sliding _ _
      · exact .token _ _

theorem OfRedis.ne_memory {l : RateLimiter} (h : OfRedis l) (m : MemoryTokenBucket) :
    l ≠ .memory m := by
  cases h <;> simp

inductive SameKind : RateLimiter → RateLimiter → Prop
  | token {C C' : ℤ} {W W' : Duration} :
      SameKind (.token (newTokenBucket C W)) (.token (newTokenBucket C' W'))
  | sliding {L L' : ℤ} {W W' : Duration} :
      SameKind (.sliding (newSlidingWindow L W)) (.sliding (newSlidingWindow L' W'))
  | fixed {L L' : ℤ} {W W' : Duration} :
      SameKind (.fixed (newFixedWindow L W)) (.fixed (newFixedWindow L' W'))

/-- The prefix of a key tells the kind of its limiter. -/
theorem sameKind_of_storeKey {l l' : RateLimiter} (hl : OfRedis l) (hl' : OfRedis l')
    {key key' : String} {w w' : ℤ} (h : storeKey l key w = storeKey l' key' w') :
    SameKind l l' := by
  have hlist := congrArg String.toList h
  cases hl with
  | token C W =>
      cases hl' with
      | token C' W' => exact .token
      | sliding L' W' => simp [storeKey, newTokenBucket, newSlidingWindow] at hlist
      | fixed L' W' =>
          simp [storeKey, newTokenBucket, newFixedWindow, FixedWindow.redisKey] at hlist
  | sliding L W =>
      cases hl' with
      | token C' W' => simp [storeKey, newTokenBucket, newSlidingWindow] at hlist
      | sliding L' W' => exact .sliding
      | fixed L' W' =>
          simp [storeKey, newSlidingWindow, newFixedWindow, FixedWindow.redisKey] at hlist
  | fixed L W =>
      cases hl' with
      | token C' W' =>
          simp [storeKey, newTokenBucket, newFixedWindow, FixedWindow.redisKey] at hlist
      | sliding L' W' =>
          simp [storeKey, newSlidingWindow, newFixedWindow, FixedWindow.redisKey] at hlist
      | fixed L' W' => exact .fixed

/-- The keys of a pair are its own, whichever limiters use them. -/
theorem pair_of_storeKey {l l' : RateLimiter} (hl : OfRedis l) (hl' : OfRedis l') {p q : Pair}
    {w w' : ℤ} (h : storeKey l p.key w = storeKey l' q.key w') : p = q := by
  cases sameKind_of_storeKey hl hl' h with
  | @token C _ W => exact @storeKey_inj (.token (newTokenBucket C W)) p q w w' h
  | @sliding L _ W => exact @storeKey_inj (.sliding (newSlidingWindow L W)) p q w w' h
  | @fixed L _ W => exact @storeKey_inj (.fixed (newFixedWindow L W)) p q w w' h

/-! ## Commands touch one key -/

theorem send_local {α : Type} (net : Network) (clock : ℚ) (key : String)
    (command : Slot → Except Redis.Error (α × Slot)) :
    Local key fun store => send net store clock key command := by
  cases net with
  | up => exact Store.run_local clock key command
  | answerLost =>
      exact (Store.run_local clock key command).map fun _ => Except.error Redis.Error.connection
  | down => exact Local.pure key (Except.error Redis.Error.connection)

/-- The first command of a call is on one key of the call's, and so are those
that follow it. -/
theorem call_local {l : RateLimiter} (hl : OfRedis l) (net : Network) (now reading : ℚ)
    (member key : String) : ∃ w op, Local (storeKey l key w) op ∧
      (∀ store, call net now reading member key (l, store) = ((op store).1, l, (op store).2)) ∧
      ∀ store l' redisKey count, (op store).1 = .counted l' redisKey count →
        l = .fixed l' ∧ redisKey = l'.redisKey key w := by
  cases hl with
  | token C W =>
      by_cases hcap : (newTokenBucket C W).capacity ≤ 0
      · refine ⟨0, fun store => (.answer (.ok ⟨false, 0, 1, C, 0⟩), store), Local.pure ..,
          fun store => ?_, by simp⟩
        simp only [call, if_pos hcap]
        rfl
      · refine ⟨0, _, (send_local net now (storeKey (.token (newTokenBucket C W)) key 0)
          (tokenBucketScript ((newTokenBucket C W).args reading) now)).map fun reply =>
            .answer (parseReply reply (truncate W.seconds)), fun store => ?_, by simp⟩
        simp only [call, if_neg hcap]
        rfl
  | sliding L W =>
      exact ⟨0, _, (send_local net now (storeKey (.sliding (newSlidingWindow L W)) key 0)
        (slidingWindowScript ((newSlidingWindow L W).args reading member) now)).map fun reply =>
          .answer (parseReply reply (truncate W.seconds)), fun store => rfl, by simp⟩
  | fixed L W =>
      cases hid : (newFixedWindow L W).windowID reading with
      | none =>
          exact ⟨0, fun store => (.answer (.error .panic), store), Local.pure .., fun store => by
            simp only [call, hid], by simp⟩
      | some w =>
          refine ⟨w, _, (send_local net now (storeKey (.fixed (newFixedWindow L W)) key w)
            Redis.incr).map (.ofIncr (newFixedWindow L W)
              ((newFixedWindow L W).redisKey key w)), fun store => ?_, ?_⟩
          · simp only [call, hid]
            rfl
          · intro store l' redisKey count h
            simp only at h
            generalize (send net store now _ Redis.incr).1 = reply at h
            cases reply with
            | error e => cases h
            | ok count =>
                cases h
                exact ⟨rfl, rfl⟩

/-! ## What an instance holds -/

/-- The default limiter is there, and the cache holds what it is asked for. -/
structure Instance.Wired (srv : Server) (inst : Instance) : Prop where
  redis : inst.factory.redis = srv.redis
  cfg : inst.factory.cfg = srv.cfg
  sound : inst.factory.Sound inst.heap
  default : inst.heap[srv.start.1]? = some (srv.limiter (srv.orDefault none))

theorem wired_boot (srv : Server) : (Instance.boot srv).Wired srv :=
  ⟨srv.wired_start.redis, srv.wired_start.cfg, srv.wired_start.sound, srv.wired_start.default⟩

theorem Instance.Wired.newLimiter {srv : Server} {inst : Instance} (h : inst.Wired srv)
    (policy : Policy) : inst.factory.newLimiter policy = srv.limiter policy := by
  obtain ⟨⟨redis, cfg, cache⟩, heap⟩ := inst
  obtain ⟨rfl, rfl, -, -⟩ := h
  rfl

theorem getElem?_of_isPrefix {α : Type} {l l' : List α} (h : l <+: l') {i : ℕ} {a : α}
    (ha : l[i]? = some a) : l'[i]? = some a := by
  obtain ⟨more, rfl⟩ := h
  rw [List.getElem?_append_left (List.getElem?_eq_some_iff.mp ha).1]
  exact ha

/-- `FromPolicy` returns an object built for the policy, late or not. -/
theorem Instance.Wired.fromPolicy {srv : Server} {inst : Instance} (h : inst.Wired srv)
    (late : Bool) (policy : Policy) :
    let out := inst.fromPolicy late policy
    out.2.heap[out.1]? = some (srv.limiter policy) ∧ out.2.Wired srv ∧
      inst.heap <+: out.2.heap := by
  unfold Instance.fromPolicy
  split
  · rename_i lim hlook
    split at hlook
    · cases hlook
    · exact ⟨(h.sound policy lim hlook).trans (congrArg some (h.newLimiter policy)), h,
        List.prefix_rfl⟩
  · refine ⟨List.getElem?_concat_length.trans (congrArg some (h.newLimiter policy)),
      ⟨h.redis, h.cfg, h.sound.insert policy, ?_⟩, List.prefix_append ..⟩
    exact getElem?_of_isPrefix (List.prefix_append ..) h.default

/-- What a request holds on to belongs to its policy. -/
def Stage.Fits (srv : Server) (req : Request) (heap : Heap) : Stage → Prop
  | .holding t lim => heap[lim]? = some (srv.limiter (srv.orDefault t.policy))
  | .counted t _ l _ redisKey _ => .fixed l = srv.limiter (srv.orDefault t.policy) ∧
      ∃ w, redisKey = l.redisKey (t.key req) w
  | _ => True

theorem Stage.Fits.mono {srv : Server} {req : Request} {heap heap' : Heap} {stage : Stage}
    (h : stage.Fits srv req heap) (hle : heap <+: heap') : stage.Fits srv req heap' := by
  cases stage with
  | holding t lim => exact getElem?_of_isPrefix hle h
  | counted t reading l next redisKey count => exact h
  | _ => trivial

/-! ## What a move can come to -/

/-- The outcomes of a move, on Redis and in an instance that is wired. -/
inductive Moved (srv : Server) (now : ℚ) (db : Database) (req : Request) (inst : Instance)
    (store : Store) : Stage → Move → Stage × Instance × Store → Prop
  | refused {down : Bool} {e : IdentifyError}
      (hid : identify srv.sha256 db down now req = .error e) :
      Moved srv now db req inst store .arrived (.identify down)
        (.refused (refusal req), inst, store)
  | identified {down : Bool} {id : Identity} (hid : identify srv.sha256 db down now req = .ok id) :
      Moved srv now db req inst store .arrived (.identify down) (.identified id, inst, store)
  | chosen {id : Identity} {down : Bool} {found : Option Policy}
      (hfound : found = if down then none
        else db.enabledRoute (toUpper req.method) (routeOf req)) :
      Moved srv now db req inst store (.identified id) (.findPolicy down)
        (.chosen ⟨id, found.or id.policy⟩, inst, store)
  | holding {t : Ticket} {late : Bool} {lim : Ref} {inst' : Instance}
      (hlim : inst'.heap[lim]? = some (srv.limiter (srv.orDefault t.policy)))
      (hwired : inst'.Wired srv) (hle : inst.heap <+: inst'.heap) :
      Moved srv now db req inst store (.chosen t) (.fromPolicy late) (.holding t lim, inst', store)
  | called {t : Ticket} {lim : Ref} {net : Network} {reading : ℚ} {member : String}
      {reached : Reached} {l : RateLimiter} {store' : Store}
      (hcall : call net now reading member (t.key req)
        (srv.limiter (srv.orDefault t.policy), store) = (reached, l, store')) :
      Moved srv now db req inst store (.holding t lim) (.allow net reading member)
        (reached.stage t reading, inst, store')
  | expired {t : Ticket} {reading : ℚ} {l : FixedWindow} {redisKey : String} {count : ℤ}
      {net : Network} {reply : Except Redis.Error Unit} {store' : Store}
      (hsend : send net store now redisKey (l.expire now) = (reply, store')) :
      Moved srv now db req inst store (.counted t reading l .expire redisKey count) (.expire net)
        (.ofExpire t reading l redisKey count reply, inst, store')
  | returned {t : Ticket} {reading : ℚ} {l : FixedWindow} {redisKey : String} {count : ℤ}
      {net : Network} :
      Moved srv now db req inst store (.counted t reading l .ttl redisKey count) (.ttl net)
        (.answered t reading (.ok (l.result count (ttlValue net now (store redisKey)))), inst,
          store)
  | replied {t : Ticket} {reading : ℚ} {outcome : Outcome} {handler : Handler} {durationMS : Int} :
      Moved srv now db req inst store (.answered t reading outcome) (.respond handler durationMS)
        (.served t reading outcome (reply srv req t outcome handler durationMS), inst, store)

section Moved

variable {d : Deployment} {i : ℕ} {now : ℚ} {db : Database} {req : Request} {inst inst' : Instance}
  {store store' : Store} {stage stage' : Stage} {m : Move}

theorem call_limiter {l l' : RateLimiter} (hl : OfRedis l) {net : Network} {reading : ℚ}
    {member key : String} {reached : Reached}
    (h : call net now reading member key (l, store) = (reached, l', store')) : l' = l := by
  obtain ⟨w, op, -, hop, -⟩ := call_local hl net now reading member key
  rw [hop] at h
  exact (congrArg (fun out => out.2.1) h).symm

theorem move_moved (hredis : d.OnRedis) (hwired : inst.Wired (d.server i))
    (hfits : stage.Fits (d.server i) req inst.heap)
    (h : move (d.server i) now db req stage m (inst, store) = some (stage', inst', store')) :
    Moved (d.server i) now db req inst store stage m (stage', inst', store') := by
  cases stage with
  | arrived =>
      cases m with
      | identify down =>
          simp only [move] at h
          split at h
          · rename_i hid
            cases h
            exact .identified hid
          · rename_i hid
            cases h
            exact .refused hid
      | _ => cases h
  | identified id =>
      cases m with
      | findPolicy down =>
          cases h
          exact .chosen (by cases down <;> rfl)
      | _ => cases h
  | chosen t =>
      cases m with
      | fromPolicy late =>
          obtain ⟨id, policy⟩ := t
          cases policy with
          | some policy =>
              cases h
              obtain ⟨hlim, hwired', hle⟩ := hwired.fromPolicy late policy
              exact .holding hlim hwired' hle
          | none =>
              cases h
              exact .holding hwired.default hwired List.prefix_rfl
      | _ => cases h
  | holding t lim =>
      cases m with
      | allow net reading member =>
          have hlim : inst.heap[lim]? = _ := hfits
          rcases hcall : call net now reading member (t.key req)
              ((d.server i).limiter ((d.server i).orDefault t.policy), store) with
            ⟨reached, l, store''⟩
          obtain rfl := call_limiter (ofRedis_limiter hredis i _) hcall
          obtain ⟨hlt, hget⟩ := List.getElem?_eq_some_iff.mp hlim
          have hset : inst.heap.set lim ((d.server i).limiter ((d.server i).orDefault t.policy)) =
              inst.heap := by
            rw [← hget, List.set_getElem_self hlt]
          simp only [move, hlim, hcall, hset, Option.some.injEq, Prod.mk.injEq] at h
          obtain ⟨rfl, rfl, rfl⟩ := h
          exact .called hcall
      | _ => cases h
  | counted t reading l next redisKey count =>
      cases next with
      | expire =>
          cases m with
          | expire net =>
              rcases hsend : send net store now redisKey (l.expire now) with ⟨reply, store''⟩
              simp only [move, hsend, Option.some.injEq, Prod.mk.injEq] at h
              obtain ⟨rfl, rfl, rfl⟩ := h
              exact .expired hsend
          | _ => cases h
      | ttl =>
          cases m with
          | ttl net =>
              cases h
              exact .returned
          | _ => cases h
  | answered t reading outcome =>
      cases m with
      | respond handler durationMS =>
          cases h
          exact .replied
      | _ => cases h
  | _ => cases m <;> cases h

/-- A call that goes on has counted on a key of its own. -/
theorem counted_of_call {l l' : RateLimiter} (hl : OfRedis l) {net : Network} {reading : ℚ}
    {member key redisKey : String} {f : FixedWindow} {count : ℤ}
    (h : call net now reading member key (l, store) = (.counted f redisKey count, l', store')) :
    .fixed f = l ∧ ∃ w, redisKey = f.redisKey key w := by
  obtain ⟨w, op, -, hop, hcounted⟩ := call_local hl net now reading member key
  rw [hop, Prod.mk.injEq] at h
  obtain ⟨hl', hkey⟩ := hcounted store f redisKey count h.1
  exact ⟨hl'.symm, w, hkey⟩

theorem Moved.fits (hredis : d.OnRedis) (hwired : inst.Wired (d.server i))
    (hfits : stage.Fits (d.server i) req inst.heap)
    (h : Moved (d.server i) now db req inst store stage m (stage', inst', store')) :
    inst'.Wired (d.server i) ∧ stage'.Fits (d.server i) req inst'.heap ∧
      inst.heap <+: inst'.heap := by
  cases h with
  | holding hlim hwired' hle => exact ⟨hwired', hlim, hle⟩
  | @called t lim net reading member reached l _ hcall =>
      refine ⟨hwired, ?_, List.prefix_rfl⟩
      cases reached with
      | answer outcome => exact trivial
      | counted f redisKey count =>
          exact counted_of_call (ofRedis_limiter hredis i _) hcall
  | @expired t reading l redisKey count net reply _ hsend =>
      refine ⟨hwired, ?_, List.prefix_rfl⟩
      cases reply with
      | error e => exact trivial
      | ok u => exact hfits
  | _ => exact ⟨hwired, trivial, List.prefix_rfl⟩

end Moved

/-! ## The system -/

/-- Every instance is wired, and what a request holds belongs to its policy. -/
structure Ready (d : Deployment) (s : Sys) : Prop where
  wired : ∀ i, (s.instances i).Wired (d.server i)
  fits : ∀ n x, s.tasks n = some x →
    x.stage.Fits (d.server x.inst) x.request (s.instances x.inst).heap

section Step

variable {d : Deployment} {s s' : Sys} {n : ℕ} {m : Move}

theorem ready_init (d : Deployment) (db : Database) : Ready d (Sys.init d db) where
  wired i := wired_boot (d.server i)
  fits _ _ h := nomatch h

/-- What a step comes to. -/
inductive Stepped (d : Deployment) (s : Sys) : Action → Sys → Prop
  | tick {now : ℚ} (hle : s.now ≤ now) : Stepped d s (.tick now) { s with now }
  | admin {call : AdminCall} :
      Stepped d s (.admin call) { s with db := (admin d.uuid d.sha256 s.db ⟨s.now, call⟩).2 }
  | arrive {n i : ℕ} {req : Request} (hfree : s.tasks n = none) :
      Stepped d s (.arrive n i req)
        { s with tasks := Function.update s.tasks n (some ⟨i, req, .arrived⟩) }
  | move {n : ℕ} {m : Move} {x : Task} {out : Stage × Instance × Store} (hx : s.tasks n = some x)
      (hmember : ∀ member, m.member = some member → member ∉ s.drawn)
      (hout : move (d.server x.inst) s.now s.db x.request x.stage m
        (s.instances x.inst, s.store) = some out) : Stepped d s (.move n m) (s.put n x m out)

theorem step_stepped {a : Action} (hs : step d s a = some s') : Stepped d s a s' := by
  cases a with
  | tick now =>
      simp only [step] at hs
      split at hs
      · cases hs
        exact .tick ‹_›
      · cases hs
  | admin call =>
      cases hs
      exact .admin
  | arrive n i req =>
      simp only [step] at hs
      split at hs
      · cases hs
      · cases hs
        exact .arrive ‹_›
  | move n m =>
      simp only [step] at hs
      split at hs
      · rename_i x hx
        split at hs
        · cases hs
        · rename_i hdrawn
          obtain ⟨out, hout, rfl⟩ := Option.map_eq_some_iff.mp hs
          refine .move hx (fun member hmember hmem => hdrawn ?_) hout
          rw [hmember]
          exact decide_eq_true hmem
      · cases hs

theorem step_move (hs : step d s (.move n m) = some s') : ∃ x out, s.tasks n = some x ∧
    (∀ member, m.member = some member → member ∉ s.drawn) ∧
    move (d.server x.inst) s.now s.db x.request x.stage m (s.instances x.inst, s.store) = some out ∧
    s' = s.put n x m out := by
  cases step_stepped hs with
  | move hx hmember hout => exact ⟨_, _, hx, hmember, hout, rfl⟩

/-- What holds of the tasks before a change, and of the one that is new, holds after it. -/
theorem forall_tasks {P : ℕ → Task → Prop} {tasks : ℕ → Option Task} {x : Task}
    (hold : ∀ k y, tasks k = some y → P k y) (hnew : P n x) :
    ∀ k y, Function.update tasks n (some x) k = some y → P k y := by
  intro k y hy
  by_cases hk : k = n
  · rw [hk, Function.update_self] at hy
    rw [hk, ← Option.some.inj hy]
    exact hnew
  · rw [Function.update_of_ne hk] at hy
    exact hold k y hy

/-- What a step can do to one task. -/
theorem step_task {a : Action} (hs : step d s a = some s') {x : Task} (hx : s'.tasks n = some x) :
    s.tasks n = some x ∨ (s.tasks n = none ∧ x.stage = .arrived) ∨
      ∃ m y out, a = .move n m ∧ s.tasks n = some y ∧
        move (d.server y.inst) s.now s.db y.request y.stage m (s.instances y.inst, s.store) =
          some out ∧ x = { y with stage := out.1 } := by
  cases step_stepped hs with
  | tick hle => exact .inl hx
  | admin => exact .inl hx
  | @arrive k i req hfree =>
      by_cases hn : n = k
      · subst hn
        simp only [Function.update_self, Option.some.injEq] at hx
        exact .inr (.inl ⟨hfree, by rw [← hx]⟩)
      · simp only [Function.update_of_ne hn] at hx
        exact .inl hx
  | @move k m y out hy hmember hout =>
      by_cases hn : n = k
      · subst hn
        simp only [Sys.put, Function.update_self, Option.some.injEq] at hx
        exact .inr (.inr ⟨m, y, out, rfl, hy, hout, hx.symm⟩)
      · simp only [Sys.put, Function.update_of_ne hn] at hx
        exact .inl hx

theorem Ready.put (h : Ready d s) {x : Task} {out : Stage × Instance × Store}
    (hwired : out.2.1.Wired (d.server x.inst))
    (hfits : out.1.Fits (d.server x.inst) x.request out.2.1.heap)
    (hle : (s.instances x.inst).heap <+: out.2.1.heap) : Ready d (s.put n x m out) where
  wired := by
    intro i
    simp only [Sys.put]
    by_cases hi : i = x.inst
    · rw [hi, Function.update_self]
      exact hwired
    · rw [Function.update_of_ne hi]
      exact h.wired i
  fits := by
    refine forall_tasks (fun k y hy => ?_) ?_
    · have hold := h.fits k y hy
      simp only [Sys.put]
      by_cases hi : y.inst = x.inst
      · rw [hi, Function.update_self]
        exact hi ▸ hold.mono (hi ▸ hle)
      · rw [Function.update_of_ne hi]
        exact hold
    · simp only [Sys.put, Function.update_self]
      exact hfits

theorem Ready.arrive (h : Ready d s) (i : ℕ) (req : Request) :
    Ready d { s with tasks := Function.update s.tasks n (some ⟨i, req, .arrived⟩) } where
  wired := h.wired
  fits := forall_tasks h.fits trivial

/-- A move of the system, with what it came to. -/
theorem Ready.move (hredis : d.OnRedis) (h : Ready d s) (hs : step d s (.move n m) = some s') :
    ∃ x out, s.tasks n = some x ∧ (∀ member, m.member = some member → member ∉ s.drawn) ∧
      Moved (d.server x.inst) s.now s.db x.request (s.instances x.inst) s.store x.stage m out ∧
      s' = s.put n x m out ∧ Ready d s' := by
  obtain ⟨x, ⟨stage, inst, store⟩, hx, hmember, hout, rfl⟩ := step_move hs
  have hmoved := move_moved hredis (h.wired x.inst) (h.fits n x hx) hout
  obtain ⟨hwired, hfits, hle⟩ := hmoved.fits hredis (h.wired x.inst) (h.fits n x hx)
  exact ⟨x, _, hx, hmember, hmoved, rfl, h.put hwired hfits hle⟩

theorem ready_step (hredis : d.OnRedis) (h : Ready d s) {a : Action}
    (hs : step d s a = some s') : Ready d s' := by
  cases step_stepped hs with
  | tick hle => exact ⟨h.wired, h.fits⟩
  | admin => exact ⟨h.wired, h.fits⟩
  | arrive hfree => exact h.arrive _ _
  | move hx hmember hout =>
      obtain ⟨-, -, -, -, -, -, hready⟩ := h.move hredis hs
      exact hready

end Step

end Cluster

end RateX
