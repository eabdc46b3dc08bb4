import RateX.Services
import RateX.Steps

/-!
# Deleting a policy while others write

`PolicyRepository.Delete` counts who uses a policy in one statement and deletes
it in another, and any statement of another admin may fall in between. The two
tables that refer to policies take it differently: `api_keys` makes the deletion
fail, `route_policies` follows it. So a key is never lost, and a route policy is
lost exactly where it was put on the policy after the count and is still on it
at the deletion (`Overtaken`).

Each `Delete` that has counted carries a ghost: `late`, the route policies put on
its policy since.
-/

namespace RateX

namespace PolicyDeletion

open Database Steps Table

inductive Call where
  | counted (id : String) (late : List String)
  | returned (r : Except ServiceError Unit)

structure Sys where
  db : Database
  calls : ℕ → Option Call

def Sys.init (db : Database) : Sys := { db, calls := fun _ => none }

/-- The statements of the admin repositories; `count` and `delete` are the two
of a `Delete`, the others are calls of their own. -/
inductive Action where
  | createPolicy (drawn : String) (policy : Policy)
  | updatePolicy (id : String) (policy : Policy)
  | createKey (drawn name : String) (key : APIKey)
  | revokeKey (now : ℚ) (id : String)
  | createRoute (drawn : String) (route : RoutePolicy)
  | updateRoute (id : String) (route : RoutePolicy)
  | deleteRoute (id : String)
  | count (call : ℕ) (id : String)
  | delete (call : ℕ)

def Sys.proceed (s : Sys) (call : ℕ) (c : Call) : Sys :=
  { s with calls := Function.update s.calls call (some c) }

/-- A statement that fails leaves the tables as they were. -/
def Sys.commit {α : Type} (s : Sys) : Except ServiceError (α × Database) → Sys
  | .ok (_, db) => { s with db }
  | .error _ => s

def Sys.remove (s : Sys) : Except ServiceError Database → Sys
  | .ok db => { s with db }
  | .error _ => s

section Step

variable (uuid : String → Option String)

def Call.note (row : RoutePolicy) : Call → Call
  | .counted id late =>
      .counted id (if uuid id = some row.policyID then row.id :: late else late)
  | .returned r => .returned r

/-- A route policy was written: the pending deletions take note. -/
def Sys.place (s : Sys) : Except ServiceError (RoutePolicy × Database) → Sys
  | .ok (row, db) => { db, calls := fun call => (s.calls call).map (Call.note uuid row) }
  | .error _ => s

def step (s : Sys) : Action → Option Sys
  | .createPolicy drawn policy => some (s.commit (PolicyRepository.create s.db drawn policy))
  | .updatePolicy id policy => some (s.commit (PolicyRepository.update uuid s.db id policy))
  | .createKey drawn name key => some (s.commit (APIKeyRepository.create uuid s.db drawn name key))
  | .revokeKey now id => some (s.remove (APIKeyRepository.revoke uuid s.db now id))
  | .createRoute drawn route =>
      some (s.place uuid (RoutePolicyRepository.create uuid s.db drawn route))
  | .updateRoute id route => some (s.place uuid (RoutePolicyRepository.update uuid s.db id route))
  | .deleteRoute id => some (s.remove (RoutePolicyRepository.delete uuid s.db id))
  | .count call id =>
      match s.calls call with
      | some _ => none
      | none =>
          match s.db.usageCount uuid id with
          | .error e => some (s.proceed call (.returned (.error (.sql e))))
          | .ok usageCount =>
              if 0 < usageCount then some (s.proceed call (.returned (.error .policyInUse)))
              else some (s.proceed call (.counted id []))
  | .delete call =>
      match s.calls call with
      | some (.counted id _) =>
          match s.db.deletePolicy uuid id with
          | .error e => some (s.proceed call (.returned (.error (.sql e))))
          | .ok db => some ({ s with db }.proceed call (.returned (.ok ())))
      | _ => none

/-- What a step may not do: lose a route policy that it was not asked to delete,
lose a key, or delete a policy that is referred to. -/
structure Keeps (s : Sys) (a : Action) (s' : Sys) : Prop where
  routes : ∀ rp ∈ s.db.routePolicies, (∃ rp' ∈ s'.db.routePolicies, rp'.id = rp.id) ∨
    ∃ id, a = .deleteRoute id ∧ uuid id = some rp.id
  keys : ∀ k ∈ s.db.apiKeys, ∃ k' ∈ s'.db.apiKeys, k'.id = k.id
  policies : ∀ p ∈ s.db.policies,
    ((∃ k ∈ s.db.apiKeys, k.policyID = p.id) ∨ ∃ rp ∈ s.db.routePolicies, rp.policyID = p.id) →
      ∃ p' ∈ s'.db.policies, p'.id = p.id

/-- The deletion runs, no key being on the policy, while a route policy put on
it after the count is still there. -/
def Overtaken (s : Sys) (a : Action) : Prop :=
  ∃ call id late policyID, a = .delete call ∧ s.calls call = some (.counted id late) ∧
    uuid id = some policyID ∧ (∀ k ∈ s.db.apiKeys, k.policyID ≠ policyID) ∧
    ∃ rp ∈ s.db.routePolicies, rp.policyID = policyID ∧ rp.id ∈ late

end Step

/-! ## One admin against another -/

section Race

variable {uuid : String → Option String} {s s' : Sys} {a : Action}

theorem Keeps.mem_routeIds (h : Keeps uuid s a s') (ha : ∀ id, a ≠ .deleteRoute id) {x : String}
    (hx : x ∈ s.db.routePolicies.map RoutePolicy.id) :
    x ∈ s'.db.routePolicies.map RoutePolicy.id := by
  obtain ⟨rp, hrp, rfl⟩ := List.mem_map.mp hx
  rcases h.routes rp hrp with ⟨rp', hrp', hid⟩ | ⟨id, hid, -⟩
  · exact hid ▸ List.mem_map_of_mem hrp'
  · exact absurd hid (ha id)

end Race

/-- `Delete` counts nothing, the other admin puts a route on the policy, and the
deletion takes the route with it. -/
def overtaking : List Action :=
  [.count 0 "1", .createRoute "7" ⟨"", "GET", "/v1/products", "1", true⟩, .delete 0]

theorem policyDeletion_cascades :
    ¬ Along (step some) (Keeps some) (Sys.init (migrated "1" "2" "3")) overtaking := by
  intro h
  obtain ⟨-, h⟩ := h _ rfl
  obtain ⟨-, h⟩ := h _ rfl
  obtain ⟨hkeeps, -⟩ := h _ rfl
  have hkept := hkeeps.mem_routeIds (fun _ h => nomatch h) (x := "7") (by decide +kernel)
  exact absurd hkept (by decide +kernel)

/-! ## What a step can do -/

/-- The steps, sorted by what they do to the tables. -/
inductive Effect (uuid : String → Option String) (s : Sys) : Action → Sys → Prop
  | idle {a : Action} (ha : ∀ call, a ≠ .delete call) : Effect uuid s a s
  | write {a : Action} (ha : ∀ call, a ≠ .delete call) {db : Database} (hwf : db.WellFormed)
      (hroutes : db.routePolicies = s.db.routePolicies)
      (hkeys : ∀ k ∈ s.db.apiKeys, ∃ k' ∈ db.apiKeys, k'.id = k.id)
      (hpolicies : ∀ p ∈ s.db.policies, ∃ p' ∈ db.policies, p'.id = p.id) :
      Effect uuid s a { s with db }
  | place {a : Action} (ha : ∀ call, a ≠ .delete call) {row : RoutePolicy} {db : Database}
      (hwf : db.WellFormed) (hnew : ∀ rp ∈ db.routePolicies, rp ∈ s.db.routePolicies ∨ rp = row)
      (hkept : ∀ rp ∈ s.db.routePolicies, ∃ rp' ∈ db.routePolicies, rp'.id = rp.id)
      (hkeys : db.apiKeys = s.db.apiKeys) (hpolicies : db.policies = s.db.policies) :
      Effect uuid s a { db, calls := fun call => (s.calls call).map (Call.note uuid row) }
  | unplace {id canonical : String} (hid : uuid id = some canonical) {db : Database}
      (hwf : db.WellFormed) (hdb : db = { s.db with
        routePolicies := Table.remove RoutePolicy.id s.db.routePolicies canonical }) :
      Effect uuid s (.deleteRoute id) { s with db }
  | count {call : ℕ} {id : String} {c : Call} (hc : ∀ id late policyID,
        c = .counted id late → uuid id = some policyID →
        ∀ rp ∈ s.db.routePolicies, rp.policyID ≠ policyID) :
      Effect uuid s (.count call id) (s.proceed call c)
  | refused {call : ℕ} {id : String} {late : List String} {e : SqlError}
      (hcall : s.calls call = some (.counted id late))
      (hdelete : s.db.deletePolicy uuid id = .error e) :
      Effect uuid s (.delete call) (s.proceed call (.returned (.error (.sql e))))
  | deleted {call : ℕ} {id : String} {late : List String} {db : Database}
      (hcall : s.calls call = some (.counted id late))
      (hdelete : s.db.deletePolicy uuid id = .ok db) :
      Effect uuid s (.delete call) ({ s with db }.proceed call (.returned (.ok ())))

section Effect

variable {uuid : String → Option String} {s s' : Sys} {a : Action}

theorem effect_count {call : ℕ} {id : String} (hs : step uuid s (.count call id) = some s') :
    Effect uuid s (.count call id) s' := by
  simp only [step] at hs
  split at hs
  · cases hs
  · split at hs
    · obtain rfl := Option.some.inj hs
      exact .count fun _ _ _ hc => nomatch hc
    · rename_i usageCount hcount
      split at hs
      · obtain rfl := Option.some.inj hs
        exact .count fun _ _ _ hc => nomatch hc
      · rename_i hzero
        obtain rfl := Option.some.inj hs
        obtain ⟨canonical, hid, hfree⟩ := usageCount_ok hcount
        refine .count fun id' late policyID hc hid' rp hrp => ?_
        cases hc
        obtain rfl := Option.some.inj (hid.symm.trans hid')
        exact (hfree.mp (by omega)).2 rp hrp

theorem effect_delete {call : ℕ} (hs : step uuid s (.delete call) = some s') :
    Effect uuid s (.delete call) s' := by
  simp only [step] at hs
  split at hs
  · rename_i id late hcall
    split at hs
    · rename_i e hdelete
      obtain rfl := Option.some.inj hs
      exact .refused hcall hdelete
    · rename_i db hdelete
      obtain rfl := Option.some.inj hs
      exact .deleted hcall hdelete
  · cases hs

theorem step_effect (h : s.db.WellFormed) (hs : step uuid s a = some s') :
    Effect uuid s a s' := by
  cases a with
  | createPolicy drawn policy =>
      obtain rfl := Option.some.inj hs
      cases hr : PolicyRepository.create s.db drawn policy with
      | error e => exact .idle (by simp)
      | ok out =>
          obtain ⟨row, db⟩ := out
          obtain ⟨rfl, -⟩ := insertPolicy_ok (sent_ok hr)
          exact .write (by simp) (h.insertPolicy (sent_ok hr)) rfl (fun k hk => ⟨k, hk, rfl⟩)
            fun p hp => ⟨p, List.mem_append_left _ hp, rfl⟩
  | updatePolicy id policy =>
      obtain rfl := Option.some.inj hs
      cases hr : PolicyRepository.update uuid s.db id policy with
      | error e => exact .idle (by simp)
      | ok out =>
          obtain ⟨row, db⟩ := out
          obtain ⟨rfl, -⟩ := updatePolicy_ok (sent_ok hr)
          exact .write (by simp) (h.updatePolicy (sent_ok hr)) rfl (fun k hk => ⟨k, hk, rfl⟩)
            fun p hp => exists_modify (fun _ _ _ => rfl) hp
  | createKey drawn name key =>
      obtain rfl := Option.some.inj hs
      cases hr : APIKeyRepository.create uuid s.db drawn name key with
      | error e => exact .idle (by simp)
      | ok out =>
          obtain ⟨row, db⟩ := out
          obtain ⟨rfl, -⟩ := insertKey_ok (sent_ok hr)
          exact .write (by simp) (h.insertKey (sent_ok hr)) rfl
            (fun k hk => ⟨k, List.mem_append_left _ hk, rfl⟩) fun p hp => ⟨p, hp, rfl⟩
  | revokeKey now id =>
      obtain rfl := Option.some.inj hs
      cases hr : APIKeyRepository.revoke uuid s.db now id with
      | error e => exact .idle (by simp)
      | ok db =>
          obtain ⟨canonical, -, rfl⟩ := revokeKey_ok (sent_ok hr)
          exact .write (by simp) (h.revokeKey (sent_ok hr)) rfl
            (fun k hk => exists_modify (fun _ _ hk' => hk') hk) fun p hp => ⟨p, hp, rfl⟩
  | createRoute drawn route =>
      obtain rfl := Option.some.inj hs
      cases hr : RoutePolicyRepository.create uuid s.db drawn route with
      | error e => exact .idle (by simp)
      | ok out =>
          obtain ⟨row, db⟩ := out
          obtain ⟨rfl, -⟩ := insertRoute_ok (sent_ok hr)
          exact .place (by simp) (h.insertRoute (sent_ok hr))
            (fun rp hrp => (List.mem_append.mp hrp).imp id List.mem_singleton.mp)
            (fun rp hrp => ⟨rp, List.mem_append_left _ hrp, rfl⟩) rfl rfl
  | updateRoute id route =>
      obtain rfl := Option.some.inj hs
      cases hr : RoutePolicyRepository.update uuid s.db id route with
      | error e => exact .idle (by simp)
      | ok out =>
          obtain ⟨row, db⟩ := out
          obtain ⟨rfl, -⟩ := updateRoute_ok (sent_ok hr)
          refine .place (by simp) (h.updateRoute (sent_ok hr)) (fun rp hrp => ?_)
            (fun rp hrp => exists_modify (fun _ _ _ => rfl) hrp) rfl rfl
          exact (mem_modify.mp hrp).imp (fun h => h.1) fun ⟨_, _, _, heq⟩ => heq
  | deleteRoute id =>
      obtain rfl := Option.some.inj hs
      cases hr : RoutePolicyRepository.delete uuid s.db id with
      | error e => exact .idle (by simp)
      | ok db =>
          obtain ⟨canonical, hid, hdb⟩ := deleteRoute_ok (sent_ok hr)
          exact .unplace hid (h.deleteRoute (sent_ok hr)) hdb
  | count call id => exact effect_count hs
  | delete call => exact effect_delete hs

end Effect

/-! ## The invariant -/

/-- Every route policy on a policy that is about to be deleted is a late one. -/
structure Inv (uuid : String → Option String) (s : Sys) : Prop where
  wellFormed : s.db.WellFormed
  late : ∀ call id late policyID, s.calls call = some (.counted id late) →
    uuid id = some policyID → ∀ rp ∈ s.db.routePolicies, rp.policyID = policyID → rp.id ∈ late

section Inv

variable {uuid : String → Option String} {s s' : Sys}

theorem inv_init {db : Database} (h : db.WellFormed) : Inv uuid (Sys.init db) where
  wellFormed := h
  late := fun _ _ _ _ h => nomatch h

/-- A statement that writes no route policy leaves the pending deletions alone. -/
theorem Inv.write (h : Inv uuid s) {db : Database} (hwf : db.WellFormed)
    (hroutes : ∀ rp ∈ db.routePolicies, rp ∈ s.db.routePolicies) : Inv uuid { s with db } where
  wellFormed := hwf
  late := fun call id late policyID hc hid rp hrp => h.late call id late policyID hc hid rp
    (hroutes rp hrp)

theorem Inv.proceed (h : Inv uuid s) {call : ℕ} {c : Call}
    (hc : ∀ id late policyID, c = .counted id late → uuid id = some policyID →
      ∀ rp ∈ s.db.routePolicies, rp.policyID = policyID → rp.id ∈ late) :
    Inv uuid (s.proceed call c) where
  wellFormed := h.wellFormed
  late := by
    intro call' id late policyID hcall hid rp hrp
    by_cases heq : call' = call
    · subst heq
      simp only [Sys.proceed, Function.update_self, Option.some.injEq] at hcall
      exact hc id late policyID hcall hid rp hrp
    · simp only [Sys.proceed, Function.update_of_ne heq] at hcall
      exact h.late call' id late policyID hcall hid rp hrp

/-- A written route policy is late for every pending deletion of its policy. -/
theorem Inv.place (h : Inv uuid s) {row : RoutePolicy} {db : Database} (hwf : db.WellFormed)
    (hroutes : ∀ rp ∈ db.routePolicies, rp ∈ s.db.routePolicies ∨ rp = row) :
    Inv uuid { db, calls := fun call => (s.calls call).map (Call.note uuid row) } where
  wellFormed := hwf
  late := by
    intro call id late policyID hcall hid rp hrp hon
    obtain ⟨c, hc, hnote⟩ := Option.map_eq_some_iff.mp hcall
    cases c with
    | returned r => cases hnote
    | counted id' late' =>
        simp only [Call.note, Call.counted.injEq] at hnote
        obtain ⟨rfl, rfl⟩ := hnote
        rcases hroutes rp hrp with hold | rfl
        · have := h.late call id' late' policyID hc hid rp hold hon
          split
          · exact List.mem_cons_of_mem _ this
          · exact this
        · rw [if_pos (hon ▸ hid)]
          exact List.mem_cons_self ..

theorem inv_step (h : Inv uuid s) {a : Action} (hs : step uuid s a = some s') : Inv uuid s' := by
  cases step_effect h.wellFormed hs with
  | idle _ => exact h
  | write _ hwf hroutes => exact h.write hwf fun rp hrp => hroutes ▸ hrp
  | place _ hwf hnew => exact h.place hwf hnew
  | unplace _ hwf hdb => exact h.write hwf fun rp hrp => (mem_remove.mp (hdb ▸ hrp)).1
  | count hc =>
      refine h.proceed fun id late policyID hcall hid rp hrp hon => ?_
      exact absurd hon (hc id late policyID hcall hid rp hrp)
  | refused _ _ => exact h.proceed fun _ _ _ hc => nomatch hc
  | deleted _ hdelete =>
      obtain ⟨canonical, -, -, rfl⟩ := deletePolicy_ok hdelete
      exact (h.write (h.wellFormed.deletePolicy hdelete) fun rp hrp =>
        (mem_remove.mp hrp).1).proceed fun _ _ _ hc => nomatch hc

/-! ## What is kept -/

theorem keeps_of_kept {a : Action}
    (hroutes : ∀ rp ∈ s.db.routePolicies, ∃ rp' ∈ s'.db.routePolicies, rp'.id = rp.id)
    (hkeys : ∀ k ∈ s.db.apiKeys, ∃ k' ∈ s'.db.apiKeys, k'.id = k.id)
    (hpolicies : ∀ p ∈ s.db.policies, ∃ p' ∈ s'.db.policies, p'.id = p.id) :
    Keeps uuid s a s' :=
  ⟨fun rp hrp => .inl (hroutes rp hrp), hkeys, fun p hp _ => hpolicies p hp⟩

theorem keeps_same {a : Action} (h : s'.db = s.db) : Keeps uuid s a s' :=
  keeps_of_kept (fun rp hrp => ⟨rp, h ▸ hrp, rfl⟩) (fun k hk => ⟨k, h ▸ hk, rfl⟩)
    fun p hp => ⟨p, h ▸ hp, rfl⟩

theorem not_overtaken {a : Action} (ha : ∀ call, a ≠ .delete call) : ¬ Overtaken uuid s a := by
  rintro ⟨call, -, -, -, heq, -⟩
  exact ha call heq

/-- A deletion that goes through keeps what it should iff it was not overtaken:
no key is on the policy, and the routes on it are the late ones. -/
theorem keeps_deleted (h : Inv uuid s) {call : ℕ} {id : String} {late : List String}
    {db : Database} (hcall : s.calls call = some (.counted id late))
    (hdelete : s.db.deletePolicy uuid id = .ok db) :
    Keeps uuid s (.delete call) ({ s with db }.proceed call (.returned (.ok ()))) ↔
      ¬ Overtaken uuid s (.delete call) := by
  obtain ⟨canonical, hid, hfree, rfl⟩ := deletePolicy_ok hdelete
  constructor
  · rintro hkeeps ⟨call', id', late', policyID, heq, hcall', hid', -, rp, hrp, hon, -⟩
    cases heq
    obtain ⟨rfl, rfl⟩ := Call.counted.inj (Option.some.inj (hcall.symm.trans hcall'))
    obtain rfl := Option.some.inj (hid.symm.trans hid')
    obtain ⟨p, hp, hprp⟩ := h.wellFormed.routePolicy rp hrp
    obtain ⟨p', hp', hid⟩ := hkeeps.policies p hp (.inr ⟨rp, hrp, hprp.symm⟩)
    exact (mem_remove.mp hp').2 (hid.trans (hprp.trans hon))
  · intro hnot
    have hnone : ∀ rp ∈ s.db.routePolicies, rp.policyID ≠ canonical := fun rp hrp hon =>
      hnot ⟨call, id, late, canonical, rfl, hcall, hid, hfree, rp, hrp, hon,
        h.late call id late canonical hcall hid rp hrp hon⟩
    refine ⟨fun rp hrp => .inl ⟨rp, mem_remove.mpr ⟨hrp, hnone rp hrp⟩, rfl⟩,
      fun k hk => ⟨k, hk, rfl⟩, fun p hp hused => ⟨p, mem_remove.mpr ⟨hp, fun heq => ?_⟩, rfl⟩⟩
    rcases hused with ⟨k, hk, hkp⟩ | ⟨rp, hrp, hon⟩
    · exact hfree k hk (hkp.trans heq)
    · exact hnone rp hrp (hon.trans heq)

theorem keeps_iff (h : Inv uuid s) {a : Action} (hs : step uuid s a = some s') :
    Keeps uuid s a s' ↔ ¬ Overtaken uuid s a := by
  cases step_effect h.wellFormed hs with
  | idle ha => exact iff_of_true (keeps_same rfl) (not_overtaken ha)
  | write ha _ hroutes hkeys hpolicies =>
      refine iff_of_true (keeps_of_kept (fun rp hrp => ⟨rp, ?_, rfl⟩) hkeys hpolicies)
        (not_overtaken ha)
      rw [hroutes]
      exact hrp
  | place ha _ _ hkept hkeys hpolicies =>
      refine iff_of_true (keeps_of_kept hkept (fun k hk => ⟨k, ?_, rfl⟩) fun p hp => ⟨p, ?_, rfl⟩)
        (not_overtaken ha)
      · rw [hkeys]
        exact hk
      · rw [hpolicies]
        exact hp
  | @unplace id canonical hid db _ hdb =>
      subst hdb
      refine iff_of_true ⟨fun rp hrp => ?_, fun k hk => ⟨k, hk, rfl⟩, fun p hp _ => ⟨p, hp, rfl⟩⟩
        (not_overtaken fun _ h => nomatch h)
      by_cases hrpid : rp.id = canonical
      · exact .inr ⟨id, rfl, hrpid ▸ hid⟩
      · exact .inl ⟨rp, mem_remove.mpr ⟨hrp, hrpid⟩, rfl⟩
  | count _ => exact iff_of_true (keeps_same rfl) (not_overtaken fun _ h => nomatch h)
  | @refused call id late e hcall hdelete =>
      refine iff_of_true (keeps_same rfl) ?_
      rintro ⟨call', id', late', policyID, heq, hcall', hid, hfree, -⟩
      -- without a key on the policy the statement would not have failed
      cases heq
      obtain ⟨rfl, rfl⟩ := Call.counted.inj (Option.some.inj (hcall.symm.trans hcall'))
      have hno : ¬ (s.db.apiKeys.any fun k => k.policyID = policyID) = true := by
        simpa using hfree
      simp [deletePolicy, reference, hid, bind, Except.bind, hno, pure, Except.pure] at hdelete
  | deleted hcall hdelete => exact keeps_deleted h hcall hdelete

end Inv

/-- **What a deletion takes with it.** In every run from tables that meet the
schema's constraints, no statement loses a route policy it was not asked to
delete, an API key, or a policy that is referred to, iff no deletion of the run
is overtaken. -/
theorem policyDeletion_iff (uuid : String → Option String) {db : Database} (h : db.WellFormed)
    (run : List Action) :
    Along (step uuid) (Keeps uuid) (Sys.init db) run ↔
      Along (step uuid) (fun s a _ => ¬ Overtaken uuid s a) (Sys.init db) run :=
  along_iff (fun _ _ _ h hs => inv_step h hs) (fun _ _ _ h hs => keeps_iff h hs) (inv_init h) run

/-- The route of the other admin is put on another policy. -/
theorem policyDeletion_elsewhere : Along (step some) (Keeps some)
    (Sys.init (migrated "1" "2" "3"))
    [.count 0 "1", .createRoute "7" ⟨"", "GET", "/v1/products", "2", true⟩, .delete 0] := by
  refine (policyDeletion_iff some (wellFormed_migrated (by decide) (by decide) (by decide)) _).mpr
    fun s1 h1 => ⟨not_overtaken (fun _ h => nomatch h), fun s2 h2 =>
      ⟨not_overtaken (fun _ h => nomatch h), fun s3 _ => ⟨?_, trivial⟩⟩⟩
  obtain rfl := Option.some.inj h1
  obtain rfl := Option.some.inj h2
  rintro ⟨call, id, late, policyID, heq, hcall, -, -, rp, -, -, hlate⟩
  cases heq
  cases hcall
  cases hlate

end PolicyDeletion

end RateX
