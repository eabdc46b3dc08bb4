import RateX.Database
import RateX.Table

/-!
# The statements of the repositories

Each SQL statement the admin repositories send, as PostgreSQL runs it on the
tables: atomically, with the column types, checks, unique columns and foreign
keys of the two migrations. `api_keys.policy_id` restricts the deletion of a
policy, `route_policies.policy_id` cascades it. A statement that fails changes
nothing.

`uuid` reads a text as a UUID, in the form in which PostgreSQL prints it; ids
drawn by `gen_random_uuid` are parameters (`drawn`). Every statement has one
lemma that says all it can do (`…_ok`), and `WellFormed` is what the constraints
keep.
-/

namespace RateX

open Table

inductive SqlError where
  | noRows
  | invalidText
  | tooLong
  | outOfRange
  | check
  | unique
  | foreignKey
deriving Repr, DecidableEq

/-- The unique columns of `route_policies`. -/
def RoutePolicy.key (rp : RoutePolicy) : String × String := (rp.method, rp.routePattern)

namespace Database

/-- The constraints of the schema. -/
structure WellFormed (db : Database) : Prop where
  policyIds : Keyed Policy.id db.policies
  policyNames : Keyed Policy.name db.policies
  stored : ∀ p ∈ db.policies, Stored p
  keyIds : Keyed APIKey.id db.apiKeys
  keyHashes : Keyed APIKey.keyHash db.apiKeys
  keyPolicy : ∀ k ∈ db.apiKeys, ∃ p ∈ db.policies, p.id = k.policyID
  routeIds : Keyed RoutePolicy.id db.routePolicies
  routeKeys : Keyed RoutePolicy.key db.routePolicies
  routePolicy : ∀ rp ∈ db.routePolicies, ∃ p ∈ db.policies, p.id = rp.policyID

/-! ## Columns -/

/-- `varchar(n)`: excess blanks are cut off, other excess is refused. -/
def varchar (n : ℕ) (text : String) : Except SqlError String :=
  if '\x00' ∈ text.toList then .error .invalidText
  else if text.length ≤ n then .ok text
  else if (text.toList.drop n).all (· = ' ') then .ok (.ofList (text.toList.take n))
  else .error .tooLong

def integer (n : Int) : Except SqlError Int :=
  if -2 ^ 31 ≤ n ∧ n < 2 ^ 31 then .ok n else .error .outOfRange

def reference (uuid : String → Option String) (id : String) : Except SqlError String :=
  match uuid id with
  | some id => .ok id
  | none => .error .invalidText

/-- The columns of a policy, converted and checked. -/
def policyColumns (policy : Policy) : Except SqlError Policy := do
  let name ← varchar 100 policy.name
  let algorithm ← varchar 50 policy.algorithm
  let requestLimit ← integer policy.requestLimit
  let windowSeconds ← integer policy.windowSeconds
  let burstCapacity ← integer policy.burstCapacity
  if KnownAlgorithm algorithm ∧ 0 < requestLimit ∧ 0 < windowSeconds ∧ 0 < burstCapacity then
    return { policy with name, algorithm, requestLimit, windowSeconds, burstCapacity }
  else .error .check

/-! ## The statements -/

section Statements

variable (uuid : String → Option String)

def insertPolicy (db : Database) (drawn : String) (policy : Policy) :
    Except SqlError (Policy × Database) := do
  let columns ← policyColumns policy
  let row := { columns with id := drawn }
  if db.policies.any fun p => p.id = drawn ∨ p.name = row.name then .error .unique
  else return (row, { db with policies := db.policies ++ [row] })

def updatePolicy (db : Database) (id : String) (policy : Policy) :
    Except SqlError (Policy × Database) := do
  let columns ← policyColumns policy
  let id ← reference uuid id
  let row := { columns with id }
  if find Policy.id db.policies id = none then .error .noRows
  else if db.policies.any fun p => p.id ≠ id ∧ p.name = row.name then .error .unique
  else return (row, { db with policies := modify Policy.id db.policies id fun _ => row })

/-- The usage count of a policy, of the first statement of `Delete`. -/
def usageCount (db : Database) (id : String) : Except SqlError ℕ := do
  let id ← reference uuid id
  return (db.apiKeys.countP fun k => k.policyID = id) +
    db.routePolicies.countP fun rp => rp.policyID = id

/-- The second statement of `Delete`: API keys restrict, route policies follow. -/
def deletePolicy (db : Database) (id : String) : Except SqlError Database := do
  let id ← reference uuid id
  if db.apiKeys.any fun k => k.policyID = id then .error .foreignKey
  else return { db with
    policies := remove Policy.id db.policies id
    routePolicies := remove RoutePolicy.policyID db.routePolicies id }

/-- The row of a new key; its `name` is a column that nothing here reads. -/
def insertKey (db : Database) (drawn name : String) (key : APIKey) :
    Except SqlError (APIKey × Database) := do
  let _ ← varchar 120 name
  let keyPrefix ← varchar 32 key.keyPrefix
  let policyID ← reference uuid key.policyID
  let row := { key with id := drawn, keyPrefix, policyID, revokedAt := none }
  if db.apiKeys.any fun k => k.id = drawn ∨ k.keyHash = row.keyHash then .error .unique
  else if find Policy.id db.policies policyID = none then .error .foreignKey
  else return (row, { db with apiKeys := db.apiKeys ++ [row] })

def revokeKey (db : Database) (now : ℚ) (id : String) : Except SqlError Database := do
  let id ← reference uuid id
  return { db with
    apiKeys := modify APIKey.id db.apiKeys id fun k => { k with revokedAt := some now } }

def routeColumns (route : RoutePolicy) : Except SqlError RoutePolicy := do
  let method ← varchar 12 route.method
  let routePattern ← varchar 255 route.routePattern
  let policyID ← reference uuid route.policyID
  return { route with method, routePattern, policyID }

def insertRoute (db : Database) (drawn : String) (route : RoutePolicy) :
    Except SqlError (RoutePolicy × Database) := do
  let columns ← routeColumns uuid route
  let row := { columns with id := drawn }
  if db.routePolicies.any fun rp => rp.id = drawn ∨ rp.key = row.key then .error .unique
  else if find Policy.id db.policies row.policyID = none then .error .foreignKey
  else return (row, { db with routePolicies := db.routePolicies ++ [row] })

def updateRoute (db : Database) (id : String) (route : RoutePolicy) :
    Except SqlError (RoutePolicy × Database) := do
  let columns ← routeColumns uuid route
  let id ← reference uuid id
  let row := { columns with id }
  if find RoutePolicy.id db.routePolicies id = none then .error .noRows
  else if db.routePolicies.any fun rp => rp.id ≠ id ∧ rp.key = row.key then .error .unique
  else if find Policy.id db.policies row.policyID = none then .error .foreignKey
  else return (row, { db with
    routePolicies := modify RoutePolicy.id db.routePolicies id fun _ => row })

def deleteRoute (db : Database) (id : String) : Except SqlError Database := do
  let id ← reference uuid id
  return { db with routePolicies := remove RoutePolicy.id db.routePolicies id }

end Statements

/-! ## What a statement can do -/

theorem bind_ok {ε α β : Type} {x : Except ε α} {f : α → Except ε β} {b : β} :
    (x >>= f) = .ok b ↔ ∃ a, x = .ok a ∧ f a = .ok b := by
  cases x with
  | error e => exact ⟨fun h => (nomatch h), fun ⟨_, h, _⟩ => (nomatch h)⟩
  | ok a => exact ⟨fun h => ⟨a, rfl, h⟩, fun ⟨_, ha, h⟩ => by cases ha; exact h⟩

section Effects

variable {uuid : String → Option String} {db db' : Database} {id drawn : String}

theorem reference_ok {text : String} (h : reference uuid text = .ok id) : uuid text = some id := by
  unfold reference at h
  split at h
  · rename_i hid
    rw [hid, Except.ok.inj h]
  · cases h

/-- A text that does not end in a blank is stored as it is, or refused. -/
theorem varchar_ok {n : ℕ} {text stored : String} (h : varchar n text = .ok stored)
    (hlast : ∀ c ∈ text.toList.getLast?, c ≠ ' ') : stored = text := by
  unfold varchar at h
  split at h
  · cases h
  · split at h
    · exact (Except.ok.inj h).symm
    · rename_i hlong
      split at h
      · rename_i hblank
        -- the last character is among those cut off
        have hne : text.toList.drop n ≠ [] := by
          rw [Ne, List.drop_eq_nil_iff, String.length_toList]
          exact hlong
        have hmem := List.getLast_mem hne
        refine absurd (of_decide_eq_true (List.all_eq_true.mp hblank _ hmem)) (hlast _ ?_)
        rw [List.getLast_drop, List.getLast?_eq_some_getLast]
        exact rfl
      · cases h

theorem integer_ok {n m : Int} (h : integer n = .ok m) : n = m ∧ m < 2 ^ 31 := by
  unfold integer at h
  split at h
  · obtain rfl := Except.ok.inj h
    exact ⟨rfl, by omega⟩
  · cases h

theorem policyColumns_ok {policy columns : Policy} (h : policyColumns policy = .ok columns) :
    Stored columns := by
  simp only [policyColumns, bind_ok] at h
  obtain ⟨_, -, _, -, _, hlimit, _, hwindow, _, hburst, h⟩ := h
  split at h
  · rename_i hcheck
    obtain rfl := Except.ok.inj h
    exact { known := hcheck.1, limit_pos := hcheck.2.1, window_pos := hcheck.2.2.1
            burst_pos := hcheck.2.2.2, limit_lt := (integer_ok hlimit).2
            window_lt := (integer_ok hwindow).2, burst_lt := (integer_ok hburst).2 }
  · cases h

theorem insertPolicy_ok {policy row : Policy} (h : insertPolicy db drawn policy = .ok (row, db')) :
    db' = { db with policies := db.policies ++ [row] } ∧ row.id = drawn ∧ Stored row ∧
      ∀ p ∈ db.policies, p.id ≠ drawn ∧ p.name ≠ row.name := by
  simp only [insertPolicy, bind_ok] at h
  obtain ⟨columns, hcolumns, h⟩ := h
  split at h
  · cases h
  · rename_i hnew
    cases h
    have hstored := policyColumns_ok hcolumns
    refine ⟨rfl, rfl, { hstored with }, fun p hp => ?_⟩
    simpa [not_or] using fun hor => hnew (List.any_eq_true.mpr ⟨p, hp, decide_eq_true hor⟩)

theorem updatePolicy_ok {policy row : Policy}
    (h : updatePolicy uuid db id policy = .ok (row, db')) :
    db' = { db with policies := modify Policy.id db.policies row.id fun _ => row } ∧ Stored row ∧
      (∃ p ∈ db.policies, p.id = row.id) ∧
      ∀ p ∈ db.policies, p.id ≠ row.id → p.name ≠ row.name := by
  simp only [updatePolicy, bind_ok] at h
  obtain ⟨columns, hcolumns, canonical, -, h⟩ := h
  split at h
  · cases h
  · rename_i hsome
    split at h
    · cases h
    · rename_i hnew
      cases h
      obtain ⟨p, hp⟩ := Option.ne_none_iff_exists'.mp hsome
      have hstored := policyColumns_ok hcolumns
      refine ⟨rfl, { hstored with }, ⟨p, find_some hp⟩, fun p hp hne hname => ?_⟩
      exact hnew (List.any_eq_true.mpr ⟨p, hp, decide_eq_true ⟨hne, hname⟩⟩)

theorem usageCount_ok {n : ℕ} (h : usageCount uuid db id = .ok n) : ∃ canonical,
    uuid id = some canonical ∧ (n = 0 ↔ (∀ k ∈ db.apiKeys, k.policyID ≠ canonical) ∧
      ∀ rp ∈ db.routePolicies, rp.policyID ≠ canonical) := by
  simp only [usageCount, bind_ok] at h
  obtain ⟨canonical, hid, h⟩ := h
  cases h
  refine ⟨canonical, reference_ok hid, ?_⟩
  simp [List.countP_eq_zero]

theorem deletePolicy_ok (h : deletePolicy uuid db id = .ok db') : ∃ canonical,
    uuid id = some canonical ∧ (∀ k ∈ db.apiKeys, k.policyID ≠ canonical) ∧
      db' = { db with
        policies := remove Policy.id db.policies canonical
        routePolicies := remove RoutePolicy.policyID db.routePolicies canonical } := by
  simp only [deletePolicy, bind_ok] at h
  obtain ⟨canonical, hid, h⟩ := h
  split at h
  · cases h
  · rename_i hfree
    cases h
    refine ⟨canonical, reference_ok hid, fun k hk hpolicy => ?_, rfl⟩
    exact hfree (List.any_eq_true.mpr ⟨k, hk, decide_eq_true hpolicy⟩)

theorem insertKey_ok {name : String} {key row : APIKey}
    (h : insertKey uuid db drawn name key = .ok (row, db')) :
    db' = { db with apiKeys := db.apiKeys ++ [row] } ∧ row.id = drawn ∧
      row.keyHash = key.keyHash ∧ uuid key.policyID = some row.policyID ∧
      row.expiresAt = key.expiresAt ∧ row.revokedAt = none ∧
      (∀ k ∈ db.apiKeys, k.id ≠ drawn ∧ k.keyHash ≠ row.keyHash) ∧
      ∃ p ∈ db.policies, p.id = row.policyID := by
  simp only [insertKey, bind_ok] at h
  obtain ⟨-, -, keyPrefix, -, canonical, hpolicy, h⟩ := h
  split at h
  · cases h
  · rename_i hnew
    split at h
    · cases h
    · rename_i hsome
      cases h
      obtain ⟨p, hp⟩ := Option.ne_none_iff_exists'.mp hsome
      refine ⟨rfl, rfl, rfl, reference_ok hpolicy, rfl, rfl, fun k hk => ?_, ⟨p, find_some hp⟩⟩
      simpa [not_or] using fun hor => hnew (List.any_eq_true.mpr ⟨k, hk, decide_eq_true hor⟩)

theorem revokeKey_ok {now : ℚ} (h : revokeKey uuid db now id = .ok db') : ∃ canonical,
    uuid id = some canonical ∧ db' = { db with
      apiKeys := modify APIKey.id db.apiKeys canonical fun k =>
        { k with revokedAt := some now } } := by
  simp only [revokeKey, bind_ok] at h
  obtain ⟨canonical, hid, h⟩ := h
  cases h
  exact ⟨canonical, reference_ok hid, rfl⟩

/-- The row a `Create` or an `Update` of a route policy asks for. -/
structure Columns (uuid : String → Option String) (route row : RoutePolicy) : Prop where
  method : varchar 12 route.method = .ok row.method
  routePattern : varchar 255 route.routePattern = .ok row.routePattern
  policyID : uuid route.policyID = some row.policyID
  enabled : row.enabled = route.enabled

theorem routeColumns_ok {route columns : RoutePolicy}
    (h : routeColumns uuid route = .ok columns) (id : String) :
    Columns uuid route { columns with id } := by
  simp only [routeColumns, bind_ok] at h
  obtain ⟨method, hmethod, pattern, hpattern, policyID, hpolicy, h⟩ := h
  cases h
  exact ⟨hmethod, hpattern, reference_ok hpolicy, rfl⟩

theorem insertRoute_ok {route row : RoutePolicy}
    (h : insertRoute uuid db drawn route = .ok (row, db')) :
    db' = { db with routePolicies := db.routePolicies ++ [row] } ∧ row.id = drawn ∧
      Columns uuid route row ∧ (∀ rp ∈ db.routePolicies, rp.id ≠ drawn ∧ rp.key ≠ row.key) ∧
      ∃ p ∈ db.policies, p.id = row.policyID := by
  simp only [insertRoute, bind_ok] at h
  obtain ⟨columns, hcolumns, h⟩ := h
  split at h
  · cases h
  · rename_i hnew
    split at h
    · cases h
    · rename_i hsome
      cases h
      obtain ⟨p, hp⟩ := Option.ne_none_iff_exists'.mp hsome
      refine ⟨rfl, rfl, routeColumns_ok hcolumns _, fun rp hrp => ?_, ⟨p, find_some hp⟩⟩
      simpa [not_or] using fun hor => hnew (List.any_eq_true.mpr ⟨rp, hrp, decide_eq_true hor⟩)

theorem updateRoute_ok {route row : RoutePolicy}
    (h : updateRoute uuid db id route = .ok (row, db')) :
    db' = { db with
        routePolicies := modify RoutePolicy.id db.routePolicies row.id fun _ => row } ∧
      uuid id = some row.id ∧ Columns uuid route row ∧ (∃ rp ∈ db.routePolicies, rp.id = row.id) ∧
      (∀ rp ∈ db.routePolicies, rp.id ≠ row.id → rp.key ≠ row.key) ∧
      ∃ p ∈ db.policies, p.id = row.policyID := by
  simp only [updateRoute, bind_ok] at h
  obtain ⟨columns, hcolumns, canonical, hid, h⟩ := h
  split at h
  · cases h
  · rename_i hthere
    split at h
    · cases h
    · rename_i hnew
      split at h
      · cases h
      · rename_i hsome
        cases h
        obtain ⟨rp, hrp⟩ := Option.ne_none_iff_exists'.mp hthere
        obtain ⟨p, hp⟩ := Option.ne_none_iff_exists'.mp hsome
        refine ⟨rfl, reference_ok hid, routeColumns_ok hcolumns _, ⟨rp, find_some hrp⟩,
          fun rp hrp hne hkey => ?_, ⟨p, find_some hp⟩⟩
        exact hnew (List.any_eq_true.mpr ⟨rp, hrp, decide_eq_true ⟨hne, hkey⟩⟩)

theorem deleteRoute_ok (h : deleteRoute uuid db id = .ok db') : ∃ canonical,
    uuid id = some canonical ∧
      db' = { db with routePolicies := remove RoutePolicy.id db.routePolicies canonical } := by
  simp only [deleteRoute, bind_ok] at h
  obtain ⟨canonical, hid, h⟩ := h
  cases h
  exact ⟨canonical, reference_ok hid, rfl⟩

/-! ## The constraints hold -/

theorem WellFormed.insertPolicy {policy row : Policy} (h : WellFormed db)
    (hs : insertPolicy db drawn policy = .ok (row, db')) : WellFormed db' := by
  obtain ⟨rfl, rfl, hstored, hnew⟩ := insertPolicy_ok hs
  exact
    { h with
      policyIds := h.policyIds.concat fun p hp => (hnew p hp).1
      policyNames := h.policyNames.concat fun p hp => (hnew p hp).2
      stored := fun p hp => (List.mem_append.mp hp).elim (h.stored p) fun hp =>
        List.mem_singleton.mp hp ▸ hstored
      keyPolicy := fun k hk => (h.keyPolicy k hk).imp fun p hp =>
        ⟨List.mem_append_left _ hp.1, hp.2⟩
      routePolicy := fun rp hrp => (h.routePolicy rp hrp).imp fun p hp =>
        ⟨List.mem_append_left _ hp.1, hp.2⟩ }

theorem WellFormed.updatePolicy {policy row : Policy} (h : WellFormed db)
    (hs : updatePolicy uuid db id policy = .ok (row, db')) : WellFormed db' := by
  obtain ⟨rfl, hstored, -, hnew⟩ := updatePolicy_ok hs
  have hthere : ∀ p ∈ db.policies, ∃ q ∈ modify Policy.id db.policies row.id fun _ => row,
      q.id = p.id := fun p hp => exists_modify (fun _ _ _ => rfl) hp
  have hfollow : ∀ x : String, (∃ p ∈ db.policies, p.id = x) →
      ∃ q ∈ modify Policy.id db.policies row.id fun _ => row, q.id = x := by
    rintro x ⟨p, hp, rfl⟩
    exact hthere p hp
  exact
    { h with
      policyIds := h.policyIds.modify h.policyIds fun _ _ _ t _ ht => ht
      policyNames := h.policyIds.modify h.policyNames fun _ _ _ t ht hid => hnew t ht hid
      stored := fun p hp => by
        rcases mem_modify.mp hp with ⟨hp, -⟩ | ⟨-, -, -, rfl⟩
        · exact h.stored p hp
        · exact hstored
      keyPolicy := fun k hk => hfollow _ (h.keyPolicy k hk)
      routePolicy := fun rp hrp => hfollow _ (h.routePolicy rp hrp) }

theorem WellFormed.deletePolicy (h : WellFormed db) (hs : deletePolicy uuid db id = .ok db') :
    WellFormed db' := by
  obtain ⟨canonical, -, hfree, rfl⟩ := deletePolicy_ok hs
  exact
    { policyIds := h.policyIds.filter _
      policyNames := h.policyNames.filter _
      stored := fun p hp => h.stored p (mem_remove.mp hp).1
      keyIds := h.keyIds
      keyHashes := h.keyHashes
      keyPolicy := fun k hk => by
        obtain ⟨p, hp, hpk⟩ := h.keyPolicy k hk
        exact ⟨p, mem_remove.mpr ⟨hp, hpk ▸ hfree k hk⟩, hpk⟩
      routeIds := h.routeIds.filter _
      routeKeys := h.routeKeys.filter _
      routePolicy := fun rp hrp => by
        obtain ⟨hrp, hne⟩ := mem_remove.mp hrp
        obtain ⟨p, hp, hprp⟩ := h.routePolicy rp hrp
        exact ⟨p, mem_remove.mpr ⟨hp, hprp ▸ hne⟩, hprp⟩ }

theorem WellFormed.insertKey {name : String} {key row : APIKey} (h : WellFormed db)
    (hs : insertKey uuid db drawn name key = .ok (row, db')) : WellFormed db' := by
  obtain ⟨rfl, rfl, -, -, -, -, hnew, hpolicy⟩ := insertKey_ok hs
  exact
    { h with
      keyIds := h.keyIds.concat fun k hk => (hnew k hk).1
      keyHashes := h.keyHashes.concat fun k hk => (hnew k hk).2
      keyPolicy := fun k hk => (List.mem_append.mp hk).elim (h.keyPolicy k) fun hk =>
        List.mem_singleton.mp hk ▸ hpolicy }

theorem WellFormed.revokeKey {now : ℚ} (h : WellFormed db)
    (hs : revokeKey uuid db now id = .ok db') : WellFormed db' := by
  obtain ⟨canonical, -, rfl⟩ := revokeKey_ok hs
  have hrow : ∀ k ∈ modify APIKey.id db.apiKeys canonical fun k =>
      { k with revokedAt := some now }, ∃ k' ∈ db.apiKeys, k'.policyID = k.policyID := by
    intro k hk
    rcases mem_modify.mp hk with ⟨hk, -⟩ | ⟨k', hk', -, rfl⟩
    · exact ⟨k, hk, rfl⟩
    · exact ⟨k', hk', rfl⟩
  exact
    { h with
      keyIds := h.keyIds.modify h.keyIds fun _ _ hs t _ ht => by simpa [hs] using ht
      keyHashes := h.keyIds.modify h.keyHashes fun s hs hid t ht hne heq =>
        hne ((h.keyHashes.eq_of_key ht hs heq) ▸ hid)
      keyPolicy := fun k hk => by
        obtain ⟨k', hk', heq⟩ := hrow k hk
        exact heq ▸ h.keyPolicy k' hk' }

theorem WellFormed.insertRoute {route row : RoutePolicy} (h : WellFormed db)
    (hs : insertRoute uuid db drawn route = .ok (row, db')) : WellFormed db' := by
  obtain ⟨rfl, rfl, -, hnew, hpolicy⟩ := insertRoute_ok hs
  exact
    { h with
      routeIds := h.routeIds.concat fun rp hrp => (hnew rp hrp).1
      routeKeys := h.routeKeys.concat fun rp hrp => (hnew rp hrp).2
      routePolicy := fun rp hrp => (List.mem_append.mp hrp).elim (h.routePolicy rp) fun hrp =>
        List.mem_singleton.mp hrp ▸ hpolicy }

theorem WellFormed.updateRoute {route row : RoutePolicy} (h : WellFormed db)
    (hs : updateRoute uuid db id route = .ok (row, db')) : WellFormed db' := by
  obtain ⟨rfl, -, -, -, hnew, hpolicy⟩ := updateRoute_ok hs
  exact
    { h with
      routeIds := h.routeIds.modify h.routeIds fun _ _ _ t _ ht => ht
      routeKeys := h.routeIds.modify h.routeKeys fun _ _ _ t ht hid => hnew t ht hid
      routePolicy := fun rp hrp => by
        rcases mem_modify.mp hrp with ⟨hrp, -⟩ | ⟨-, -, -, rfl⟩
        · exact h.routePolicy rp hrp
        · exact hpolicy }

theorem WellFormed.deleteRoute (h : WellFormed db) (hs : deleteRoute uuid db id = .ok db') :
    WellFormed db' := by
  obtain ⟨canonical, -, rfl⟩ := deleteRoute_ok hs
  exact
    { h with
      routeIds := h.routeIds.filter _
      routeKeys := h.routeKeys.filter _
      routePolicy := fun rp hrp => h.routePolicy rp (mem_remove.mp hrp).1 }

end Effects

/-! ## After the migrations -/

/-- The seeded policies, under the ids drawn for them. -/
def migrated (free premium strictLogin : String) : Database :=
  { policies := [⟨free, "free", "token_bucket", 100, 60, 100⟩,
      ⟨premium, "premium", "token_bucket", 1000, 60, 1000⟩,
      ⟨strictLogin, "strict-login", "sliding_window", 10, 60, 10⟩]
    apiKeys := []
    routePolicies := [] }

theorem wellFormed_migrated {free premium strictLogin : String} (h1 : free ≠ premium)
    (h2 : free ≠ strictLogin) (h3 : premium ≠ strictLogin) :
    WellFormed (migrated free premium strictLogin) where
  policyIds := by simp [Keyed, migrated, h1, h2, h3]
  policyNames := by simp [Keyed, migrated]
  stored := by
    intro p hp
    simp only [migrated, List.mem_cons, List.not_mem_nil, or_false] at hp
    rcases hp with rfl | rfl | rfl <;>
      refine ⟨⟨?_, ?_, ?_, ?_⟩, ?_, ?_, ?_⟩ <;> simp only <;> decide
  keyIds := .nil
  keyHashes := .nil
  keyPolicy := nofun
  routeIds := .nil
  routeKeys := .nil
  routePolicy := nofun

end Database

end RateX
