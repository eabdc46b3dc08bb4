import RateX.Identity
import RateX.Statements

/-!
# The admin services and their repositories

`PolicyService`, `APIKeyService` and `RoutePolicyService`, with the validation
each makes before its repository sends a statement. An `AdminCall` is one call
of a service with the random values it draws; `admin` serves it, and a call that
returns an error leaves the tables as they were. (The demo user, to whom every
key belongs, is not read by anything here.)
-/

namespace RateX

open Database

inductive ServiceError where
  | invalid (message : String)
  | policyInUse
  | sql (e : SqlError)
deriving Repr, DecidableEq

/-! ## Repositories -/

/-- A statement's error, as the repository returns it. -/
def sent {α : Type} : Except SqlError α → Except ServiceError α
  | .ok a => .ok a
  | .error e => .error (.sql e)

theorem sent_ok {α : Type} {x : Except SqlError α} {a : α} (h : sent x = .ok a) : x = .ok a := by
  unfold sent at h
  split at h
  · rw [Except.ok.inj h]
  · cases h

section Repositories

variable (uuid : String → Option String) (db : Database)

def PolicyRepository.create (drawn : String) (policy : Policy) :
    Except ServiceError (Policy × Database) := sent (db.insertPolicy drawn policy)

def PolicyRepository.update (id : String) (policy : Policy) :
    Except ServiceError (Policy × Database) := sent (db.updatePolicy uuid id policy)

/-- Two statements, here with nothing in between. -/
def PolicyRepository.delete (id : String) : Except ServiceError Database :=
  match db.usageCount uuid id with
  | .error e => .error (.sql e)
  | .ok usageCount =>
      if 0 < usageCount then .error .policyInUse else sent (db.deletePolicy uuid id)

def APIKeyRepository.create (drawn name : String) (key : APIKey) :
    Except ServiceError (APIKey × Database) := sent (db.insertKey uuid drawn name key)

def APIKeyRepository.revoke (now : ℚ) (id : String) : Except ServiceError Database :=
  sent (db.revokeKey uuid now id)

def RoutePolicyRepository.create (drawn : String) (route : RoutePolicy) :
    Except ServiceError (RoutePolicy × Database) :=
  sent (db.insertRoute uuid drawn { route with method := toUpper route.method })

def RoutePolicyRepository.update (id : String) (route : RoutePolicy) :
    Except ServiceError (RoutePolicy × Database) :=
  sent (db.updateRoute uuid id { route with method := toUpper route.method })

def RoutePolicyRepository.delete (id : String) : Except ServiceError Database :=
  sent (db.deleteRoute uuid id)

end Repositories

/-! ## Keys -/

/-- `hex.EncodeToString`. -/
def hexEncode (bytes : List UInt8) : String :=
  .ofList (bytes.flatMap fun b => [Nat.digitChar (b.toNat / 16), Nat.digitChar (b.toNat % 16)])

/-- The secret of a key, from the 24 bytes `rand.Read` fills. -/
def randomAPIKey (bytes : Vector UInt8 24) : String := "rx_live_" ++ hexEncode bytes.toList

/-- The start of a secret; it is ASCII. -/
def keyPrefix (key : String) : String :=
  if key.length ≤ 14 then key else .ofList (key.toList.take 14) ++ "..."

structure CreatedAPIKey where
  apiKey : APIKey
  key : String

def APIKeyService.create (uuid : String → Option String) (sha256 : String → String) (db : Database)
    (drawn : String) (bytes : Vector UInt8 24) (name policyID : String) :
    Except ServiceError (CreatedAPIKey × Database) :=
  let secret := randomAPIKey bytes
  let key : APIKey :=
    { id := "", keyPrefix := keyPrefix secret, keyHash := hashAPIKey sha256 secret, policyID,
      expiresAt := none, revokedAt := none }
  match APIKeyRepository.create uuid db drawn name key with
  | .ok (created, db) => .ok (⟨created, secret⟩, db)
  | .error e => .error e

/-! ## Policies -/

def PolicyService.create (db : Database) (drawn : String) (policy : Policy) :
    Except ServiceError (Policy × Database) :=
  match validatePolicy policy with
  | .error message => .error (.invalid message)
  | .ok policy => PolicyRepository.create db drawn policy

def PolicyService.update (uuid : String → Option String) (db : Database) (id : String)
    (policy : Policy) : Except ServiceError (Policy × Database) :=
  match validatePolicy policy with
  | .error message => .error (.invalid message)
  | .ok policy => PolicyRepository.update uuid db id policy

/-! ## Route policies -/

def validateRoutePolicy (route : RoutePolicy) : Except String RoutePolicy :=
  let method := toUpper (trimSpace route.method)
  let routePattern := trimSpace route.routePattern
  if method = "" ∨ routePattern = "" ∨ route.policyID = "" then
    .error "method, route_pattern, and policy_id are required"
  else
    let enabled := if !route.enabled then true else route.enabled
    .ok { route with method, routePattern, enabled }

def RoutePolicyService.create (uuid : String → Option String) (db : Database) (drawn : String)
    (route : RoutePolicy) : Except ServiceError (RoutePolicy × Database) :=
  match validateRoutePolicy route with
  | .error message => .error (.invalid message)
  | .ok route => RoutePolicyRepository.create uuid db drawn route

def RoutePolicyService.update (uuid : String → Option String) (db : Database) (id : String)
    (route : RoutePolicy) : Except ServiceError (RoutePolicy × Database) :=
  match validateRoutePolicy route with
  | .error message => .error (.invalid message)
  | .ok route => RoutePolicyRepository.update uuid db id route

/-! ## Calls -/

inductive AdminCall where
  | createPolicy (drawn : String) (policy : Policy)
  | updatePolicy (id : String) (policy : Policy)
  | deletePolicy (id : String)
  | createKey (drawn : String) (bytes : Vector UInt8 24) (name policyID : String)
  | revokeKey (id : String)
  | createRoute (drawn : String) (route : RoutePolicy)
  | updateRoute (id : String) (route : RoutePolicy)
  | deleteRoute (id : String)

structure AdminEvent where
  now : ℚ
  call : AdminCall

inductive Answer where
  | policy (policy : Policy)
  | key (created : CreatedAPIKey)
  | route (route : RoutePolicy)
  | done

/-- The answer of a call and the tables it leaves. -/
def committed {α : Type} (db : Database) (answer : α → Answer) :
    Except ServiceError (α × Database) → Except ServiceError Answer × Database
  | .ok (a, db) => (.ok (answer a), db)
  | .error e => (.error e, db)

def removed (db : Database) : Except ServiceError Database → Except ServiceError Answer × Database
  | .ok db => (.ok .done, db)
  | .error e => (.error e, db)

def admin (uuid : String → Option String) (sha256 : String → String) (db : Database)
    (e : AdminEvent) : Except ServiceError Answer × Database :=
  match e.call with
  | .createPolicy drawn policy => committed db .policy (PolicyService.create db drawn policy)
  | .updatePolicy id policy => committed db .policy (PolicyService.update uuid db id policy)
  | .deletePolicy id => removed db (PolicyRepository.delete uuid db id)
  | .createKey drawn bytes name policyID =>
      committed db .key (APIKeyService.create uuid sha256 db drawn bytes name policyID)
  | .revokeKey id => removed db (APIKeyRepository.revoke uuid db e.now id)
  | .createRoute drawn route => committed db .route (RoutePolicyService.create uuid db drawn route)
  | .updateRoute id route => committed db .route (RoutePolicyService.update uuid db id route)
  | .deleteRoute id => removed db (RoutePolicyRepository.delete uuid db id)

/-! ## What a call can do -/

/-- The columns `method` and `route_pattern` that a route policy asks for. -/
def RoutePolicy.normalKey (route : RoutePolicy) : String × String :=
  (toUpper (trimSpace route.method), trimSpace route.routePattern)

/-- The row of a `Create` or an `Update` of a route policy that went through. -/
structure Written (uuid : String → Option String) (route row : RoutePolicy) : Prop where
  key : row.key = route.normalKey
  policyID : uuid route.policyID = some row.policyID
  enabled : row.enabled = true

section Effects

variable {uuid : String → Option String} {sha256 : String → String} {db db' : Database}
  {drawn id : String}

theorem policyCreate_ok {policy row : Policy}
    (h : PolicyService.create db drawn policy = .ok (row, db')) :
    ∃ valid, db.insertPolicy drawn valid = .ok (row, db') := by
  unfold PolicyService.create at h
  split at h
  · cases h
  · exact ⟨_, sent_ok h⟩

theorem policyUpdate_ok {policy row : Policy}
    (h : PolicyService.update uuid db id policy = .ok (row, db')) :
    ∃ valid, db.updatePolicy uuid id valid = .ok (row, db') := by
  unfold PolicyService.update at h
  split at h
  · cases h
  · exact ⟨_, sent_ok h⟩

/-- A deletion with nothing between its statements takes no route policy along. -/
theorem policyDelete_ok (h : PolicyRepository.delete uuid db id = .ok db') :
    db.deletePolicy uuid id = .ok db' ∧ db'.apiKeys = db.apiKeys ∧
      db'.routePolicies = db.routePolicies := by
  unfold PolicyRepository.delete at h
  split at h
  · cases h
  · rename_i usageCount hcount
    split at h
    · cases h
    · rename_i hzero
      obtain ⟨canonical, hid, hfree⟩ := usageCount_ok hcount
      obtain ⟨canonical', hid', -, hdb⟩ := deletePolicy_ok (sent_ok h)
      obtain rfl := Option.some.inj (hid.symm.trans hid')
      refine ⟨sent_ok h, by rw [hdb], ?_⟩
      rw [hdb]
      exact List.filter_eq_self.mpr fun rp hrp =>
        decide_eq_true ((hfree.mp (by omega)).2 rp hrp)

theorem keyCreate_ok {bytes : Vector UInt8 24} {name policyID : String} {created : CreatedAPIKey}
    (h : APIKeyService.create uuid sha256 db drawn bytes name policyID = .ok (created, db')) :
    created.key = randomAPIKey bytes ∧ ∃ key : APIKey, key.policyID = policyID ∧
      key.keyHash = hashAPIKey sha256 created.key ∧
      db.insertKey uuid drawn name key = .ok (created.apiKey, db') := by
  unfold APIKeyService.create at h
  simp only at h
  split at h
  · rename_i hcreate
    cases h
    exact ⟨rfl, _, rfl, rfl, sent_ok hcreate⟩
  · cases h

theorem written_of_columns {route valid row : RoutePolicy}
    (hvalid : validateRoutePolicy route = .ok valid)
    (hrow : Columns uuid { valid with method := toUpper valid.method } row) :
    Written uuid route row := by
  unfold validateRoutePolicy at hvalid
  simp only at hvalid
  split at hvalid
  · cases hvalid
  · obtain rfl := Except.ok.inj hvalid
    have hmethod := varchar_ok hrow.method (by
      simpa only [toUpper_toUpper] using toUpper_trimSpace_getLast route.method)
    have hpattern := varchar_ok hrow.routePattern (trimSpace_getLast route.routePattern)
    refine ⟨?_, hrow.policyID, ?_⟩
    · rw [RoutePolicy.key, hmethod, hpattern]
      simp only [toUpper_toUpper]
      rfl
    · rw [hrow.enabled]
      cases route.enabled <;> rfl

theorem routeCreate_ok {route row : RoutePolicy}
    (h : RoutePolicyService.create uuid db drawn route = .ok (row, db')) :
    Written uuid route row ∧ ∃ valid, db.insertRoute uuid drawn valid = .ok (row, db') := by
  unfold RoutePolicyService.create at h
  split at h
  · cases h
  · rename_i hvalid
    obtain ⟨-, -, hrow, -⟩ := insertRoute_ok (sent_ok h)
    exact ⟨written_of_columns hvalid hrow, _, sent_ok h⟩

theorem routeUpdate_ok {route row : RoutePolicy}
    (h : RoutePolicyService.update uuid db id route = .ok (row, db')) :
    Written uuid route row ∧ ∃ valid, db.updateRoute uuid id valid = .ok (row, db') := by
  unfold RoutePolicyService.update at h
  split at h
  · cases h
  · rename_i hvalid
    obtain ⟨-, -, hrow, -⟩ := updateRoute_ok (sent_ok h)
    exact ⟨written_of_columns hvalid hrow, _, sent_ok h⟩

end Effects

/-- A step of the policies alone. -/
structure OnlyPolicies (db db' : Database) : Prop where
  keys : db'.apiKeys = db.apiKeys
  routes : db'.routePolicies = db.routePolicies

/-- The answers a call may get, each with the tables it leaves. -/
inductive AdminEffect (uuid : String → Option String) (sha256 : String → String) (db : Database) :
    AdminEvent → Except ServiceError Answer → Database → Prop
  | failed {e : AdminEvent} {err : ServiceError} : AdminEffect uuid sha256 db e (.error err) db
  | policyCreated {now : ℚ} {drawn : String} {policy row : Policy} {db' : Database}
      (h : OnlyPolicies db db') :
      AdminEffect uuid sha256 db ⟨now, .createPolicy drawn policy⟩ (.ok (.policy row)) db'
  | policyUpdated {now : ℚ} {id : String} {policy row : Policy} {db' : Database}
      (h : OnlyPolicies db db') :
      AdminEffect uuid sha256 db ⟨now, .updatePolicy id policy⟩ (.ok (.policy row)) db'
  | policyDeleted {now : ℚ} {id : String} {db' : Database} (h : OnlyPolicies db db') :
      AdminEffect uuid sha256 db ⟨now, .deletePolicy id⟩ (.ok .done) db'
  | keyCreated {now : ℚ} {drawn name policyID : String} {bytes : Vector UInt8 24} {row : APIKey}
      (hhash : row.keyHash = hashAPIKey sha256 (randomAPIKey bytes)) (hlive : row.revokedAt = none)
      (hnew : ∀ k ∈ db.apiKeys, k.id ≠ row.id) :
      AdminEffect uuid sha256 db ⟨now, .createKey drawn bytes name policyID⟩
        (.ok (.key ⟨row, randomAPIKey bytes⟩)) { db with apiKeys := db.apiKeys ++ [row] }
  | keyRevoked {now : ℚ} {id canonical : String} (hid : uuid id = some canonical) :
      AdminEffect uuid sha256 db ⟨now, .revokeKey id⟩ (.ok .done) { db with
        apiKeys := Table.modify APIKey.id db.apiKeys canonical fun k =>
          { k with revokedAt := some now } }
  | routeCreated {now : ℚ} {drawn : String} {route row : RoutePolicy}
      (hrow : Written uuid route row) (hnew : ∀ rp ∈ db.routePolicies, rp.id ≠ row.id) :
      AdminEffect uuid sha256 db ⟨now, .createRoute drawn route⟩ (.ok (.route row))
        { db with routePolicies := db.routePolicies ++ [row] }
  | routeUpdated {now : ℚ} {id : String} {route row : RoutePolicy}
      (hrow : Written uuid route row) (hthere : ∃ rp ∈ db.routePolicies, rp.id = row.id) :
      AdminEffect uuid sha256 db ⟨now, .updateRoute id route⟩ (.ok (.route row)) { db with
        routePolicies := Table.modify RoutePolicy.id db.routePolicies row.id fun _ => row }
  | routeDeleted {now : ℚ} {id canonical : String} (hid : uuid id = some canonical) :
      AdminEffect uuid sha256 db ⟨now, .deleteRoute id⟩ (.ok .done) { db with
        routePolicies := Table.remove RoutePolicy.id db.routePolicies canonical }

section Admin

variable (uuid : String → Option String) (sha256 : String → String)

theorem admin_effect (db : Database) (e : AdminEvent) :
    AdminEffect uuid sha256 db e (admin uuid sha256 db e).1 (admin uuid sha256 db e).2 := by
  obtain ⟨now, call⟩ := e
  cases call with
  | createPolicy drawn policy =>
      simp only [admin]
      cases hr : PolicyService.create db drawn policy with
      | error err => exact .failed
      | ok out =>
          obtain ⟨row, db'⟩ := out
          obtain ⟨valid, hs⟩ := policyCreate_ok hr
          obtain ⟨rfl, -⟩ := insertPolicy_ok hs
          exact .policyCreated ⟨rfl, rfl⟩
  | updatePolicy id policy =>
      simp only [admin]
      cases hr : PolicyService.update uuid db id policy with
      | error err => exact .failed
      | ok out =>
          obtain ⟨row, db'⟩ := out
          obtain ⟨valid, hs⟩ := policyUpdate_ok hr
          obtain ⟨rfl, -⟩ := updatePolicy_ok hs
          exact .policyUpdated ⟨rfl, rfl⟩
  | deletePolicy id =>
      simp only [admin]
      cases hr : PolicyRepository.delete uuid db id with
      | error err => exact .failed
      | ok db' => exact .policyDeleted ⟨(policyDelete_ok hr).2.1, (policyDelete_ok hr).2.2⟩
  | createKey drawn bytes name policyID =>
      simp only [admin]
      cases hr : APIKeyService.create uuid sha256 db drawn bytes name policyID with
      | error err => exact .failed
      | ok out =>
          obtain ⟨⟨row, secret⟩, db'⟩ := out
          obtain ⟨rfl, key, -, hhash, hs⟩ := keyCreate_ok hr
          obtain ⟨rfl, rfl, hrow, -, -, hlive, hnew, -⟩ := insertKey_ok hs
          exact .keyCreated (hrow.trans hhash) hlive fun k hk => (hnew k hk).1
  | revokeKey id =>
      simp only [admin]
      cases hr : APIKeyRepository.revoke uuid db now id with
      | error err => exact .failed
      | ok db' =>
          obtain ⟨canonical, hid, rfl⟩ := revokeKey_ok (sent_ok hr)
          exact .keyRevoked hid
  | createRoute drawn route =>
      simp only [admin]
      cases hr : RoutePolicyService.create uuid db drawn route with
      | error err => exact .failed
      | ok out =>
          obtain ⟨row, db'⟩ := out
          obtain ⟨hrow, valid, hs⟩ := routeCreate_ok hr
          obtain ⟨rfl, rfl, -, hnew, -⟩ := insertRoute_ok hs
          exact .routeCreated hrow fun rp hrp => (hnew rp hrp).1
  | updateRoute id route =>
      simp only [admin]
      cases hr : RoutePolicyService.update uuid db id route with
      | error err => exact .failed
      | ok out =>
          obtain ⟨row, db'⟩ := out
          obtain ⟨hrow, valid, hs⟩ := routeUpdate_ok hr
          obtain ⟨rfl, -, -, hthere, -⟩ := updateRoute_ok hs
          exact .routeUpdated hrow hthere
  | deleteRoute id =>
      simp only [admin]
      cases hr : RoutePolicyRepository.delete uuid db id with
      | error err => exact .failed
      | ok db' =>
          obtain ⟨canonical, hid, rfl⟩ := deleteRoute_ok (sent_ok hr)
          exact .routeDeleted hid

/-- A call that fails leaves the tables as they were. -/
theorem admin_failed {db : Database} {e : AdminEvent} {err : ServiceError}
    (h : (admin uuid sha256 db e).1 = .error err) : (admin uuid sha256 db e).2 = db := by
  have heffect := admin_effect uuid sha256 db e
  rw [h] at heffect
  generalize (admin uuid sha256 db e).2 = db' at heffect ⊢
  cases heffect with
  | failed => rfl

/-- Every statement that the admin services send keeps `I`. -/
structure StatementsKeep (I : Database → Prop) : Prop where
  insertPolicy : ∀ {db db' drawn policy row}, I db →
    insertPolicy db drawn policy = .ok (row, db') → I db'
  updatePolicy : ∀ {db db' id policy row}, I db →
    updatePolicy uuid db id policy = .ok (row, db') → I db'
  deletePolicy : ∀ {db db' id}, I db → deletePolicy uuid db id = .ok db' → I db'
  insertKey : ∀ {db db' drawn name key row}, I db →
    insertKey uuid db drawn name key = .ok (row, db') → I db'
  revokeKey : ∀ {db db' now id}, I db → revokeKey uuid db now id = .ok db' → I db'
  insertRoute : ∀ {db db' drawn route row}, I db →
    insertRoute uuid db drawn route = .ok (row, db') → I db'
  updateRoute : ∀ {db db' id route row}, I db →
    updateRoute uuid db id route = .ok (row, db') → I db'
  deleteRoute : ∀ {db db' id}, I db → deleteRoute uuid db id = .ok db' → I db'

section Keep

variable {uuid} {I : Database → Prop} {db : Database}

theorem committed_keeps {α : Type} {answer : α → Answer}
    {x : Except ServiceError (α × Database)} (h : I db) (hx : ∀ a db', x = .ok (a, db') → I db') :
    I (committed db answer x).2 := by
  cases x with
  | error err => exact h
  | ok out => exact hx out.1 out.2 rfl

theorem removed_keeps {x : Except ServiceError Database} (h : I db)
    (hx : ∀ db', x = .ok db' → I db') : I (removed db x).2 := by
  cases x with
  | error err => exact h
  | ok db' => exact hx db' rfl

/-- What every statement keeps, every call keeps. -/
theorem StatementsKeep.admin (hI : StatementsKeep uuid I) (h : I db) (e : AdminEvent) :
    I (admin uuid sha256 db e).2 := by
  obtain ⟨now, call⟩ := e
  unfold RateX.admin
  cases call with
  | createPolicy drawn policy =>
      refine committed_keeps h fun row db' hr => ?_
      obtain ⟨valid, hs⟩ := policyCreate_ok hr
      exact hI.insertPolicy h hs
  | updatePolicy id policy =>
      refine committed_keeps h fun row db' hr => ?_
      obtain ⟨valid, hs⟩ := policyUpdate_ok hr
      exact hI.updatePolicy h hs
  | deletePolicy id =>
      exact removed_keeps h fun db' hr => hI.deletePolicy h (policyDelete_ok hr).1
  | createKey drawn bytes name policyID =>
      refine committed_keeps h fun created db' hr => ?_
      obtain ⟨-, key, -, -, hs⟩ := keyCreate_ok hr
      exact hI.insertKey h hs
  | revokeKey id => exact removed_keeps h fun db' hr => hI.revokeKey h (sent_ok hr)
  | createRoute drawn route =>
      refine committed_keeps h fun row db' hr => ?_
      obtain ⟨-, valid, hs⟩ := routeCreate_ok hr
      exact hI.insertRoute h hs
  | updateRoute id route =>
      refine committed_keeps h fun row db' hr => ?_
      obtain ⟨-, valid, hs⟩ := routeUpdate_ok hr
      exact hI.updateRoute h hs
  | deleteRoute id => exact removed_keeps h fun db' hr => hI.deleteRoute h (sent_ok hr)

end Keep

theorem statementsKeep_wellFormed : StatementsKeep uuid WellFormed where
  insertPolicy h hs := h.insertPolicy hs
  updatePolicy h hs := h.updatePolicy hs
  deletePolicy h hs := h.deletePolicy hs
  insertKey h hs := h.insertKey hs
  revokeKey h hs := h.revokeKey hs
  insertRoute h hs := h.insertRoute hs
  updateRoute h hs := h.updateRoute hs
  deleteRoute h hs := h.deleteRoute hs

theorem admin_wellFormed {db : Database} (h : db.WellFormed) (e : AdminEvent) :
    (admin uuid sha256 db e).2.WellFormed :=
  (statementsKeep_wellFormed uuid).admin sha256 h e

end Admin

end RateX
