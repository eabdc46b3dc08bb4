import Mathlib.Data.Prod.Lex
import RateX.Grouping
import RateX.KeyAuth
import RateX.RecentEvents

/-!
# The admin API

The group of `/api` that `AdminAuth` guards: the routes that `main` registers,
the token, the binding of a body to its input, and what each handler makes of
the answer of its service. The tables are those of the services, in a database
that answers, with the columns that only a response shows beside them (`Tables`).
Decoding JSON is a parameter (`Binding`), as are the text of an error of the
database and the table of events, which nothing here writes.

A list is newest first, and rows of one instant are listed in any order: which
one is drawn by the request.
-/

namespace RateX

open Transducer

/-! ## Requests and responses -/

/-- `encoding/json`, for the three inputs there are; an error is a text. The body of a
route policy may name its policy. -/
structure Binding where
  policy : String → Except String Policy
  createKeyRequest : String → Except String (String × String)
  routePolicy : String → Except String (RoutePolicy × String)

/-- `demoUser` is the id of the user that every key is created for. -/
structure Api where
  adminToken : String
  demoUser : String
  uuid : String → Option String
  sha256 : String → String
  json : Binding
  sqlText : SqlError → String

/-- A request below `/api` that CORS passes on, its path in segments and its query `limit`,
with the time at which it is served, what its handler draws, and what it finds in the table of
events. -/
structure ApiRequest where
  method : String
  path : List String
  limit : Option String
  header : String → String
  body : String
  now : ℚ
  drawn : String
  bytes : Vector UInt8 24
  ties : String → ℕ
  events : List StoredEvent

structure Times where
  createdAt : ℚ
  updatedAt : ℚ
deriving DecidableEq

structure PolicyJSON extends Policy, Times
deriving DecidableEq

/-- A key in a response: the hash is not among its fields. -/
structure KeyJSON where
  id : String
  userID : String
  name : String
  keyPrefix : String
  policyID : String
  policyName : String
  createdAt : ℚ
  expiresAt : Option ℚ
  revokedAt : Option ℚ
deriving DecidableEq

structure RouteJSON extends Times where
  id : String
  method : String
  routePattern : String
  policyID : String
  policyName : String
  enabled : Bool
deriving DecidableEq

inductive Body where
  | empty
  | text (s : String)
  | moved (path : List String)
  | error (text : String)
  | message (error message : String)
  | policy (policy : PolicyJSON)
  | policies (policies : List PolicyJSON)
  | key (key : KeyJSON) (secret : String)
  | keys (keys : List KeyJSON)
  | events (events : List StoredEvent)
  | route (route : RouteJSON)
  | routes (routes : List RouteJSON)
deriving DecidableEq

structure Response where
  status : ℕ
  body : Body
deriving DecidableEq

/-! ## The tables -/

structure KeyColumns where
  userID : String
  name : String
  createdAt : ℚ

/-- The tables; the columns that only a response shows are kept apart, by the id of the row. -/
structure Tables where
  db : Database
  policyTimes : String → Times
  keyColumns : String → KeyColumns
  routeTimes : String → Times

def PolicyJSON.of (times : Times) (p : Policy) : PolicyJSON := { p with toTimes := times }

def KeyJSON.of (policyName : String) (columns : KeyColumns) (k : APIKey) : KeyJSON :=
  { id := k.id, userID := columns.userID, name := columns.name, keyPrefix := k.keyPrefix,
    policyID := k.policyID, policyName, createdAt := columns.createdAt, expiresAt := k.expiresAt,
    revokedAt := k.revokedAt }

def RouteJSON.of (policyName : String) (times : Times) (rp : RoutePolicy) : RouteJSON :=
  { toTimes := times, id := rp.id, method := rp.method, routePattern := rp.routePattern,
    policyID := rp.policyID, policyName, enabled := rp.enabled }

namespace Tables

variable (T : Tables)

def policyJSON (p : Policy) : PolicyJSON := .of (T.policyTimes p.id) p

def keyJSON (policyName : String) (k : APIKey) : KeyJSON := .of policyName (T.keyColumns k.id) k

def routeJSON (policyName : String) (rp : RoutePolicy) : RouteJSON :=
  .of policyName (T.routeTimes rp.id) rp

/-- What a call that went through at `now` writes into the columns kept apart. -/
def stamp (demoUser : String) (now : ℚ) : AdminCall → Answer → Tables
  | .createPolicy .., .policy row =>
      { T with policyTimes := Function.update T.policyTimes row.id ⟨now, now⟩ }
  | .updatePolicy .., .policy row =>
      let times := { T.policyTimes row.id with updatedAt := now }
      { T with policyTimes := Function.update T.policyTimes row.id times }
  | .createKey _ _ name _, .key created =>
      let name := (Database.varchar 120 name).toOption.getD name
      { T with keyColumns := Function.update T.keyColumns created.apiKey.id ⟨demoUser, name, now⟩ }
  | .createRoute .., .route row =>
      { T with routeTimes := Function.update T.routeTimes row.id ⟨now, now⟩ }
  | .updateRoute .., .route row =>
      let times := { T.routeTimes row.id with updatedAt := now }
      { T with routeTimes := Function.update T.routeTimes row.id times }
  | _, _ => T

@[simp] theorem stamp_db (demoUser : String) (now : ℚ) (call : AdminCall) (answer : Answer) :
    (T.stamp demoUser now call answer).db = T.db := by
  unfold stamp
  split <;> rfl

end Tables

/-! ## The lists -/

/-- `order by created_at desc` leaves the rows of one instant in any order. -/
def NewestFirst {ρ : Type} (createdAt : ρ → ℚ) (rows listed : List ρ) : Prop :=
  listed.Perm rows ∧ listed.Pairwise fun r s => createdAt s ≤ createdAt r

/-- One of the orders. -/
def newestFirst {ρ : Type} (createdAt : ρ → ℚ) (id : ρ → String) (ties : String → ℕ)
    (rows : List ρ) : List ρ :=
  Grouping.sorted (fun r => toLex (OrderDual.toDual (createdAt r), ties (id r))) rows

theorem newestFirst_newestFirst {ρ : Type} (createdAt : ρ → ℚ) (id : ρ → String)
    (ties : String → ℕ) (rows : List ρ) :
    NewestFirst createdAt rows (newestFirst createdAt id ties rows) := by
  refine ⟨Grouping.sorted_perm .., (Grouping.sorted_pairwise ..).imp fun {r s} h => ?_⟩
  rcases Prod.Lex.toLex_le_toLex.mp h with hlt | ⟨heq, -⟩
  · exact (OrderDual.toDual_lt_toDual.mp hlt).le
  · exact (OrderDual.toDual.injective heq).ge

def PolicyRepository.list (T : Tables) (ties : String → ℕ) : List PolicyJSON :=
  newestFirst (fun p => p.createdAt) (fun p => p.id) ties (T.db.policies.map T.policyJSON)

def APIKeyRepository.list (T : Tables) (ties : String → ℕ) : List KeyJSON :=
  newestFirst KeyJSON.createdAt KeyJSON.id ties (T.db.apiKeys.filterMap fun k =>
    (T.db.policy k.policyID).map fun p => T.keyJSON p.name k)

def RoutePolicyRepository.list (T : Tables) (ties : String → ℕ) : List RouteJSON :=
  newestFirst (fun rp => rp.createdAt) RouteJSON.id ties (T.db.routePolicies.filterMap fun rp =>
    (T.db.policy rp.policyID).map fun p => T.routeJSON p.name rp)

/-- The rows that `EventHandler.Recent` answers. -/
def recentEvents (req : ApiRequest) : List StoredEvent :=
  (newestFirst StoredEvent.createdAt (fun e => toString e.id) req.ties req.events).take
    (queryLimit req.limit)

theorem answers_recentEvents (req : ApiRequest) :
    Answers req.events req.limit (recentEvents req) :=
  ⟨_, newestFirst_newestFirst .., rfl⟩

/-! ## Handlers -/

/-- `err.Error()`. -/
def Api.errorText (api : Api) : ServiceError → String
  | .invalid message => message
  | .policyInUse => "policy is used by api keys or route policies"
  | .sql e => api.sqlText e

/-- What a response shows of an answer. A key just created comes without the name of its
policy, a route policy with the one that the body gave. -/
def Answer.body (T : Tables) (policyName : String) : Answer → Body
  | .policy row => .policy (T.policyJSON row)
  | .key created => .key (T.keyJSON "" created.apiKey) created.key
  | .route row => .route (T.routeJSON policyName row)
  | .done => .empty

/-- The two statuses of a handler. -/
def Api.respond (api : Api) (success failure : ℕ) (policyName : String) :
    Except ServiceError Answer × Tables → Response × Tables
  | (.ok answer, T) => (⟨success, answer.body T policyName⟩, T)
  | (.error e, T) => (⟨failure, .error (api.errorText e)⟩, T)

def Api.call (api : Api) (T : Tables) (req : ApiRequest) (call : AdminCall) :
    Except ServiceError Answer × Tables :=
  match admin api.uuid api.sha256 T.db ⟨req.now, call⟩ with
  | (.ok answer, db) => (.ok answer, { T with db }.stamp api.demoUser req.now call answer)
  | (.error e, db) => (.error e, { T with db })

/-- `ShouldBindJSON`, and what comes after it. -/
def bound {α : Type} (T : Tables) : Except String α → (α → Response × Tables) → Response × Tables
  | .ok input, next => next input
  | .error text, _ => (⟨400, .error text⟩, T)

def PolicyHandler.create (api : Api) (T : Tables) (req : ApiRequest) : Response × Tables :=
  bound T (api.json.policy req.body) fun input =>
    api.respond 201 400 "" (api.call T req (.createPolicy req.drawn input))

def PolicyHandler.update (api : Api) (T : Tables) (req : ApiRequest) (id : String) :
    Response × Tables :=
  bound T (api.json.policy req.body) fun input =>
    api.respond 200 400 "" (api.call T req (.updatePolicy id input))

def PolicyHandler.delete (api : Api) (T : Tables) (req : ApiRequest) (id : String) :
    Response × Tables :=
  match api.call T req (.deletePolicy id) with
  | (.error .policyInUse, T) => (⟨409, .message "policy_in_use" <|
      "This policy is used by API keys or route policies. Reassign or delete those records " ++
        "before deleting the policy."⟩, T)
  | out => api.respond 204 500 "" out

/-- `binding:"required"`: an empty field counts as missing. -/
def createKeyRequest (json : Binding) (body : String) : Except String (String × String) :=
  let missing (field : String) : String := "Key: 'createKeyRequest." ++ field ++
    "' Error:Field validation for '" ++ field ++ "' failed on the 'required' tag"
  match json.createKeyRequest body with
  | .error text => .error text
  | .ok (name, policyID) =>
      if name = "" ∧ policyID = "" then .error (missing "Name" ++ "\n" ++ missing "PolicyID")
      else if name = "" then .error (missing "Name")
      else if policyID = "" then .error (missing "PolicyID")
      else .ok (name, policyID)

def APIKeyHandler.create (api : Api) (T : Tables) (req : ApiRequest) : Response × Tables :=
  bound T (createKeyRequest api.json req.body) fun input =>
    api.respond 201 400 "" (api.call T req (.createKey req.drawn req.bytes input.1 input.2))

def APIKeyHandler.delete (api : Api) (T : Tables) (req : ApiRequest) (id : String) :
    Response × Tables :=
  api.respond 204 500 "" (api.call T req (.revokeKey id))

def RoutePolicyHandler.create (api : Api) (T : Tables) (req : ApiRequest) : Response × Tables :=
  bound T (api.json.routePolicy req.body) fun input =>
    api.respond 201 400 input.2 (api.call T req (.createRoute req.drawn input.1))

def RoutePolicyHandler.update (api : Api) (T : Tables) (req : ApiRequest) (id : String) :
    Response × Tables :=
  bound T (api.json.routePolicy req.body) fun input =>
    api.respond 200 400 input.2 (api.call T req (.updateRoute id input.1))

def RoutePolicyHandler.delete (api : Api) (T : Tables) (req : ApiRequest) (id : String) :
    Response × Tables :=
  api.respond 204 500 "" (api.call T req (.deleteRoute id))

/-! ## The routes -/

inductive Endpoint where
  | listPolicies
  | createPolicy
  | updatePolicy (id : String)
  | deletePolicy (id : String)
  | listKeys
  | createKey
  | deleteKey (id : String)
  | recentEvents
  | listRoutes
  | createRoute
  | updateRoute (id : String)
  | deleteRoute (id : String)

/-- The routes of the group; a parameter is one segment, and not empty. -/
def endpoint (method : String) (path : List String) : Option Endpoint :=
  match path with
  | ["policies"] =>
      if method = "GET" then some .listPolicies
      else if method = "POST" then some .createPolicy else none
  | ["policies", id] =>
      if id = "" then none
      else if method = "PUT" then some (.updatePolicy id)
      else if method = "DELETE" then some (.deletePolicy id) else none
  | ["keys"] =>
      if method = "GET" then some .listKeys
      else if method = "POST" then some .createKey else none
  | ["keys", id] =>
      if id ≠ "" ∧ method = "DELETE" then some (.deleteKey id) else none
  | ["events"] => if method = "GET" then some .recentEvents else none
  | ["route-policies"] =>
      if method = "GET" then some .listRoutes
      else if method = "POST" then some .createRoute else none
  | ["route-policies", id] =>
      if id = "" then none
      else if method = "PUT" then some (.updateRoute id)
      else if method = "DELETE" then some (.deleteRoute id) else none
  | _ => none

def Api.serve (api : Api) (T : Tables) (req : ApiRequest) : Endpoint → Response × Tables
  | .listPolicies => (⟨200, .policies (PolicyRepository.list T req.ties)⟩, T)
  | .createPolicy => PolicyHandler.create api T req
  | .updatePolicy id => PolicyHandler.update api T req id
  | .deletePolicy id => PolicyHandler.delete api T req id
  | .listKeys => (⟨200, .keys (APIKeyRepository.list T req.ties)⟩, T)
  | .createKey => APIKeyHandler.create api T req
  | .deleteKey id => APIKeyHandler.delete api T req id
  | .recentEvents => (⟨200, .events (RateX.recentEvents req)⟩, T)
  | .listRoutes => (⟨200, .routes (RoutePolicyRepository.list T req.ties)⟩, T)
  | .createRoute => RoutePolicyHandler.create api T req
  | .updateRoute id => RoutePolicyHandler.update api T req id
  | .deleteRoute id => RoutePolicyHandler.delete api T req id

/-- The token that `AdminAuth` looks at. -/
def adminTokenOf (header : String → String) : String :=
  let token := trimSpace (header "X-Admin-Token")
  if token = "" then bearerToken (header "Authorization") else token

def Api.admits (api : Api) (req : ApiRequest) : Bool := adminTokenOf req.header = api.adminToken

/-- Gin's answer to a path that no route has: a route with one slash less is pointed to. -/
def noRoute (req : ApiRequest) : Response :=
  if req.path.getLast? = some "" ∧ (endpoint req.method req.path.dropLast).isSome then
    if req.method = "GET" then ⟨301, .moved req.path.dropLast⟩ else ⟨307, .empty⟩
  else ⟨404, .text "404 page not found"⟩

def Api.handle (api : Api) (T : Tables) (req : ApiRequest) : Response × Tables :=
  match endpoint req.method req.path with
  | none => (noRoute req, T)
  | some e =>
      if api.admits req then api.serve T req e else (⟨401, .error "unauthorized"⟩, T)

/-! ## What a request leaves -/

section Handled

variable {api : Api} {T : Tables}

@[simp] theorem respond_tables (success failure : ℕ) (policyName : String)
    (out : Except ServiceError Answer × Tables) :
    (api.respond success failure policyName out).2 = out.2 := by
  obtain ⟨answer, T⟩ := out
  cases answer <;> rfl

theorem call_db (api : Api) (T : Tables) (req : ApiRequest) (call : AdminCall) :
    (api.call T req call).2.db = (admin api.uuid api.sha256 T.db ⟨req.now, call⟩).2 := by
  unfold Api.call
  generalize admin api.uuid api.sha256 T.db ⟨req.now, call⟩ = out
  obtain ⟨answer, db⟩ := out
  cases answer with
  | ok answer => exact Tables.stamp_db _ api.demoUser req.now call answer
  | error e => rfl

/-- A handler that binds a body comes to one call of a service, or to none. -/
theorem bound_tables {α : Type} (req : ApiRequest) (input : Except String α)
    (next : α → AdminCall) (success : ℕ) (policyName : α → String) :
    let out := bound T input fun a =>
      api.respond success 400 (policyName a) (api.call T req (next a))
    out.2 = T ∨ ∃ call, out.2 = (api.call T req call).2 := by
  cases input with
  | error text => exact .inl rfl
  | ok a => exact .inr ⟨next a, respond_tables ..⟩

/-- A request comes to one call of a service, or to none. -/
theorem handle_tables (api : Api) (T : Tables) (req : ApiRequest) :
    (api.handle T req).2 = T ∨ ∃ call, (api.handle T req).2 = (api.call T req call).2 := by
  unfold Api.handle
  cases endpoint req.method req.path with
  | none => exact .inl rfl
  | some e =>
      cases api.admits req with
      | false => exact .inl rfl
      | true =>
          simp only [if_true]
          cases e with
          | createPolicy =>
              exact bound_tables req (api.json.policy req.body) (.createPolicy req.drawn) 201
                fun _ => ""
          | updatePolicy id =>
              exact bound_tables req (api.json.policy req.body) (.updatePolicy id) 200 fun _ => ""
          | deletePolicy id =>
              refine .inr ⟨.deletePolicy id, ?_⟩
              simp only [Api.serve, PolicyHandler.delete]
              generalize api.call T req (.deletePolicy id) = out
              obtain ⟨answer, T'⟩ := out
              cases answer with
              | ok answer => rfl
              | error e => cases e <;> rfl
          | createKey =>
              exact bound_tables req (createKeyRequest api.json req.body)
                (fun input => .createKey req.drawn req.bytes input.1 input.2) 201 fun _ => ""
          | deleteKey id => exact .inr ⟨.revokeKey id, respond_tables 204 500 "" _⟩
          | createRoute =>
              exact bound_tables req (api.json.routePolicy req.body)
                (fun input => .createRoute req.drawn input.1) 201 Prod.snd
          | updateRoute id =>
              exact bound_tables req (api.json.routePolicy req.body)
                (fun input => .updateRoute id input.1) 200 Prod.snd
          | deleteRoute id => exact .inr ⟨.deleteRoute id, respond_tables 204 500 "" _⟩
          | _ => exact .inl rfl

theorem handle_wellFormed (h : T.db.WellFormed) (req : ApiRequest) :
    (api.handle T req).2.db.WellFormed := by
  rcases handle_tables api T req with heq | ⟨call, heq⟩
  · rwa [heq]
  · rw [heq, call_db]
    exact admin_wellFormed api.uuid api.sha256 h _

theorem after_wellFormed (h : T.db.WellFormed) (run : List ApiRequest) :
    (after api.handle T run).db.WellFormed := by
  induction run generalizing T with
  | nil => exact h
  | cons req run ih => exact ih (handle_wellFormed h req)

end Handled

/-! ## A shop -/

def shopBody : String := "\x7b\"name\":\"shop\",\"policy_id\":\"1\"\x7d"

def shopApi : Api where
  adminToken := "dev-admin-token"
  demoUser := "9"
  uuid := some
  sha256 := zeroHash
  json :=
    { policy := fun _ => .error "EOF"
      createKeyRequest := fun body => if body = shopBody then .ok ("shop", "1") else .error "EOF"
      routePolicy := fun _ => .error "EOF" }
  sqlText := fun _ => ""

/-- The freshly migrated tables, whose rows are of one instant. -/
def shopTables : Tables where
  db := Database.migrated "1" "2" "3"
  policyTimes := fun _ => ⟨0, 0⟩
  keyColumns := fun _ => ⟨"", "", 0⟩
  routeTimes := fun _ => ⟨0, 0⟩

def shopRequest (method token : String) : ApiRequest where
  method
  path := ["keys"]
  limit := none
  header := fun name => if name = "X-Admin-Token" then token else ""
  body := shopBody
  now := 1
  drawn := "7"
  bytes := .replicate 24 0
  ties := fun _ => 0
  events := []

/-- A key is created, then the list is asked for without the token. -/
def shopRun : List ApiRequest :=
  [shopRequest "POST" "dev-admin-token", shopRequest "GET" ""]

end RateX
