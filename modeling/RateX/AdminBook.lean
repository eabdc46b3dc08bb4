import Mathlib.Data.List.Basic
import RateX.AdminApi

/-!
# The book of the admin API

What a client can tell from the responses alone. It keeps a book: it enters what
is created and what is updated, strikes what is deleted, and marks a revoked key
(`Book.record`), and it looks at no response but those to requests with the
token. After any run a list is the book, newest first (`listed_exact`), so that
no response says what did not happen and nothing happens that no response says.

The book has no names of policies: a response to the creation of a route policy
repeats the one that the body gave, whatever the policy is called.
-/

namespace RateX

open Transducer Table Database

/-! ## The book -/

/-- The rows as responses show them, in the order of creation. -/
structure Book where
  policies : List PolicyJSON
  keys : List KeyJSON
  routes : List RouteJSON

def Book.of (T : Tables) : Book :=
  { policies := T.db.policies.map T.policyJSON
    keys := T.db.apiKeys.map (T.keyJSON "")
    routes := T.db.routePolicies.map (T.routeJSON "") }

def KeyJSON.unnamed (k : KeyJSON) : KeyJSON := { k with policyName := "" }

def RouteJSON.unnamed (rp : RouteJSON) : RouteJSON := { rp with policyName := "" }

/-- What the response to a request at `now` says was done. -/
def Book.note (uuid : String → Option String) (b : Book) (now : ℚ) (res : Response) :
    Endpoint → Book
  | .createPolicy =>
      match res.body with
      | .policy row => { b with policies := b.policies ++ [row] }
      | _ => b
  | .updatePolicy _ =>
      match res.body with
      | .policy row =>
          { b with policies := modify (fun p => p.id) b.policies row.id fun _ => row }
      | _ => b
  | .deletePolicy id =>
      match if res.status = 204 then uuid id else none with
      | some id => { b with policies := remove (fun p => p.id) b.policies id }
      | none => b
  | .createKey =>
      match res.body with
      | .key row _ => { b with keys := b.keys ++ [row] }
      | _ => b
  | .deleteKey id =>
      match if res.status = 204 then uuid id else none with
      | some id => { b with
          keys := modify KeyJSON.id b.keys id fun k => { k with revokedAt := some now } }
      | none => b
  | .createRoute =>
      match res.body with
      | .route row => { b with routes := b.routes ++ [row.unnamed] }
      | _ => b
  | .updateRoute _ =>
      match res.body with
      | .route row =>
          { b with routes := modify RouteJSON.id b.routes row.id fun _ => row.unnamed }
      | _ => b
  | .deleteRoute id =>
      match if res.status = 204 then uuid id else none with
      | some id => { b with routes := remove RouteJSON.id b.routes id }
      | none => b
  | _ => b

def Book.record (uuid : String → Option String) (b : Book) (p : ApiRequest × Response) : Book :=
  match endpoint p.1.method p.1.path with
  | some e => b.note uuid p.1.now p.2 e
  | none => b

/-- What the responses to the requests with the token say was done. -/
def Book.replay (api : Api) (b : Book) (past : List (ApiRequest × Response)) : Book :=
  (past.filter fun p => api.admits p.1).foldl (Book.record api.uuid) b

/-! ## One request -/

section Handlers

variable {api : Api} {T : Tables} {req : ApiRequest}

theorem book_policyCreate :
    let out := PolicyHandler.create api T req
    Book.of out.2 = (Book.of T).note api.uuid req.now out.1 .createPolicy := by
  unfold PolicyHandler.create
  cases api.json.policy req.body with
  | error text => rfl
  | ok input =>
      simp only [bound, Api.call, admin]
      cases hr : PolicyService.create T.db req.drawn input with
      | error e => rfl
      | ok out =>
          obtain ⟨row, db'⟩ := out
          obtain ⟨valid, hs⟩ := policyCreate_ok hr
          obtain ⟨rfl, hid, -, hnew⟩ := insertPolicy_ok hs
          have hrows := map_update_of_fresh Policy.id T.policyTimes ⟨req.now, req.now⟩
            PolicyJSON.of fun p hp => hid ▸ (hnew p hp).1
          simp only [committed, Api.respond, Tables.stamp, Book.note, Answer.body, Book.of,
            List.map_append]
          exact congrArg (fun rows => Book.mk (rows ++ [_]) _ _) hrows

theorem book_policyUpdate (id : String) :
    let out := PolicyHandler.update api T req id
    Book.of out.2 = (Book.of T).note api.uuid req.now out.1 (.updatePolicy id) := by
  unfold PolicyHandler.update
  cases api.json.policy req.body with
  | error text => rfl
  | ok input =>
      simp only [bound, Api.call, admin]
      cases hr : PolicyService.update api.uuid T.db id input with
      | error e => rfl
      | ok out =>
          obtain ⟨row, db'⟩ := out
          obtain ⟨valid, hs⟩ := policyUpdate_ok hr
          obtain ⟨rfl, -⟩ := updatePolicy_ok hs
          have hrows := map_modify_update Policy.id T.policyTimes
            { T.policyTimes row.id with updatedAt := req.now } PolicyJSON.of
            (fun p : PolicyJSON => p.id) (fun _ _ => rfl) T.db.policies row
          simp only [committed, Api.respond, Tables.stamp, Book.note, Answer.body, Book.of,
            Tables.policyJSON, Function.update_self]
          exact congrArg (Book.mk · _ _) hrows

theorem book_policyDelete (id : String) :
    let out := PolicyHandler.delete api T req id
    Book.of out.2 = (Book.of T).note api.uuid req.now out.1 (.deletePolicy id) := by
  simp only [PolicyHandler.delete, Api.call, admin]
  cases hr : PolicyRepository.delete api.uuid T.db id with
  | error e => cases e <;> rfl
  | ok db' =>
      obtain ⟨hs, -, hroutes⟩ := policyDelete_ok hr
      obtain ⟨canonical, hid, -, rfl⟩ := deletePolicy_ok hs
      have hrows : (remove Policy.id T.db.policies canonical).map T.policyJSON =
          remove (fun p : PolicyJSON => p.id) (T.db.policies.map T.policyJSON) canonical := by
        refine map_remove ?_ _ _
        exact fun _ => rfl
      simp only [removed, Tables.stamp, Api.respond, Book.note, Answer.body, hid, if_true, Book.of,
        hroutes]
      exact congrArg (Book.mk · _ _) hrows

theorem book_keyCreate :
    let out := APIKeyHandler.create api T req
    Book.of out.2 = (Book.of T).note api.uuid req.now out.1 .createKey := by
  unfold APIKeyHandler.create
  cases createKeyRequest api.json req.body with
  | error text => rfl
  | ok input =>
      simp only [bound, Api.call, admin]
      cases hr : APIKeyService.create api.uuid api.sha256 T.db req.drawn req.bytes input.1
        input.2 with
      | error e => rfl
      | ok out =>
          obtain ⟨created, db'⟩ := out
          obtain ⟨-, key, -, -, hs⟩ := keyCreate_ok hr
          obtain ⟨rfl, hid, -, -, -, -, hnew, -⟩ := insertKey_ok hs
          have hrows := map_update_of_fresh APIKey.id T.keyColumns
            ⟨api.demoUser, (varchar 120 input.1).toOption.getD input.1, req.now⟩
            (KeyJSON.of "") fun k hk => hid ▸ (hnew k hk).1
          simp only [committed, Api.respond, Tables.stamp, Book.note, Answer.body, Book.of,
            List.map_append]
          exact congrArg (fun rows => Book.mk _ (rows ++ [_]) _) hrows

theorem book_keyDelete (id : String) :
    let out := APIKeyHandler.delete api T req id
    Book.of out.2 = (Book.of T).note api.uuid req.now out.1 (.deleteKey id) := by
  simp only [APIKeyHandler.delete, Api.call, admin]
  cases hr : APIKeyRepository.revoke api.uuid T.db req.now id with
  | error e => rfl
  | ok db' =>
      obtain ⟨canonical, hid, rfl⟩ := revokeKey_ok (sent_ok hr)
      have hrows : (modify APIKey.id T.db.apiKeys canonical fun k =>
            { k with revokedAt := some req.now }).map (T.keyJSON "") =
          modify KeyJSON.id (T.db.apiKeys.map (T.keyJSON "")) canonical fun k =>
            { k with revokedAt := some req.now } := by
        refine map_modify ?_ ?_ _ _ <;> exact fun _ => rfl
      simp only [removed, Tables.stamp, Api.respond, Book.note, Answer.body, hid, if_true, Book.of]
      exact congrArg (Book.mk _ · _) hrows

theorem book_routeCreate :
    let out := RoutePolicyHandler.create api T req
    Book.of out.2 = (Book.of T).note api.uuid req.now out.1 .createRoute := by
  unfold RoutePolicyHandler.create
  cases api.json.routePolicy req.body with
  | error text => rfl
  | ok input =>
      simp only [bound, Api.call, admin]
      cases hr : RoutePolicyService.create api.uuid T.db req.drawn input.1 with
      | error e => rfl
      | ok out =>
          obtain ⟨row, db'⟩ := out
          obtain ⟨-, valid, hs⟩ := routeCreate_ok hr
          obtain ⟨rfl, hid, -, hnew, -⟩ := insertRoute_ok hs
          have hrows := map_update_of_fresh RoutePolicy.id T.routeTimes ⟨req.now, req.now⟩
            (RouteJSON.of "") fun rp hrp => hid ▸ (hnew rp hrp).1
          simp only [committed, Api.respond, Tables.stamp, Book.note, Answer.body, Book.of,
            List.map_append]
          exact congrArg (fun rows => Book.mk _ _ (rows ++ [_])) hrows

theorem book_routeUpdate (id : String) :
    let out := RoutePolicyHandler.update api T req id
    Book.of out.2 = (Book.of T).note api.uuid req.now out.1 (.updateRoute id) := by
  unfold RoutePolicyHandler.update
  cases api.json.routePolicy req.body with
  | error text => rfl
  | ok input =>
      simp only [bound, Api.call, admin]
      cases hr : RoutePolicyService.update api.uuid T.db id input.1 with
      | error e => rfl
      | ok out =>
          obtain ⟨row, db'⟩ := out
          obtain ⟨-, valid, hs⟩ := routeUpdate_ok hr
          obtain ⟨rfl, -⟩ := updateRoute_ok hs
          have hrows := map_modify_update RoutePolicy.id T.routeTimes
            { T.routeTimes row.id with updatedAt := req.now } (RouteJSON.of "") RouteJSON.id
            (fun _ _ => rfl) T.db.routePolicies row
          simp only [committed, Api.respond, Tables.stamp, Book.note, Answer.body, Book.of,
            Tables.routeJSON, Function.update_self]
          exact congrArg (Book.mk _ _) hrows

theorem book_routeDelete (id : String) :
    let out := RoutePolicyHandler.delete api T req id
    Book.of out.2 = (Book.of T).note api.uuid req.now out.1 (.deleteRoute id) := by
  simp only [RoutePolicyHandler.delete, Api.call, admin]
  cases hr : RoutePolicyRepository.delete api.uuid T.db id with
  | error e => rfl
  | ok db' =>
      obtain ⟨canonical, hid, rfl⟩ := deleteRoute_ok (sent_ok hr)
      have hrows : (remove RoutePolicy.id T.db.routePolicies canonical).map (T.routeJSON "") =
          remove RouteJSON.id (T.db.routePolicies.map (T.routeJSON "")) canonical := by
        refine map_remove ?_ _ _
        exact fun _ => rfl
      simp only [removed, Tables.stamp, Api.respond, Book.note, Answer.body, hid, if_true, Book.of]
      exact congrArg (Book.mk _ _) hrows

end Handlers

/-! ## A whole run -/

section Runs

variable {api : Api} {T : Tables}

theorem book_handle (api : Api) (T : Tables) (req : ApiRequest) :
    Book.of (api.handle T req).2 = if api.admits req then
      (Book.of T).record api.uuid (req, (api.handle T req).1) else Book.of T := by
  unfold Api.handle Book.record
  cases endpoint req.method req.path with
  | none => exact (ite_self _).symm
  | some e =>
      cases api.admits req with
      | false => rfl
      | true =>
          cases e with
          | createPolicy => exact book_policyCreate
          | updatePolicy id => exact book_policyUpdate id
          | deletePolicy id => exact book_policyDelete id
          | createKey => exact book_keyCreate
          | deleteKey id => exact book_keyDelete id
          | createRoute => exact book_routeCreate
          | updateRoute id => exact book_routeUpdate id
          | deleteRoute id => exact book_routeDelete id
          | _ => rfl

theorem book_after (api : Api) (T : Tables) (run : List ApiRequest) :
    Book.of (after api.handle T run) = (Book.of T).replay api (trace api.handle T run) := by
  induction run generalizing T with
  | nil => rfl
  | cons req run ih =>
      have hone := book_handle api T req
      rw [after_cons, ih, trace_cons, hone]
      unfold Book.replay
      cases hadmits : api.admits req with
      | true => simp only [List.filter_cons, hadmits, if_true, List.foldl_cons]
      | false => simp only [List.filter_cons, hadmits, Bool.false_eq_true, if_false]

/-- A list in the response to `req` is the book, newest first, with the names that policies have
now; one of events is of those there were. -/
def Book.Shown (b : Book) (req : ApiRequest) (res : Response) : Endpoint → Prop
  | .listPolicies => ∃ listed, res = ⟨200, .policies listed⟩ ∧
      NewestFirst (fun p => p.createdAt) b.policies listed
  | .listKeys => ∃ listed, res = ⟨200, .keys listed⟩ ∧
      NewestFirst KeyJSON.createdAt b.keys (listed.map KeyJSON.unnamed) ∧
      ∀ k ∈ listed, ∃ p ∈ b.policies, p.id = k.policyID ∧ p.name = k.policyName
  | .listRoutes => ∃ listed, res = ⟨200, .routes listed⟩ ∧
      NewestFirst (fun rp => rp.createdAt) b.routes (listed.map RouteJSON.unnamed) ∧
      ∀ rp ∈ listed, ∃ p ∈ b.policies, p.id = rp.policyID ∧ p.name = rp.policyName
  | .recentEvents => ∃ events, res = ⟨200, .events events⟩ ∧ Answers req.events req.limit events
  | _ => True

theorem NewestFirst.map {ρ ρ' : Type} {createdAt : ρ → ℚ} {createdAt' : ρ' → ℚ} {f : ρ → ρ'}
    (hf : ∀ r, createdAt' (f r) = createdAt r) {rows listed : List ρ}
    (h : NewestFirst createdAt rows listed) :
    NewestFirst createdAt' (rows.map f) (listed.map f) := by
  refine ⟨h.1.map f, List.pairwise_map.mpr (h.2.imp fun hrs => ?_)⟩
  rwa [hf, hf]

/-- A join on policies that are there drops no row. -/
theorem filterMap_join {α γ : Type} {db : Database} {rows : List α} {id : α → String}
    (hthere : ∀ a ∈ rows, ∃ p ∈ db.policies, p.id = id a) (view : String → α → γ) :
    (rows.filterMap fun a => (db.policy (id a)).map fun p => view p.name a) =
      rows.map fun a => view (((db.policy (id a)).map Policy.name).getD "") a := by
  rw [← List.filterMap_eq_map]
  refine List.filterMap_congr fun a ha => ?_
  obtain ⟨p, hp, hid⟩ := hthere a ha
  obtain ⟨q, hq⟩ := exists_find Policy.id hp hid
  have hlookup : db.policy (id a) = some q := hq
  rw [Function.comp_apply, hlookup]
  rfl

/-- What a join shows has the name of a policy in the book. -/
theorem name_of_join {α γ : Type} {rows : List α} {id : α → String} {view : String → α → γ}
    {v : γ} (hv : v ∈ rows.filterMap fun a => (T.db.policy (id a)).map fun p => view p.name a) :
    ∃ a, ∃ p ∈ (Book.of T).policies, p.id = id a ∧ v = view p.name a := by
  obtain ⟨a, -, ha⟩ := List.mem_filterMap.mp hv
  obtain ⟨p, hp, rfl⟩ := Option.map_eq_some_iff.mp ha
  exact ⟨a, _, List.mem_map_of_mem (find_some hp).1, (find_some hp).2, rfl⟩

theorem shown_serve (h : T.db.WellFormed) (api : Api) (req : ApiRequest) (e : Endpoint) :
    (Book.of T).Shown req (api.serve T req e).1 e := by
  cases e with
  | listPolicies => exact ⟨_, rfl, newestFirst_newestFirst ..⟩
  | listKeys =>
      have hrows : (T.db.apiKeys.filterMap fun k => (T.db.policy k.policyID).map fun p =>
          T.keyJSON p.name k).map KeyJSON.unnamed = (Book.of T).keys := by
        rw [filterMap_join h.keyPolicy, List.map_map]
        rfl
      refine ⟨_, rfl, ?_, fun k hk => ?_⟩
      · rw [← hrows]
        refine (newestFirst_newestFirst ..).map ?_
        exact fun _ => rfl
      · obtain ⟨row, p, hp, hid, rfl⟩ :=
          name_of_join ((newestFirst_newestFirst ..).1.mem_iff.mp hk)
        exact ⟨p, hp, hid, rfl⟩
  | listRoutes =>
      have hrows : (T.db.routePolicies.filterMap fun rp => (T.db.policy rp.policyID).map fun p =>
          T.routeJSON p.name rp).map RouteJSON.unnamed = (Book.of T).routes := by
        rw [filterMap_join h.routePolicy, List.map_map]
        rfl
      refine ⟨_, rfl, ?_, fun rp hrp => ?_⟩
      · rw [← hrows]
        refine (newestFirst_newestFirst ..).map ?_
        exact fun _ => rfl
      · obtain ⟨row, p, hp, hid, rfl⟩ :=
          name_of_join ((newestFirst_newestFirst ..).1.mem_iff.mp hrp)
        exact ⟨p, hp, hid, rfl⟩
  | recentEvents => exact ⟨_, rfl, answers_recentEvents req⟩
  | _ => trivial

/-- **The lists are exact.** After any run of requests, with the token and
without, a request for a list gets what the responses to the requests with the
token said was done to the tables there were. -/
theorem listed_exact (api : Api) (h : T.db.WellFormed) (run : List ApiRequest) {req : ApiRequest}
    (hadmits : api.admits req = true) {e : Endpoint}
    (he : endpoint req.method req.path = some e) :
    ((Book.of T).replay api (trace api.handle T run)).Shown req
      (api.handle (after api.handle T run) req).1 e := by
  rw [← book_after, Api.handle, he]
  simp only [hadmits, if_true]
  exact shown_serve (after_wellFormed h run) api req e

/-- The key of the shop is listed. -/
theorem listed_exact_shop :
    let req := shopRequest "GET" " dev-admin-token "
    ((Book.of shopTables).replay shopApi (trace shopApi.handle shopTables shopRun)).Shown req
      (shopApi.handle (after shopApi.handle shopTables shopRun) req).1 .listKeys :=
  listed_exact shopApi
    (show (migrated "1" "2" "3").WellFormed from
      wellFormed_migrated (by decide) (by decide) (by decide))
    shopRun (by decide +kernel) rfl

end Runs

end RateX
