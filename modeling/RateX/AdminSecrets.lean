import RateX.AdminApi

/-!
# What the admin API does not tell

The hash of a key is stored and looked up, and no response depends on it: with
another hash function in its place the same requests get the same responses
(`hashes_hidden`), as long as neither function lets two of the drawn secrets
collide. Of the tables, all but the hashes is the same then (`veil`), and the
hashes agree on which secrets are taken.
-/

namespace RateX

open Transducer Table Database

/-! ## Tables without hashes -/

def APIKey.veil (k : APIKey) : APIKey := { k with keyHash := "" }

def Database.veil (db : Database) : Database := { db with apiKeys := db.apiKeys.map APIKey.veil }

/-- An answer without the hash of its key. -/
def Answer.veil : Answer → Answer
  | .key created => .key { created with apiKey := created.apiKey.veil }
  | answer => answer

/-- No response shows the hash. -/
theorem body_veil (T : Tables) (policyName : String) (answer : Answer) :
    answer.veil.body T policyName = answer.body T policyName := by
  cases answer <;> rfl

/-- Nor do the columns kept apart depend on it. -/
theorem stamp_veil (T : Tables) (demoUser : String) (now : ℚ) (call : AdminCall)
    (answer : Answer) :
    T.stamp demoUser now call answer.veil = T.stamp demoUser now call answer := by
  cases answer with
  | key created => cases call <;> rfl
  | _ => rfl

theorem stamp_with_db (T : Tables) (db : Database) (demoUser : String) (now : ℚ)
    (call : AdminCall) (answer : Answer) :
    { T with db }.stamp demoUser now call answer =
      { T.stamp demoUser now call answer with db } := by
  cases call <;> cases answer <;> rfl

section Statements

variable (uuid : String → Option String) (db : Database)

/-- A result, with the tables it leaves veiled. -/
def veiled {ε α : Type} : Except ε (α × Database) → Except ε (α × Database)
  | .ok (a, db) => .ok (a, db.veil)
  | .error e => .error e

theorem insertPolicy_veil (drawn : String) (policy : Policy) :
    insertPolicy db.veil drawn policy = veiled (insertPolicy db drawn policy) := by
  unfold insertPolicy
  cases policyColumns policy with
  | error e => rfl
  | ok columns =>
      simp only [bind, Except.bind, Database.veil]
      rw [apply_ite veiled]
      rfl

theorem updatePolicy_veil (id : String) (policy : Policy) :
    updatePolicy uuid db.veil id policy = veiled (updatePolicy uuid db id policy) := by
  unfold updatePolicy
  cases policyColumns policy with
  | error e => rfl
  | ok columns =>
      cases reference uuid id with
      | error e => rfl
      | ok canonical =>
          simp only [bind, Except.bind, Database.veil]
          rw [apply_ite veiled, apply_ite veiled]
          rfl

theorem insertRoute_veil (drawn : String) (route : RoutePolicy) :
    insertRoute uuid db.veil drawn route = veiled (insertRoute uuid db drawn route) := by
  unfold insertRoute
  cases routeColumns uuid route with
  | error e => rfl
  | ok columns =>
      simp only [bind, Except.bind, Database.veil]
      rw [apply_ite veiled, apply_ite veiled]
      rfl

theorem updateRoute_veil (id : String) (route : RoutePolicy) :
    updateRoute uuid db.veil id route = veiled (updateRoute uuid db id route) := by
  unfold updateRoute
  cases routeColumns uuid route with
  | error e => rfl
  | ok columns =>
      cases reference uuid id with
      | error e => rfl
      | ok canonical =>
          simp only [bind, Except.bind, Database.veil]
          rw [apply_ite veiled, apply_ite veiled, apply_ite veiled]
          rfl

theorem deleteRoute_veil (id : String) :
    deleteRoute uuid db.veil id = (deleteRoute uuid db id).map Database.veil := by
  unfold deleteRoute
  cases reference uuid id <;> rfl

theorem revokeKey_veil (now : ℚ) (id : String) :
    revokeKey uuid db.veil now id = (revokeKey uuid db now id).map Database.veil := by
  unfold revokeKey
  cases reference uuid id with
  | error e => rfl
  | ok canonical =>
      have hkeys : (modify APIKey.id db.apiKeys canonical fun k =>
            { k with revokedAt := some now }).map APIKey.veil =
          modify APIKey.id (db.apiKeys.map APIKey.veil) canonical fun k =>
            { k with revokedAt := some now } := by
        refine map_modify ?_ ?_ _ _ <;> exact fun _ => rfl
      simp only [bind, Except.bind, Database.veil, pure, Except.pure, Except.map, hkeys]

theorem usageCount_veil (id : String) : usageCount uuid db.veil id = usageCount uuid db id := by
  unfold usageCount Database.veil
  simp only [List.countP_map]
  rfl

theorem deletePolicy_veil (id : String) :
    deletePolicy uuid db.veil id = (deletePolicy uuid db id).map Database.veil := by
  unfold deletePolicy
  cases reference uuid id with
  | error e => rfl
  | ok canonical =>
      simp only [bind, Except.bind, Database.veil, List.any_map, Function.comp_def]
      rw [apply_ite (Except.map _)]
      rfl

end Statements

/-! ## Calls on veiled tables -/

section Calls

variable {uuid : String → Option String} {sha256 sha256' : String → String} {db db' : Database}

theorem sent_veiled {α : Type} (x : Except SqlError (α × Database)) :
    sent (veiled x) = veiled (sent x) := by
  cases x <;> rfl

theorem sent_map {α β : Type} (f : α → β) (x : Except SqlError α) :
    sent (x.map f) = (sent x).map f := by
  cases x <;> rfl

theorem committed_veiled {α : Type} (answer : α → Answer)
    (x : Except ServiceError (α × Database)) :
    committed db.veil answer (veiled x) =
      ((committed db answer x).1, (committed db answer x).2.veil) := by
  cases x <;> rfl

theorem removed_map (x : Except ServiceError Database) :
    removed db.veil (x.map Database.veil) = ((removed db x).1, (removed db x).2.veil) := by
  cases x <;> rfl

theorem policyDelete_veil (id : String) : PolicyRepository.delete uuid db.veil id =
    (PolicyRepository.delete uuid db id).map Database.veil := by
  unfold PolicyRepository.delete
  rw [usageCount_veil, deletePolicy_veil, sent_map]
  cases usageCount uuid db id with
  | error e => rfl
  | ok usageCount =>
      simp only
      rw [apply_ite (Except.map _)]
      rfl

theorem policyCreate_veil (drawn : String) (policy : Policy) :
    PolicyService.create db.veil drawn policy = veiled (PolicyService.create db drawn policy) := by
  unfold PolicyService.create PolicyRepository.create
  cases validatePolicy policy with
  | error message => rfl
  | ok valid => simp only [insertPolicy_veil, sent_veiled]

theorem policyUpdate_veil (id : String) (policy : Policy) :
    PolicyService.update uuid db.veil id policy =
      veiled (PolicyService.update uuid db id policy) := by
  unfold PolicyService.update PolicyRepository.update
  cases validatePolicy policy with
  | error message => rfl
  | ok valid => simp only [updatePolicy_veil, sent_veiled]

theorem routeCreate_veil (drawn : String) (route : RoutePolicy) :
    RoutePolicyService.create uuid db.veil drawn route =
      veiled (RoutePolicyService.create uuid db drawn route) := by
  unfold RoutePolicyService.create RoutePolicyRepository.create
  cases validateRoutePolicy route with
  | error message => rfl
  | ok valid => simp only [insertRoute_veil, sent_veiled]

theorem routeUpdate_veil (id : String) (route : RoutePolicy) :
    RoutePolicyService.update uuid db.veil id route =
      veiled (RoutePolicyService.update uuid db id route) := by
  unfold RoutePolicyService.update RoutePolicyRepository.update
  cases validateRoutePolicy route with
  | error message => rfl
  | ok valid => simp only [updateRoute_veil, sent_veiled]

/-- Whether a call creates a key. -/
def AdminCall.createsKey : AdminCall → Bool
  | .createKey .. => true
  | _ => false

/-- Any other call neither reads a hash nor computes one. -/
theorem admin_veil {e : AdminEvent} (h : e.call.createsKey = false) :
    admin uuid sha256' db.veil e =
      ((admin uuid sha256 db e).1, (admin uuid sha256 db e).2.veil) := by
  obtain ⟨now, call⟩ := e
  cases call with
  | createPolicy drawn policy => simp only [admin, policyCreate_veil, committed_veiled]
  | updatePolicy id policy => simp only [admin, policyUpdate_veil, committed_veiled]
  | deletePolicy id => simp only [admin, policyDelete_veil, removed_map]
  | createKey drawn bytes name policyID => cases h
  | revokeKey id =>
      simp only [admin, APIKeyRepository.revoke, revokeKey_veil, sent_map, removed_map]
  | createRoute drawn route => simp only [admin, routeCreate_veil, committed_veiled]
  | updateRoute id route => simp only [admin, routeUpdate_veil, committed_veiled]
  | deleteRoute id =>
      simp only [admin, RoutePolicyRepository.delete, deleteRoute_veil, sent_map, removed_map]

/-- Whether the hash of a secret is stored. -/
def Taken (sha256 : String → String) (db : Database) (secret : String) : Prop :=
  ∃ k ∈ db.apiKeys, k.keyHash = hashAPIKey sha256 secret

/-- What a `Create` of a key comes to, under either hash function. -/
theorem keyCreate_veil (hveil : db'.veil = db.veil) (drawn name policyID : String)
    (bytes : Vector UInt8 24) (htaken : Taken sha256 db (randomAPIKey bytes) ↔
      Taken sha256' db' (randomAPIKey bytes)) :
    (∃ err, APIKeyService.create uuid sha256 db drawn bytes name policyID = .error err ∧
      APIKeyService.create uuid sha256' db' drawn bytes name policyID = .error err) ∨
    ∃ row row', APIKeyService.create uuid sha256 db drawn bytes name policyID =
        .ok (⟨row, randomAPIKey bytes⟩, { db with apiKeys := db.apiKeys ++ [row] }) ∧
      APIKeyService.create uuid sha256' db' drawn bytes name policyID =
        .ok (⟨row', randomAPIKey bytes⟩, { db' with apiKeys := db'.apiKeys ++ [row'] }) ∧
      row'.veil = row.veil ∧ row.keyHash = hashAPIKey sha256 (randomAPIKey bytes) ∧
      row'.keyHash = hashAPIKey sha256' (randomAPIKey bytes) := by
  have hpolicies : db'.policies = db.policies :=
    show db'.veil.policies = db.veil.policies by rw [hveil]
  have hkeys : db'.apiKeys.map APIKey.veil = db.apiKeys.map APIKey.veil :=
    show db'.veil.apiKeys = db.veil.apiKeys by rw [hveil]
  -- the unique columns refuse the row under both functions, or under neither
  have hunique : (db'.apiKeys.any fun k =>
        k.id = drawn ∨ k.keyHash = hashAPIKey sha256' (randomAPIKey bytes)) =
      db.apiKeys.any fun k =>
        k.id = drawn ∨ k.keyHash = hashAPIKey sha256 (randomAPIKey bytes) := by
    have hview (rows : List APIKey) : (∃ k ∈ rows, k.id = drawn) ↔
        ∃ k ∈ rows.map APIKey.veil, k.id = drawn := by
      simp [APIKey.veil]
    rw [Bool.eq_iff_iff]
    simp only [List.any_eq_true, decide_eq_true_eq, and_or_left, exists_or]
    exact or_congr ((hview _).trans (hkeys ▸ (hview _).symm)) htaken.symm
  unfold APIKeyService.create APIKeyRepository.create insertKey
  simp only [bind, Except.bind, hunique, hpolicies]
  cases varchar 120 name with
  | error e => exact .inl ⟨_, rfl, rfl⟩
  | ok name =>
      cases varchar 32 (keyPrefix (randomAPIKey bytes)) with
      | error e => exact .inl ⟨_, rfl, rfl⟩
      | ok shown =>
          cases reference uuid policyID with
          | error e => exact .inl ⟨_, rfl, rfl⟩
          | ok policyID =>
              simp only
              generalize (db.apiKeys.any fun k =>
                k.id = drawn ∨ k.keyHash = hashAPIKey sha256 (randomAPIKey bytes)) = taken
              generalize find Policy.id db.policies policyID = found
              cases taken with
              | true => exact .inl ⟨_, rfl, rfl⟩
              | false =>
                  cases found with
                  | none => exact .inl ⟨_, rfl, rfl⟩
                  | some policy => exact .inr ⟨_, _, rfl, rfl, rfl, rfl, rfl⟩

end Calls

/-! ## Two hash functions -/

/-- No two secrets that the requests draw collide. -/
def CollisionFree (sha256 : String → String) (run : List ApiRequest) : Prop :=
  ∀ r ∈ run, ∀ s ∈ run, sha256 (randomAPIKey r.bytes) = sha256 (randomAPIKey s.bytes) →
    randomAPIKey r.bytes = randomAPIKey s.bytes

/-- The tables under two hash functions. -/
structure Alike (sha256 sha256' : String → String) (run : List ApiRequest) (db db' : Database) :
    Prop where
  veil : db'.veil = db.veil
  taken : ∀ r ∈ run,
    Taken sha256 db (randomAPIKey r.bytes) ↔ Taken sha256' db' (randomAPIKey r.bytes)

section Alike

variable {uuid : String → Option String} {sha256 sha256' : String → String} {run : List ApiRequest}
  {db db' : Database}

theorem hashAPIKey_inj (hfree : CollisionFree sha256 run) {r s : ApiRequest} (hr : r ∈ run)
    (hs : s ∈ run) : hashAPIKey sha256 (randomAPIKey r.bytes) =
      hashAPIKey sha256 (randomAPIKey s.bytes) ↔ randomAPIKey r.bytes = randomAPIKey s.bytes := by
  refine ⟨fun h => hfree r hr s hs ?_, fun h => by rw [h]⟩
  unfold hashAPIKey at h
  rwa [trimSpace_eq_self (randomAPIKey_not_space _),
    trimSpace_eq_self (randomAPIKey_not_space _)] at h

theorem taken_concat {row : APIKey} {secret : String} :
    Taken sha256 { db with apiKeys := db.apiKeys ++ [row] } secret ↔
      Taken sha256 db secret ∨ row.keyHash = hashAPIKey sha256 secret := by
  simp [Taken, or_and_right, exists_or]

/-- A call that creates no key stores no hash and removes none. -/
theorem taken_admin {e : AdminEvent} (h : e.call.createsKey = false) (secret : String) :
    Taken sha256 (admin uuid sha256 db e).2 secret ↔ Taken sha256 db secret := by
  have hhashes : (admin uuid sha256 db e).2.apiKeys.map APIKey.keyHash =
      db.apiKeys.map APIKey.keyHash := by
    have heffect := admin_effect uuid sha256 db e
    generalize admin uuid sha256 db e = out at heffect ⊢
    obtain ⟨answer, db'⟩ := out
    cases heffect with
    | policyCreated hp => rw [hp.keys]
    | policyUpdated hp => rw [hp.keys]
    | policyDeleted hp => rw [hp.keys]
    | keyCreated hhash hlive hnew => cases h
    | keyRevoked hid =>
        rw [Table.modify, List.map_map]
        refine List.map_congr_left fun k _ => ?_
        simp only [Function.comp_apply]
        split <;> rfl
    | _ => rfl
  have hview (db : Database) : Taken sha256 db secret ↔
      hashAPIKey sha256 secret ∈ db.apiKeys.map APIKey.keyHash := by
    simp [Taken]
  rw [hview, hview, hhashes]

/-- A call is answered alike, and leaves the tables alike. -/
theorem Alike.admin (h : Alike sha256 sha256' run db db') (hfree : CollisionFree sha256 run)
    (hfree' : CollisionFree sha256' run) {req : ApiRequest} (hreq : req ∈ run) {call : AdminCall}
    (hdrawn : ∀ drawn bytes name policyID, call = .createKey drawn bytes name policyID →
      bytes = req.bytes) :
    let out := admin uuid sha256 db ⟨req.now, call⟩
    let out' := admin uuid sha256' db' ⟨req.now, call⟩
    out'.1.map Answer.veil = out.1.map Answer.veil ∧ Alike sha256 sha256' run out.2 out'.2 := by
  intro out out'
  cases hcreates : call.createsKey with
  | false =>
      have hleft := @admin_veil uuid sha256 sha256 db ⟨req.now, call⟩ hcreates
      have hright := @admin_veil uuid sha256' sha256 db' ⟨req.now, call⟩ hcreates
      rw [h.veil] at hright
      obtain ⟨hanswer, hveil⟩ := Prod.mk.inj (hright.symm.trans hleft)
      refine ⟨by rw [hanswer], hveil, fun r hr => ?_⟩
      exact (taken_admin hcreates _).trans ((h.taken r hr).trans (taken_admin hcreates _).symm)
  | true =>
      cases call with
      | createKey drawn bytes name policyID =>
          obtain rfl := hdrawn _ _ _ _ rfl
          rcases @keyCreate_veil uuid _ _ _ _ h.veil drawn name policyID req.bytes
            (h.taken req hreq) with ⟨e, hs, hs'⟩ | ⟨row, row', hs, hs', hveil, hhash, hhash'⟩
          · have hout : out = (.error e, db) := by simp only [out, RateX.admin, hs, committed]
            have hout' : out' = (.error e, db') := by simp only [out', RateX.admin, hs', committed]
            rw [hout, hout']
            exact ⟨rfl, h⟩
          · have hout : out = (.ok (.key ⟨row, randomAPIKey req.bytes⟩),
                { db with apiKeys := db.apiKeys ++ [row] }) := by
              simp only [out, RateX.admin, hs, committed]
            have hout' : out' = (.ok (.key ⟨row', randomAPIKey req.bytes⟩),
                { db' with apiKeys := db'.apiKeys ++ [row'] }) := by
              simp only [out', RateX.admin, hs', committed]
            rw [hout, hout']
            refine ⟨by simp only [Except.map, Answer.veil, hveil], ?_, fun r hr => ?_⟩
            · have htables := h.veil
              simp only [Database.veil, Database.mk.injEq] at htables ⊢
              simp only [htables, hveil, List.map_append, List.map_cons, List.map_nil, and_self]
            · rw [taken_concat, taken_concat, h.taken r hr, hhash, hhash',
                hashAPIKey_inj hfree hreq hr, hashAPIKey_inj hfree' hreq hr]
      | _ => cases hcreates

/-! ### Requests -/

/-- The API with another hash function. -/
def Api.rehashed (api : Api) (sha256' : String → String) : Api := { api with sha256 := sha256' }

/-- The same, with the columns that responses show. -/
structure AlikeTables (sha256 sha256' : String → String) (run : List ApiRequest) (T T' : Tables) :
    Prop where
  db : Alike sha256 sha256' run T.db T'.db
  columns : { T with db := T'.db } = T'

variable {api : Api} {T T' : Tables}

/-- The keys are listed without their hashes. -/
theorem list_veil (T : Tables) (ties : String → ℕ) :
    APIKeyRepository.list { T with db := T.db.veil } ties = APIKeyRepository.list T ties := by
  unfold APIKeyRepository.list Database.veil
  rw [List.filterMap_map]
  rfl

theorem Alike.policies (h : Alike sha256 sha256' run db db') : db'.policies = db.policies :=
  show db'.veil.policies = db.veil.policies by rw [h.veil]

theorem Alike.routes (h : Alike sha256 sha256' run db db') :
    db'.routePolicies = db.routePolicies :=
  show db'.veil.routePolicies = db.veil.routePolicies by rw [h.veil]

/-- The two APIs list the same. -/
theorem AlikeTables.lists (h : AlikeTables sha256 sha256' run T T') (ties : String → ℕ) :
    PolicyRepository.list T' ties = PolicyRepository.list T ties ∧
      APIKeyRepository.list T' ties = APIKeyRepository.list T ties ∧
      RoutePolicyRepository.list T' ties = RoutePolicyRepository.list T ties := by
  obtain ⟨hdb, hcolumns⟩ := h
  rw [← hcolumns]
  refine ⟨?_, ?_, ?_⟩
  · unfold PolicyRepository.list
    rw [hdb.policies]
    rfl
  · rw [← list_veil { T with db := T'.db }, ← list_veil T]
    simp only [hdb.veil]
  · unfold RoutePolicyRepository.list Database.policy
    rw [hdb.policies, hdb.routes]
    rfl

theorem AlikeTables.respond {out out' : Except ServiceError Answer × Tables}
    (success failure : ℕ) (policyName : String)
    (hshown : out'.1.map Answer.veil = out.1.map Answer.veil)
    (h : AlikeTables sha256 sha256' run out.2 out'.2) :
    ((api.rehashed sha256').respond success failure policyName out').1 =
      (api.respond success failure policyName out).1 := by
  obtain ⟨answer, T⟩ := out
  obtain ⟨answer', T'⟩ := out'
  cases answer with
  | error e =>
      cases answer' with
      | error e' =>
          obtain rfl := Except.error.inj hshown
          rfl
      | ok a' => cases hshown
  | ok a =>
      cases answer' with
      | error e' => cases hshown
      | ok a' =>
          have hveil : a'.veil = a.veil := Except.ok.inj hshown
          have hcolumns : { T with db := T'.db } = T' := h.columns
          have hbody : a'.body T' policyName = a.body T policyName := by
            rw [← body_veil, hveil, body_veil, ← hcolumns]
            cases a <;> rfl
          simp only [Api.respond, hbody]

section Handle

variable (h : AlikeTables api.sha256 sha256' run T T') (hfree : CollisionFree api.sha256 run)
  (hfree' : CollisionFree sha256' run) {req : ApiRequest} (hreq : req ∈ run)

include h hfree hfree' hreq

/-- A call comes to the same, but for the hashes. -/
theorem AlikeTables.call (call : AdminCall)
    (hdrawn : ∀ drawn bytes name policyID, call = .createKey drawn bytes name policyID →
      bytes = req.bytes) :
    let out := api.call T req call
    let out' := (api.rehashed sha256').call T' req call
    out'.1.map Answer.veil = out.1.map Answer.veil ∧
      AlikeTables api.sha256 sha256' run out.2 out'.2 := by
  obtain ⟨hshown, halike⟩ := @Alike.admin api.uuid _ _ _ _ _ h.db hfree hfree' req hreq call hdrawn
  simp only [Api.call, Api.rehashed]
  rw [← h.columns]
  revert hshown halike
  generalize RateX.admin api.uuid api.sha256 T.db _ = out
  generalize RateX.admin api.uuid sha256' T'.db _ = out'
  obtain ⟨answer, db⟩ := out
  obtain ⟨answer', db'⟩ := out'
  intro hshown halike
  cases answer with
  | error e =>
      cases answer' with
      | error e' => exact ⟨hshown, halike, rfl⟩
      | ok a' => cases hshown
  | ok a =>
      cases answer' with
      | error e' => cases hshown
      | ok a' =>
          have hveil : a'.veil = a.veil := Except.ok.inj hshown
          have hstamp : { T with db := db' }.stamp api.demoUser req.now call a' =
              { { T with db }.stamp api.demoUser req.now call a with db := db' } := by
            rw [← stamp_veil _ _ _ _ a', hveil, stamp_veil, stamp_with_db T db', stamp_with_db T db]
          refine ⟨hshown, ?_, ?_⟩
          · rw [Tables.stamp_db, Tables.stamp_db]
            exact halike
          · simp only [hstamp]

/-- The handlers that only pass a call on. -/
theorem AlikeTables.passed (call : AdminCall) (success failure : ℕ) (policyName : String)
    (hdrawn : ∀ drawn bytes name policyID, call = .createKey drawn bytes name policyID →
      bytes = req.bytes) :
    let out := api.respond success failure policyName (api.call T req call)
    let out' := (api.rehashed sha256').respond success failure policyName
      ((api.rehashed sha256').call T' req call)
    out'.1 = out.1 ∧ AlikeTables api.sha256 sha256' run out.2 out'.2 := by
  obtain ⟨hshown, halike⟩ := h.call hfree hfree' hreq call hdrawn
  refine ⟨halike.respond success failure policyName hshown, ?_⟩
  rw [respond_tables, respond_tables]
  exact halike

/-- The handlers that bind a body first. -/
theorem AlikeTables.bound {α : Type} (input : Except String α) (next : α → AdminCall)
    (success : ℕ) (policyName : α → String)
    (hdrawn : ∀ a drawn bytes name policyID, next a = .createKey drawn bytes name policyID →
      bytes = req.bytes) :
    let out := RateX.bound T input fun a =>
      api.respond success 400 (policyName a) (api.call T req (next a))
    let out' := RateX.bound T' input fun a =>
      (api.rehashed sha256').respond success 400 (policyName a)
        ((api.rehashed sha256').call T' req (next a))
    out'.1 = out.1 ∧ AlikeTables api.sha256 sha256' run out.2 out'.2 := by
  cases input with
  | error text => exact ⟨rfl, h⟩
  | ok a => exact h.passed hfree hfree' hreq (next a) success 400 (policyName a) (hdrawn a)

/-- The handler that tells its errors apart. -/
theorem AlikeTables.deletePolicy (id : String) :
    let out := PolicyHandler.delete api T req id
    let out' := PolicyHandler.delete (api.rehashed sha256') T' req id
    out'.1 = out.1 ∧ AlikeTables api.sha256 sha256' run out.2 out'.2 := by
  obtain ⟨hshown, halike⟩ := h.call hfree hfree' hreq (.deletePolicy id) fun _ _ _ _ hc => by
    cases hc
  simp only [PolicyHandler.delete]
  revert hshown halike
  generalize api.call T req _ = out
  generalize (api.rehashed sha256').call T' req _ = out'
  obtain ⟨answer, tables⟩ := out
  obtain ⟨answer', tables'⟩ := out'
  intro hshown halike
  cases answer with
  | ok a =>
      cases answer' with
      | ok a' => exact ⟨halike.respond 204 500 "" hshown, halike⟩
      | error e' => cases hshown
  | error e =>
      cases answer' with
      | ok a' => cases hshown
      | error e' =>
          obtain rfl := Except.error.inj hshown
          cases e' <;> exact ⟨rfl, halike⟩

/-- A request gets the same response, and leaves the tables alike. -/
theorem AlikeTables.handle :
    ((api.rehashed sha256').handle T' req).1 = (api.handle T req).1 ∧
      AlikeTables api.sha256 sha256' run (api.handle T req).2
        ((api.rehashed sha256').handle T' req).2 := by
  unfold Api.handle
  cases endpoint req.method req.path with
  | none => exact ⟨rfl, h⟩
  | some e =>
      have hadmits : (api.rehashed sha256').admits req = api.admits req := rfl
      obtain ⟨hpolicies, hkeys, hroutes⟩ := h.lists req.ties
      rw [hadmits]
      cases api.admits req with
      | false => exact ⟨rfl, h⟩
      | true =>
          simp only [if_true]
          cases e with
          | listPolicies => exact ⟨by simp only [Api.serve, hpolicies], h⟩
          | createPolicy =>
              exact h.bound hfree hfree' hreq (api.json.policy req.body) (.createPolicy req.drawn)
                201 (fun _ => "") fun _ _ _ _ _ hc => by cases hc
          | updatePolicy id =>
              exact h.bound hfree hfree' hreq (api.json.policy req.body) (.updatePolicy id) 200
                (fun _ => "") fun _ _ _ _ _ hc => by cases hc
          | deletePolicy id => exact h.deletePolicy hfree hfree' hreq id
          | listKeys => exact ⟨by simp only [Api.serve, hkeys], h⟩
          | createKey =>
              refine h.bound hfree hfree' hreq (createKeyRequest api.json req.body)
                (fun input => .createKey req.drawn req.bytes input.1 input.2) 201 (fun _ => "")
                fun _ _ _ _ _ hc => ?_
              cases hc
              rfl
          | deleteKey id =>
              exact h.passed hfree hfree' hreq (.revokeKey id) 204 500 "" fun _ _ _ _ hc => by
                cases hc
          | recentEvents => exact ⟨rfl, h⟩
          | listRoutes => exact ⟨by simp only [Api.serve, hroutes], h⟩
          | createRoute =>
              exact h.bound hfree hfree' hreq (api.json.routePolicy req.body)
                (fun input => .createRoute req.drawn input.1) 201 Prod.snd
                fun _ _ _ _ _ hc => by cases hc
          | updateRoute id =>
              exact h.bound hfree hfree' hreq (api.json.routePolicy req.body)
                (fun input => .updateRoute id input.1) 200 Prod.snd
                fun _ _ _ _ _ hc => by cases hc
          | deleteRoute id =>
              exact h.passed hfree hfree' hreq (.deleteRoute id) 204 500 "" fun _ _ _ _ hc => by
                cases hc

end Handle

end Alike

/-- **No response tells a hash.** From tables without keys, any run of requests
gets the same responses under any two hash functions that keep the drawn secrets
apart. -/
theorem hashes_hidden (api : Api) (sha256' : String → String) {T : Tables}
    (hempty : T.db.apiKeys = []) {run : List ApiRequest} (hfree : CollisionFree api.sha256 run)
    (hfree' : CollisionFree sha256' run) :
    trace (api.rehashed sha256').handle T run = trace api.handle T run := by
  have hstart : AlikeTables api.sha256 sha256' run T T :=
    ⟨⟨rfl, fun r hr => by simp [Taken, hempty]⟩, rfl⟩
  refine Eq.symm (trace_sim _ _ (S := fun _ => AlikeTables api.sha256 sha256' run)
    (R := fun _ _ => True) (P := (· ∈ run)) (List.pairwise_of_forall fun _ _ => trivial)
    (fun _ hr => hr) hstart fun _ T T' req h _ hreq => ?_).1
  obtain ⟨hsame, halike⟩ := h.handle hfree hfree' hreq
  exact ⟨hsame.symm, halike⟩

theorem hashes_hidden_shop :
    trace (shopApi.rehashed id).handle shopTables shopRun =
      trace shopApi.handle shopTables shopRun := by
  have hbytes : ∀ r ∈ shopRun, r.bytes = .replicate 24 0 := by
    simp [shopRun, shopRequest]
  refine hashes_hidden shopApi id rfl (fun r hr s hs _ => ?_) fun r hr s hs _ => ?_
  · rw [hbytes r hr, hbytes s hs]
  · rw [hbytes r hr, hbytes s hs]

end RateX
