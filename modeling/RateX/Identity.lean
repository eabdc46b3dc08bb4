import RateX.Database

/-!
# Who a request is

`identify`: the key a request presents, looked up by its hash, or else the
address it comes from. The hash (SHA-256, in hexadecimal) is a parameter.
-/

namespace RateX

/-- A request, as far as the middleware reads it: `fullPath` is the route
pattern, empty where none matched; a missing header reads as empty; `clientIP`
is what Gin makes of the connection and its trusted proxies. -/
structure Request where
  method : String
  fullPath : String
  path : String
  header : String → String
  clientIP : String

def bearerToken (header : String) : String :=
  if "Bearer ".toList <+: header.toList then
    trimSpace (.ofList (header.toList.drop "Bearer ".length))
  else ""

def extractAPIKey (req : Request) : String :=
  let key := trimSpace (req.header "X-API-Key")
  if key ≠ "" then key else bearerToken (req.header "Authorization")

def hashAPIKey (sha256 : String → String) (key : String) : String := sha256 (trimSpace key)

inductive IdentifyError where
  | lookup (e : DbError)
  | missingClientIdentity
deriving Repr, DecidableEq

/-- The results of `identify`; a policy is found with a key only. -/
structure Identity where
  identity : String
  identityType : String
  identityValue : String
  policy : Option Policy
deriving DecidableEq

def clientAddress (req : Request) : String :=
  let forwarded := trimSpace (req.header "X-Forwarded-For")
  if forwarded ≠ "" then trimSpace (splitFirst ',' forwarded) else req.clientIP

def identify (sha256 : String → String) (db : Database) (down : Bool) (now : ℚ) (req : Request) :
    Except IdentifyError Identity :=
  let rawKey := extractAPIKey req
  if rawKey ≠ "" then
    match findByHash db down now (hashAPIKey sha256 rawKey) with
    | .error e => .error (.lookup e)
    | .ok (key, policy) => .ok ⟨"key:" ++ key.id, "api_key", key.keyPrefix, some policy⟩
  else
    let ip := clientAddress req
    if ip = "" then .error .missingClientIdentity else .ok ⟨"ip:" ++ ip, "ip", ip, none⟩

theorem clientAddress_of_forwarded {req : Request}
    (h : trimSpace (req.header "X-Forwarded-For") ≠ "") : clientAddress req =
      trimSpace (splitFirst ',' (trimSpace (req.header "X-Forwarded-For"))) := by
  unfold clientAddress
  rw [if_pos h]

/-- A request without a key is its address. -/
theorem identify_of_no_key {req : Request} (h : extractAPIKey req = "") (sha256 : String → String)
    (db : Database) (down : Bool) (now : ℚ) : identify sha256 db down now req =
      if clientAddress req = "" then .error .missingClientIdentity
      else .ok ⟨"ip:" ++ clientAddress req, "ip", clientAddress req, none⟩ := by
  unfold identify
  rw [if_neg (not_not_intro h)]

/-- A request with a key is its key, or nobody. -/
theorem identify_of_key {req : Request} (h : extractAPIKey req ≠ "") (sha256 : String → String)
    (db : Database) (down : Bool) (now : ℚ) {id : Identity}
    (hid : identify sha256 db down now req = .ok id) :
    ∃ key policy, db.activeKey now (hashAPIKey sha256 (extractAPIKey req)) = some (key, policy) ∧
      id = ⟨"key:" ++ key.id, "api_key", key.keyPrefix, some policy⟩ := by
  unfold identify findByHash at hid
  rw [if_pos h] at hid
  cases down with
  | true => simp at hid
  | false =>
      cases hrow : db.activeKey now (hashAPIKey sha256 (extractAPIKey req)) with
      | none => simp [hrow] at hid
      | some row =>
          obtain ⟨key, policy⟩ := row
          simp only [Bool.false_eq_true, if_false, hrow] at hid
          exact ⟨key, policy, rfl, (Except.ok.inj hid).symm⟩

end RateX
