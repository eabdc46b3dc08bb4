import RateX.Policy
import Mathlib.Algebra.Order.Field.Rat

/-!
# The tables, and the queries of the request path

The rows hold the columns that the request path or the admin services read.
A query answers by its first row; the schema's unique columns make it the only
one. A repository call fails as a whole when the database does not answer.
-/

namespace RateX

structure APIKey where
  id : String
  keyPrefix : String
  keyHash : String
  policyID : String
  expiresAt : Option ℚ
  revokedAt : Option ℚ

structure RoutePolicy where
  id : String
  method : String
  routePattern : String
  policyID : String
  enabled : Bool

structure Database where
  policies : List Policy
  apiKeys : List APIKey
  routePolicies : List RoutePolicy

inductive DbError where
  | noRows
  | failed
deriving Repr, DecidableEq

namespace Database

/-- The `join rate_limit_policies p on p.id = …`. -/
def policy (db : Database) (id : String) : Option Policy := db.policies.find? fun p => p.id = id

def activeKey (db : Database) (now : ℚ) (hash : String) : Option (APIKey × Policy) :=
  db.apiKeys.findSome? fun k =>
    if k.keyHash = hash ∧ k.revokedAt = none ∧ ∀ e ∈ k.expiresAt, now < e then
      (db.policy k.policyID).map fun p => (k, p)
    else none

def enabledRoute (db : Database) (method routePattern : String) : Option Policy :=
  db.routePolicies.findSome? fun rp =>
    if rp.enabled = true ∧ rp.method = method ∧ rp.routePattern = routePattern then
      db.policy rp.policyID
    else none

end Database

def findByHash (db : Database) (down : Bool) (now : ℚ) (hash : String) :
    Except DbError (APIKey × Policy) :=
  if down then .error .failed
  else match db.activeKey now hash with
    | some row => .ok row
    | none => .error .noRows

/-- `RoutePolicyRepository.FindPolicy`: no row is not an error. -/
def findPolicy (db : Database) (down : Bool) (method routePattern : String) :
    Except DbError (Option Policy) :=
  if down then .error .failed else .ok (db.enabledRoute (toUpper method) routePattern)

end RateX
