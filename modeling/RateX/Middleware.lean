import RateX.Factory
import RateX.Identity

/-!
# The rate-limiting middleware

`RateLimitWithTelemetry` for one request in its `Situation`. What it is wired
to is an `Env`: limiters are handles `L` into a state `σ`, so that the same
function runs over the factory's heap or over a single limiter. A database that
is down fails the lookups it is down for; the protected handler returns or
panics. `Served` is
what the request leaves behind: whether the handler ran, the reply of an
abort, the headers set, the counters moved and the events sent off. (The
latency histogram is left out: it observes the time taken before its own
`defer` statement.)
-/

namespace RateX

/-- What `c.Next()` does: the handler returns, its reply written, or panics. -/
inductive Handler where
  | returns (status : ℕ)
  | panics

/-- What a request meets: the tables, what of them cannot be reached, and how
the protected handler will end. -/
structure Situation where
  db : Database
  now : ℚ
  keysDown : Bool
  routesDown : Bool
  /-- The middleware was given a route-policy repository. -/
  routed : Bool
  /-- The middleware was given an event repository. -/
  recording : Bool
  handler : Handler
  durationMS : Int

structure Env (σ L : Type) extends Situation where
  cfg : Config
  sha256 : String → String
  defaultLimiter : L
  fromPolicy : σ → Policy → L × σ
  allow : σ → L → String → Outcome × σ

inductive Field where
  | text (s : String)
  | number (n : Int)
deriving DecidableEq

structure AbortReply where
  status : ℕ
  body : List (String × Field)
deriving DecidableEq

structure RequestEvent where
  method : String
  route : String
  identityType : String
  identityValue : String
  policyName : String
  allowed : Bool
  statusCode : ℕ
  requestLimit : Int
  remaining : Int
  retryAfter : Int
  durationMS : Int
deriving DecidableEq

inductive Metric where
  | requestsTotal (route method : String)
  | redisErrorsTotal
  | rejectedRequestsTotal (route : String)
  | allowedRequestsTotal (route : String)
deriving DecidableEq

structure Served where
  ran : Bool
  panicked : Bool
  aborted : Option AbortReply
  headers : List (String × String)
  metrics : List Metric
  events : List RequestEvent
deriving DecidableEq

def routeOf (req : Request) : String := if req.fullPath = "" then req.path else req.fullPath

def setHeaders (r : Result) : List (String × String) :=
  [("X-RateLimit-Limit", toString r.limit), ("X-RateLimit-Remaining", toString r.remaining),
    ("X-RateLimit-Reset", toString r.resetAfter)] ++
    if r.allowed then [] else [("Retry-After", toString r.retryAfter)]

def abort (status : ℕ) (body : List (String × Field)) : Served :=
  { ran := false, panicked := false, aborted := some ⟨status, body⟩, headers := [], metrics := [],
    events := [] }

def next (h : Handler) : Served :=
  { ran := true
    panicked := match h with | .returns _ => false | .panics => true
    aborted := none, headers := [], metrics := [], events := [] }

def policyName : Option Policy → String
  | some policy => policy.name
  | none => "default"

section Middleware

variable {σ L : Type}

/-- The route policy the middleware goes by: an error counts as none. -/
def Env.routePolicy (env : Env σ L) (req : Request) : Option Policy :=
  if env.routed then
    match findPolicy env.db env.routesDown req.method (routeOf req) with
    | .ok found => found
    | .error _ => none
  else none

def Env.limiterFor (env : Env σ L) (s : σ) : Option Policy → L × σ
  | some policy => env.fromPolicy s policy
  | none => (env.defaultLimiter, s)

def Env.event (env : Env σ L) (req : Request) (id : Identity) (policyName : String) (r : Result)
    (statusCode : ℕ) : List RequestEvent :=
  if env.recording then
    [{ method := req.method, route := routeOf req, identityType := id.identityType,
       identityValue := id.identityValue, policyName, allowed := r.allowed, statusCode,
       requestLimit := r.limit, remaining := r.remaining, retryAfter := r.retryAfter,
       durationMS := env.durationMS }]
  else []

def Env.respond (env : Env σ L) (req : Request) (id : Identity) (policyName : String) :
    Outcome → Served
  | .error .panic => { abort 0 [] with panicked := true, aborted := none }
  | .error _ =>
      let served := if env.cfg.rateLimitFailureMode = "open" then
          { next env.handler with headers := [("X-RateLimit-Policy", "fail-open")] }
        else abort 503 [("error", .text "rate_limiter_unavailable")]
      { served with metrics := [.redisErrorsTotal] }
  | .ok r =>
      if r.allowed then
        { next env.handler with
          headers := setHeaders r
          metrics := [.allowedRequestsTotal (routeOf req)]
          events := match env.handler with
            | .returns status => env.event req id policyName r status
            | .panics => [] }
      else
        { abort 429 [("error", .text "rate_limit_exceeded"), ("message", .text "Too many requests"),
            ("retry_after", .number r.retryAfter)] with
          headers := setHeaders r
          metrics := [.rejectedRequestsTotal (routeOf req)]
          events := env.event req id policyName r 429 }

def rateLimitWithTelemetry (env : Env σ L) (req : Request) (s : σ) : Served × σ :=
  let counted := Metric.requestsTotal (routeOf req) req.method
  match identify env.sha256 env.db env.keysDown env.now req with
  | .error _ =>
      ({ abort 401 [("error", .text "invalid_api_key")] with metrics := [counted] }, s)
  | .ok id =>
      let policy := (env.routePolicy req).or id.policy
      let (lim, s) := env.limiterFor s policy
      let (outcome, s) := env.allow s lim (id.identity ++ ":" ++ routeOf req)
      let served := env.respond req id (policyName policy) outcome
      ({ served with metrics := counted :: served.metrics }, s)

/-! ## What the limiter's answer decides -/

variable {env : Env σ L} {req : Request}

theorem respond_ran (id : Identity) (policyName : String) (outcome : Outcome)
    (hmode : env.cfg.rateLimitFailureMode ≠ "open") :
    (env.respond req id policyName outcome).ran = outcome.admits := by
  cases outcome with
  | ok r =>
      cases hr : r.allowed with
      | true => simp [Env.respond, hr, next, Outcome.admits]
      | false => simp [Env.respond, hr, abort, Outcome.admits]
  | error e => cases e <;> simp [Env.respond, hmode, abort, Outcome.admits]

/-- The counter of allowed requests moves with the answers that allow, in every
failure mode. -/
theorem respond_counted (id : Identity) (policyName : String) (outcome : Outcome) :
    .allowedRequestsTotal (routeOf req) ∈ (env.respond req id policyName outcome).metrics ↔
      outcome.admits = true := by
  cases outcome with
  | ok r =>
      cases hr : r.allowed with
      | true => simp [Env.respond, hr, Outcome.admits]
      | false => simp [Env.respond, hr, Outcome.admits]
  | error e => cases e <;> simp [Env.respond, abort, Outcome.admits]

theorem rateLimitWithTelemetry_of_error (env : Env σ L) {req : Request} {e : IdentifyError}
    (h : identify env.sha256 env.db env.keysDown env.now req = .error e) (s : σ) :
    (rateLimitWithTelemetry env req s).1.ran = false ∧
      (rateLimitWithTelemetry env req s).2 = s := by
  simp only [rateLimitWithTelemetry, h]
  exact ⟨rfl, trivial⟩

theorem rateLimitWithTelemetry_of_ok (env : Env σ L) {req : Request} {id : Identity}
    (h : identify env.sha256 env.db env.keysDown env.now req = .ok id) (s : σ) :
    let policy := (env.routePolicy req).or id.policy
    let chosen := env.limiterFor s policy
    let answer := env.allow chosen.2 chosen.1 (id.identity ++ ":" ++ routeOf req)
    let served := env.respond req id (policyName policy) answer.1
    rateLimitWithTelemetry env req s =
      ({ served with metrics := .requestsTotal (routeOf req) req.method :: served.metrics },
        answer.2) := by
  simp only [rateLimitWithTelemetry, h]

end Middleware

end RateX
