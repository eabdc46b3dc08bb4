import RateX.Admission
import RateX.Server

/-!
# Clients without a key, behind nginx

nginx puts the peer address after whatever `X-Forwarded-For` the client sent;
`identify` takes the element in front. So the identity is the peer's where the
client sends no such header, and otherwise whatever the client put before its
first comma, or nothing. A run of requests has one identity, and with it one
budget, exactly when the client sends the same non-empty element each time
(`oneBudget_iff`).
-/

namespace RateX

namespace ForwardedFor

open Redis Transducer Timeline

/-- The text of a peer address, nginx's `$remote_addr`. -/
structure Peer where
  text : String
  nonempty : text ≠ ""
  plain : ∀ c ∈ text.toList, c ≠ ',' ∧ isSpace c = false

/-- nginx's `$proxy_add_x_forwarded_for`, of what the client sent. -/
def proxyAddXForwardedFor (peer : Peer) : Option String → String
  | none => peer.text
  | some text => text ++ ", " ++ peer.text

/-- A request as the client sends it, its `X-Forwarded-For` set apart. -/
structure Sent where
  request : Request
  forwarded : Option String
  situation : Situation
  arrival : Arrival

def Sent.proxied (peer : Peer) (x : Sent) : Request :=
  { x.request with
    header := Function.update x.request.header "X-Forwarded-For"
      (proxyAddXForwardedFor peer x.forwarded) }

/-- The element in front: the client's where it sent any. -/
def firstElement (peer : Peer) : Option String → String
  | none => peer.text
  | some text => trimSpace (splitFirst ',' text)

/-! ## The identity -/

variable {peer : Peer}

theorem Peer.trimSpace_text (peer : Peer) : trimSpace peer.text = peer.text := by
  rw [trimSpace, trimFunc_eq_self, String.ofList_toList]
  · intro c hc
    exact (peer.plain c (List.mem_of_mem_head? hc)).2
  · intro c hc
    exact (peer.plain c (List.mem_of_mem_getLast? hc)).2

theorem Peer.splitFirst_text (peer : Peer) : splitFirst ',' peer.text = peer.text := by
  rw [splitFirst, List.takeWhile_eq_self_iff.mpr, String.ofList_toList]
  intro c hc
  exact decide_eq_true (peer.plain c hc).1

/-- A header with a comma in it is not blank, and is read up to the comma. -/
theorem trimSpace_splitFirst_trimSpace {text : String} (h : ',' ∈ text.toList) :
    trimSpace text ≠ "" ∧
      trimSpace (splitFirst ',' (trimSpace text)) = trimSpace (splitFirst ',' text) := by
  constructor
  · intro hblank
    obtain ⟨front, back, hsplit, hfront, hback⟩ := exists_trimFunc isSpace text.toList
    have htrim : trimFunc isSpace text.toList = [] := by
      simpa [trimSpace] using congrArg String.toList hblank
    rw [hsplit, htrim, List.nil_append] at h
    rcases List.mem_append.mp h with hc | hc
    · exact absurd (hfront _ hc) (by decide)
    · exact absurd (hback _ hc) (by decide)
  · simp only [trimSpace, splitFirst, String.toList_ofList]
    rw [trimFunc_takeWhile_trimFunc (by decide) h]

theorem extractAPIKey_proxied (peer : Peer) (x : Sent) :
    extractAPIKey (x.proxied peer) = extractAPIKey x.request := by
  simp [extractAPIKey, Sent.proxied]

theorem clientAddress_proxied (peer : Peer) (x : Sent) :
    clientAddress (x.proxied peer) = firstElement peer x.forwarded := by
  have hheader : (x.proxied peer).header "X-Forwarded-For" =
      proxyAddXForwardedFor peer x.forwarded := by simp [Sent.proxied]
  cases hforwarded : x.forwarded with
  | none =>
      rw [hforwarded, proxyAddXForwardedFor] at hheader
      have hblank := peer.trimSpace_text ▸ peer.nonempty
      rw [clientAddress_of_forwarded (hheader ▸ hblank), hheader, peer.trimSpace_text,
        peer.splitFirst_text, peer.trimSpace_text, firstElement]
  | some text =>
      rw [hforwarded, proxyAddXForwardedFor] at hheader
      have hcomma : ',' ∈ (text ++ ", " ++ peer.text).toList := by simp
      obtain ⟨hblank, hsplit⟩ := trimSpace_splitFirst_trimSpace hcomma
      have hfirst : splitFirst ',' (text ++ ", " ++ peer.text) = splitFirst ',' text := by
        have hlist : (text ++ ", " ++ peer.text).toList =
            text.toList ++ ',' :: ' ' :: peer.text.toList := by simp
        rw [splitFirst, hlist, takeWhile_append_cons, splitFirst]
      rw [clientAddress_of_forwarded (hheader ▸ hblank), hheader, hsplit, hfirst, firstElement]

theorem identify_proxied (srv : Server) (peer : Peer) {x : Sent}
    (hkey : extractAPIKey x.request = "") : srv.identify x.situation (x.proxied peer) =
      if firstElement peer x.forwarded = "" then .error .missingClientIdentity
      else .ok ⟨"ip:" ++ firstElement peer x.forwarded, "ip", firstElement peer x.forwarded,
        none⟩ := by
  have hkey' := (extractAPIKey_proxied peer x).trans hkey
  rw [Server.identify, identify_of_no_key hkey', clientAddress_proxied]

/-! ## Runs -/

/-- The middleware over the one limiter that serves the route. -/
def env (srv : Server) (x : Sent) : Env (RateLimiter × Store) Unit :=
  { x.situation with
    cfg := srv.cfg
    sha256 := srv.sha256
    defaultLimiter := ()
    fromPolicy := fun s _ => ((), s)
    allow := fun s _ key => RateLimiter.allow key s x.arrival }

def serve (srv : Server) (peer : Peer) (s : RateLimiter × Store) (x : Sent) :
    Served × (RateLimiter × Store) :=
  rateLimitWithTelemetry (env srv x) (x.proxied peer) s

/-- When the requests of a run are counted as allowed on the route. -/
def allowed (srv : Server) (peer : Peer) (route : String) (l : RateLimiter) (run : List Sent) :
    List ℚ :=
  picked (fun x : Sent => x.arrival.now)
    (fun served : Served => Metric.allowedRequestsTotal route ∈ served.metrics)
    (trace (serve srv peer) (l, Store.empty) run)

/-- One identity for all requests, which the limiter allows as it allows those
of one key; so they are, in order of time, within the budget of one, where the
limiter has one. -/
def OneBudget (srv : Server) (peer : Peer) (route : String) (l : RateLimiter) (run : List Sent) :
    Prop :=
  ∃ id, (∀ x ∈ run, srv.identify x.situation (x.proxied peer) = .ok id) ∧
    allowed srv peer route l run =
      admissions (id.identity ++ ":" ++ route) l (run.map Sent.arrival) ∧
    ∀ W, 1 ≤ W → Duration.Fits W → Built W l → InOrder (run.map Sent.arrival) →
      ∀ a T : ℚ, 0 ≤ T → (within a (a + T) (allowed srv peer route l run) : ℚ) ≤ l.budget W T

theorem serve_of_identified {srv : Server} {route : String} {x : Sent} {id : Identity}
    (hid : srv.identify x.situation (x.proxied peer) = .ok id) (hroute : routeOf x.request = route)
    (s : RateLimiter × Store) :
    let answer := RateLimiter.allow (id.identity ++ ":" ++ route) s x.arrival
    (decide (Metric.allowedRequestsTotal route ∈ (serve srv peer s x).1.metrics) =
        answer.1.admits) ∧ (serve srv peer s x).2 = answer.2 := by
  have hproxied : routeOf (x.proxied peer) = route := hroute
  have hlimiter : ∀ policy, (env srv x).limiterFor s policy = ((), s) := by
    intro policy
    cases policy <;> rfl
  unfold serve
  rw [rateLimitWithTelemetry_of_ok (env srv x) hid s, hproxied, hlimiter]
  refine ⟨?_, rfl⟩
  rw [Bool.eq_iff_iff, decide_eq_true_eq, List.mem_cons, ← hproxied,
    or_iff_right Metric.noConfusion]
  exact respond_counted id _ _

theorem allowed_of_identity {srv : Server} {route : String} {run : List Sent} {id : Identity}
    (hid : ∀ x ∈ run, srv.identify x.situation (x.proxied peer) = .ok id)
    (hroute : ∀ x ∈ run, routeOf x.request = route) (l : RateLimiter) :
    allowed srv peer route l run =
      admissions (id.identity ++ ":" ++ route) l (run.map Sent.arrival) := by
  have hsim := trace_observe (serve srv peer) (RateLimiter.allow (id.identity ++ ":" ++ route))
    Sent.arrival (fun served => decide (Metric.allowedRequestsTotal route ∈ served.metrics))
    Outcome.admits run (S := fun _ s t => s = t) (R := fun _ _ => True)
    (P := fun x => srv.identify x.situation (x.proxied peer) = .ok id ∧ routeOf x.request = route)
    (s := (l, Store.empty)) (t := (l, Store.empty))
    (List.pairwise_of_forall fun _ _ => trivial) (fun x hx => ⟨hid x hx, hroute x hx⟩) rfl
    (by
      rintro - s - x rfl - ⟨hx, hxroute⟩
      exact serve_of_identified hx hxroute s)
  exact picked_congr Arrival.now hsim.1

/-- **Who shares a budget behind nginx.** A client's requests without a key are
one identity and one budget iff the element it puts in front is the same each
time and not empty. -/
theorem oneBudget_iff (srv : Server) (peer : Peer) {route : String} (l : RateLimiter)
    {run : List Sent}
    (hrun : ∀ x ∈ run, extractAPIKey x.request = "" ∧ routeOf x.request = route) :
    OneBudget srv peer route l run ↔
      ∃ element, element ≠ "" ∧ ∀ x ∈ run, firstElement peer x.forwarded = element := by
  constructor
  · rintro ⟨id, hid, -, -⟩
    have helement : ∀ x ∈ run, firstElement peer x.forwarded ≠ "" ∧
        firstElement peer x.forwarded = id.identityValue := by
      intro x hx
      have h := hid x hx
      rw [identify_proxied srv peer (hrun x hx).1] at h
      by_cases hempty : firstElement peer x.forwarded = ""
      · rw [if_pos hempty] at h
        cases h
      · rw [if_neg hempty] at h
        obtain rfl := Except.ok.inj h
        exact ⟨hempty, rfl⟩
    by_cases hvalue : id.identityValue = ""
    · exact ⟨peer.text, peer.nonempty, fun x hx =>
        absurd ((helement x hx).2.trans hvalue) (helement x hx).1⟩
    · exact ⟨id.identityValue, hvalue, fun x hx => (helement x hx).2⟩
  · rintro ⟨element, hne, hsame⟩
    have hid : ∀ x ∈ run, srv.identify x.situation (x.proxied peer) =
        .ok ⟨"ip:" ++ element, "ip", element, none⟩ := by
      intro x hx
      rw [identify_proxied srv peer (hrun x hx).1, hsame x hx, if_neg hne]
    have hallowed := allowed_of_identity hid (fun x hx => (hrun x hx).2) l
    refine ⟨_, hid, hallowed, ?_⟩
    intro W hW hfit hl horder a T hT
    rw [hallowed]
    exact within_admissions_le hW hfit hl _ horder a hT

/-! ## A client that makes itself up -/

def localPeer : Peer where
  text := "203.0.113.7"
  nonempty := by decide
  plain := by simp [isSpace]

def memoryServer : Server :=
  { redis := false
    cfg := ⟨"token_bucket", 100, 60000000000, 100, "memory", "closed"⟩
    sha256 := fun text => text }

def idle : Situation :=
  { db := ⟨[], [], []⟩, now := 0, keysDown := false, routesDown := false, routed := true,
    recording := false, handler := .returns 200, durationMS := 1 }

/-- At the epoch, with this header. -/
def sendWith (forwarded : Option String) (member : String) : Sent where
  request := { method := "GET", fullPath := "/v1/products", path := "/v1/products",
               header := fun _ => "", clientIP := "172.18.0.2" }
  forwarded := forwarded
  situation := idle
  arrival := .atEpoch member

def oncePerMinute : RateLimiter := .memory (newMemoryTokenBucket 1 (.ofSeconds 60))

/-- Two made-up addresses get two requests through at one instant, where one
key has a budget of one; an empty element gets none through at all. -/
theorem oneBudget_fails :
    let run := [sendWith (some "1.1.1.1") "a", sendWith (some "2.2.2.2") "b"]
    ¬ OneBudget memoryServer localPeer "/v1/products" oncePerMinute run ∧
      within (0 : ℚ) (0 + 0) (allowed memoryServer localPeer "/v1/products" oncePerMinute run) = 2 ∧
      oncePerMinute.budget 60 0 = 1 ∧
      memoryServer.identify idle ((sendWith (some " ,1.1.1.1") "a").proxied localPeer) =
        .error .missingClientIdentity := by
  intro run
  refine ⟨?_, by decide +kernel, by decide +kernel, by decide +kernel⟩
  rintro ⟨id, hid, -, -⟩
  have h1 := hid _ (List.mem_cons_self ..)
  have h2 := hid _ (List.mem_cons_of_mem _ (List.mem_singleton.mpr rfl))
  rw [identify_proxied _ _ (by decide +kernel), if_neg (by decide +kernel)] at h1 h2
  have hid_eq := h1.trans h2.symm
  revert hid_eq
  decide +kernel

/-- A client that leaves the header alone is its address. -/
theorem oneBudget_iff_honest : OneBudget memoryServer localPeer "/v1/products" oncePerMinute
    [sendWith none "a", sendWith none "b"] :=
  (oneBudget_iff memoryServer localPeer oncePerMinute (by decide +kernel)).mpr
    ⟨"203.0.113.7", by decide, by decide +kernel⟩

end ForwardedFor

end RateX
