import RateX.Services
import RateX.Transducer

/-!
# The route policies over a whole history

What the admins were granted, as a map of its own (`liveRoutes`): under each id
the route policy that the last successful `Create` or `Update` of it was asked
for, until its `Delete`. `RouteMap` says that lookups in the tables are lookups
in this map. `validateRoutePolicy` switches every route policy on, so they are,
except where the one asked for was to be off.

Of the case mapping only two things matter here: that it is idempotent, and that
it makes no blanks.
-/

namespace RateX

open Table Transducer Database

section RouteTable

variable (uuid : String → Option String)

/-- A call that failed is not noted. -/
def noteRoute (live : String → Option RoutePolicy) :
    AdminEvent × Except ServiceError Answer → String → Option RoutePolicy
  | (⟨_, .createRoute _ route⟩, .ok (.route row)) => Function.update live row.id (some route)
  | (⟨_, .updateRoute _ route⟩, .ok (.route row)) => Function.update live row.id (some route)
  | (⟨_, .deleteRoute id⟩, .ok _) =>
      match uuid id with
      | some id => Function.update live id none
      | none => live
  | _ => live

def liveRoutes (past : List (AdminEvent × Except ServiceError Answer)) :
    String → Option RoutePolicy :=
  past.foldl (noteRoute uuid) fun _ => none

/-- Lookups of `method` and `route` answer as the map of route policies `live` says. -/
structure RouteMap (db : Database) (live : String → Option RoutePolicy) (method route : String) :
    Prop where
  one : ∀ id id' rp rp', live id = some rp → live id' = some rp' →
    rp.normalKey = (toUpper method, route) → rp'.normalKey = (toUpper method, route) → id = id'
  found : ∀ id rp, live id = some rp → rp.normalKey = (toUpper method, route) →
    rp.enabled = true → ∃ p ∈ db.policies, uuid rp.policyID = some p.id ∧
      findPolicy db false method route = .ok (some p)
  off : ∀ id rp, live id = some rp → rp.normalKey = (toUpper method, route) →
    rp.enabled = false → findPolicy db false method route = .ok none
  missing : (∀ id rp, live id = some rp → rp.normalKey ≠ (toUpper method, route)) →
    findPolicy db false method route = .ok none

/-! ## Lookups -/

section Lookup

variable {db : Database} {rp : RoutePolicy}

theorem enabledRoute_of_mem (h : db.WellFormed) (hrp : rp ∈ db.routePolicies)
    (hon : rp.enabled = true) : ∃ p ∈ db.policies, p.id = rp.policyID ∧
      db.enabledRoute rp.method rp.routePattern = some p := by
  obtain ⟨p, hp, hid⟩ := h.routePolicy rp hrp
  obtain ⟨q, hq⟩ := exists_find Policy.id hp hid
  refine ⟨q, (find_some hq).1, (find_some hq).2, ?_⟩
  refine h.routeKeys.findSome?_eq hrp ?_ ?_
  · rw [if_pos ⟨hon, rfl, rfl⟩]
    exact hq
  · intro rp' _ c hc
    split at hc
    · rename_i hkey
      exact Prod.ext hkey.2.1 hkey.2.2
    · cases hc

theorem enabledRoute_eq_none {method route : String}
    (h : ∀ rp ∈ db.routePolicies, rp.key ≠ (method, route)) :
    db.enabledRoute method route = none := by
  refine List.findSome?_eq_none_iff.mpr fun rp hrp => if_neg ?_
  rintro ⟨-, hmethod, hroute⟩
  exact h rp hrp (Prod.ext hmethod hroute)

end Lookup

/-! ## The tables mirror the map -/

structure Tracks (db : Database) (live : String → Option RoutePolicy) : Prop where
  wellFormed : db.WellFormed
  row : ∀ rp ∈ db.routePolicies, ∃ route, live rp.id = some route ∧ Written uuid route rp
  entry : ∀ id route, live id = some route → ∃ rp ∈ db.routePolicies, rp.id = id

variable {uuid} {db : Database} {live : String → Option RoutePolicy}

theorem Tracks.written (h : Tracks uuid db live) {id : String} {route : RoutePolicy}
    (hlive : live id = some route) :
    ∃ rp ∈ db.routePolicies, rp.id = id ∧ Written uuid route rp := by
  obtain ⟨rp, hrp, rfl⟩ := h.entry id route hlive
  obtain ⟨route', hroute', hwritten⟩ := h.row rp hrp
  obtain rfl := Option.some.inj (hlive.symm.trans hroute')
  exact ⟨rp, hrp, rfl, hwritten⟩

/-- A route policy is put in the place of the one with its id, if there is one. -/
theorem Tracks.put {route row : RoutePolicy} {db' : Database} (h : Tracks uuid db live)
    (hwf : db'.WellFormed) (hrow : Written uuid route row) (hin : row ∈ db'.routePolicies)
    (hrows : ∀ rp, rp ∈ db'.routePolicies ↔
      (rp ∈ db.routePolicies ∧ rp.id ≠ row.id) ∨ rp = row) :
    Tracks uuid db' (Function.update live row.id (some route)) where
  wellFormed := hwf
  row := by
    intro rp hrp
    rcases (hrows rp).mp hrp with ⟨hold, hne⟩ | rfl
    · rw [Function.update_of_ne hne]
      exact h.row rp hold
    · exact ⟨route, by rw [Function.update_self], hrow⟩
  entry := by
    intro id route' hlive
    by_cases hid : id = row.id
    · exact ⟨row, hin, hid.symm⟩
    · rw [Function.update_of_ne hid] at hlive
      obtain ⟨rp, hrp, rfl⟩ := h.entry id route' hlive
      exact ⟨rp, (hrows rp).mpr (.inl ⟨hrp, hid⟩), rfl⟩

/-- A call that leaves the route policies alone leaves the map alone. -/
theorem Tracks.same {db' : Database} (h : Tracks uuid db live) (hwf : db'.WellFormed)
    (hroutes : db'.routePolicies = db.routePolicies) : Tracks uuid db' live where
  wellFormed := hwf
  row := by rw [hroutes]; exact h.row
  entry := by rw [hroutes]; exact h.entry

theorem tracks_step {sha256 : String → String} (h : Tracks uuid db live) (e : AdminEvent) :
    Tracks uuid (admin uuid sha256 db e).2
      (noteRoute uuid live (e, (admin uuid sha256 db e).1)) := by
  have hwf := admin_wellFormed uuid sha256 h.wellFormed e
  have heffect := admin_effect uuid sha256 db e
  generalize (admin uuid sha256 db e).1 = answer at heffect ⊢
  generalize (admin uuid sha256 db e).2 = db' at hwf heffect ⊢
  cases heffect with
  | failed =>
      obtain ⟨now, call⟩ := e
      cases call <;> exact h
  | policyCreated honly => exact h.same hwf honly.routes
  | policyUpdated honly => exact h.same hwf honly.routes
  | policyDeleted honly => exact h.same hwf honly.routes
  | keyCreated _ _ _ => exact h.same hwf rfl
  | keyRevoked _ => exact h.same hwf rfl
  | routeCreated hrow hnew =>
      refine h.put hwf hrow (List.mem_append_right _ (List.mem_singleton.mpr rfl)) fun rp => ?_
      rw [List.mem_append, List.mem_singleton]
      exact or_congr_left ⟨fun hrp => ⟨hrp, hnew rp hrp⟩, And.left⟩
  | @routeUpdated now id route row hrow hthere =>
      obtain ⟨old, hold, hid⟩ := hthere
      refine h.put hwf hrow (mem_modify.mpr (.inr ⟨old, hold, hid, rfl⟩)) fun rp => ?_
      rw [mem_modify]
      exact or_congr_right ⟨fun ⟨_, _, _, heq⟩ => heq, fun heq => ⟨old, hold, hid, heq⟩⟩
  | @routeDeleted now id canonical hid =>
      simp only [noteRoute, hid]
      refine ⟨hwf, fun rp hrp => ?_, fun id route hlive => ?_⟩
      · obtain ⟨hrp, hne⟩ := mem_remove.mp hrp
        rw [Function.update_of_ne hne]
        exact h.row rp hrp
      · by_cases heq : id = canonical
        · rw [heq, Function.update_self] at hlive
          cases hlive
        · rw [Function.update_of_ne heq] at hlive
          obtain ⟨rp, hrp, rfl⟩ := h.entry id route hlive
          exact ⟨rp, mem_remove.mpr ⟨hrp, heq⟩, rfl⟩

/-- After every history, the failed calls included. -/
theorem tracks_trace {sha256 : String → String} (h : db.WellFormed)
    (hempty : db.routePolicies = []) (run : List AdminEvent) :
    Tracks uuid (after (admin uuid sha256) db run)
      (liveRoutes uuid (trace (admin uuid sha256) db run)) := by
  have hinit : Tracks uuid db (liveRoutes uuid []) :=
    ⟨h, by simp [hempty], fun id route hlive => nomatch hlive⟩
  refine trace_invariant (admin uuid sha256) (R := fun _ _ => True) (P := fun _ => True)
    (I := fun past db => Tracks uuid db (liveRoutes uuid past)) (List.pairwise_of_forall
      fun _ _ => trivial) (fun _ _ => trivial) hinit fun past s e hI _ _ => ?_
  rw [liveRoutes, List.foldl_append]
  exact tracks_step hI e

/-- Where the tables mirror the map, a lookup is a lookup in the map iff the
route policy it is after was asked to be on. -/
theorem routeMap_iff (h : Tracks uuid db live) (method route : String) :
    RouteMap uuid db live method route ↔ ∀ id rp, live id = some rp →
      rp.normalKey = (toUpper method, route) → rp.enabled = true := by
  have hfound : ∀ id rp, live id = some rp → rp.normalKey = (toUpper method, route) →
      ∃ p ∈ db.policies, uuid rp.policyID = some p.id ∧
        findPolicy db false method route = .ok (some p) := by
    intro id rp hlive hkey
    obtain ⟨row, hrow, -, hwritten⟩ := h.written hlive
    obtain ⟨p, hp, hid, hlookup⟩ := enabledRoute_of_mem h.wellFormed hrow hwritten.enabled
    obtain ⟨hmethod, hroute⟩ := Prod.mk.inj (hwritten.key.trans hkey)
    refine ⟨p, hp, hid ▸ hwritten.policyID, ?_⟩
    rw [findPolicy, if_neg Bool.false_ne_true, ← hmethod, ← hroute, hlookup]
  constructor
  · intro hmap id rp hlive hkey
    by_contra hoff
    obtain ⟨p, -, -, hlookup⟩ := hfound id rp hlive hkey
    rw [hmap.off id rp hlive hkey (Bool.eq_false_iff.mpr hoff)] at hlookup
    cases hlookup
  · intro hon
    refine ⟨fun id id' rp rp' hlive hlive' hkey hkey' => ?_,
      fun id rp hlive hkey _ => hfound id rp hlive hkey,
      fun id rp hlive hkey hoff => ?_, fun hnone => ?_⟩
    · obtain ⟨row, hrow, rfl, hwritten⟩ := h.written hlive
      obtain ⟨row', hrow', rfl, hwritten'⟩ := h.written hlive'
      rw [h.wellFormed.routeKeys.eq_of_key hrow hrow'
        (hwritten.key.trans (hkey.trans (hkey'.symm.trans hwritten'.key.symm)))]
    · rw [hon id rp hlive hkey] at hoff
      cases hoff
    · rw [findPolicy, if_neg Bool.false_ne_true, enabledRoute_eq_none fun row hrow hkey => ?_]
      obtain ⟨rp, hlive, hwritten⟩ := h.row row hrow
      exact hnone row.id rp hlive (hwritten.key.symm.trans hkey)

end RouteTable

/-- The route policy a call asks to write. -/
def AdminCall.asked : AdminCall → Option RoutePolicy
  | .createRoute _ route => some route
  | .updateRoute _ route => some route
  | _ => none

theorem noteRoute_asked {uuid : String → Option String} {live : String → Option RoutePolicy}
    {p : AdminEvent × Except ServiceError Answer} {id : String} {rp : RoutePolicy}
    (h : noteRoute uuid live p id = some rp) : live id = some rp ∨ p.1.call.asked = some rp := by
  have hput : ∀ (i : String) (route : RoutePolicy),
      Function.update live i (some route) id = some rp → live id = some rp ∨ route = rp := by
    intro i route hrp
    by_cases hid : id = i
    · rw [hid, Function.update_self] at hrp
      exact .inr (Option.some.inj hrp)
    · rw [Function.update_of_ne hid] at hrp
      exact .inl hrp
  unfold noteRoute at h
  split at h
  · exact (hput _ _ h).imp_right (congrArg some)
  · exact (hput _ _ h).imp_right (congrArg some)
  · rename_i deleted _
    cases hdeleted : uuid deleted with
    | none => exact .inl (by simpa only [hdeleted] using h)
    | some canonical =>
        simp only [hdeleted] at h
        by_cases hid : id = canonical
        · rw [hid, Function.update_self] at h
          cases h
        · rw [Function.update_of_ne hid] at h
          exact .inl h
  · exact .inl h

theorem liveRoutes_asked {uuid : String → Option String}
    {past : List (AdminEvent × Except ServiceError Answer)} {id : String} {rp : RoutePolicy}
    (h : liveRoutes uuid past id = some rp) : ∃ p ∈ past, p.1.call.asked = some rp := by
  induction past using List.reverseRecOn with
  | nil => cases h
  | append_singleton past p ih =>
      rw [liveRoutes, List.foldl_append] at h
      rcases noteRoute_asked h with hlive | hasked
      · obtain ⟨q, hq, hasked⟩ := ih hlive
        exact ⟨q, List.mem_append_left _ hq, hasked⟩
      · exact ⟨p, List.mem_append_right _ (List.mem_singleton.mpr rfl), hasked⟩

/-- **The route policies are a map from method and pattern to policy**, for a
lookup after any history of calls, iff the route policy it is after, if there is
one, was asked to be on when it was last written. -/
theorem routeTable_iff (uuid : String → Option String) (sha256 : String → String) {db : Database}
    (h : db.WellFormed) (hempty : db.routePolicies = []) (run : List AdminEvent)
    (method route : String) :
    ((∀ e err, (admin uuid sha256 (after (admin uuid sha256) db run) e).1 = .error err →
        (admin uuid sha256 (after (admin uuid sha256) db run) e).2 =
          after (admin uuid sha256) db run) ∧
      RouteMap uuid (after (admin uuid sha256) db run)
        (liveRoutes uuid (trace (admin uuid sha256) db run)) method route) ↔
      ∀ id rp, liveRoutes uuid (trace (admin uuid sha256) db run) id = some rp →
        rp.normalKey = (toUpper method, route) → rp.enabled = true :=
  (and_iff_right fun _ _ hfailed => admin_failed uuid sha256 hfailed).trans
    (routeMap_iff (tracks_trace h hempty run) method route)

/-- A rule for `/v1/products`, moved to the premium policy. -/
def movedRule : List AdminEvent :=
  [⟨0, .createRoute "7" ⟨"", " get", "/v1/products ", "1", true⟩⟩,
    ⟨1, .updateRoute "7" ⟨"", "get", "/v1/products", "2", true⟩⟩]

theorem routeTable_moved : RouteMap some (after (admin some id) (migrated "1" "2" "3") movedRule)
    (liveRoutes some (trace (admin some id) (migrated "1" "2" "3") movedRule))
    "Get" "/v1/products" := by
  refine ((routeTable_iff some id (wellFormed_migrated (by decide) (by decide) (by decide)) rfl
    movedRule "Get" "/v1/products").mpr fun i rp hlive _ => ?_).2
  obtain ⟨p, hp, hasked⟩ := liveRoutes_asked hlive
  have hrun := mem_of_mem_trace hp
  simp only [movedRule, List.mem_cons, List.not_mem_nil, or_false] at hrun
  rcases hrun with h | h <;> (rw [h] at hasked; cases hasked; rfl)

/-- The same rule, and an update that is to switch it off. -/
def switchedOff : List AdminEvent :=
  [⟨0, .createRoute "7" ⟨"", "GET", "/v1/products", "1", true⟩⟩,
    ⟨1, .updateRoute "7" ⟨"", "GET", "/v1/products", "1", false⟩⟩]

theorem routeTable_switchedOff : ¬ RouteMap some
    (after (admin some id) (migrated "1" "2" "3") switchedOff)
    (liveRoutes some (trace (admin some id) (migrated "1" "2" "3") switchedOff))
    "GET" "/v1/products" := by
  intro hmap
  have hfound : ((after (admin some id) (migrated "1" "2" "3") switchedOff).enabledRoute
      (toUpper "GET") "/v1/products").isSome = true := by decide +kernel
  have hlive : ((liveRoutes some (trace (admin some id) (migrated "1" "2" "3") switchedOff)
      "7").any fun rp => !rp.enabled && rp.normalKey = (toUpper "GET", "/v1/products")) = true := by
    decide +kernel
  obtain ⟨rp, hrp, hoff⟩ := (Option.any_eq_true ..).mp hlive
  simp only [Bool.and_eq_true, Bool.not_eq_true', decide_eq_true_eq] at hoff
  have hnone := hmap.off "7" rp hrp hoff.2 hoff.1
  rw [findPolicy, if_neg Bool.false_ne_true] at hnone
  rw [Except.ok.inj hnone] at hfound
  cases hfound

end RateX
