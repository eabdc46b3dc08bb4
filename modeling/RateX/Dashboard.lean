import RateX.AdminApi
import RateX.Analytics
import RateX.Steps

/-!
# The dashboard

`App`, as far as its loads go. A function of a component sees the values of the
render that made it: `load` tests the message and the two selections of that
render, and sets those of the page as it is when the answers are in. The timer
calls the `load` of the render in which its effect was set up, which is the
first one until `eventLimit` changes; a button calls that of the render it is
clicked in. What is to be confirmed waits in the dialog, with the `load` of the
render that opened it. Loads overlap, and finish in any order.

Hence a load of the timer takes both forms back to the first policy, whatever was
picked, and never takes its own notice down (`timer_load`); a selection is safe
exactly if no such load is under way or to come (`selection_safe_iff`).
-/

namespace RateX

namespace Dashboard

open Steps

/-! ## The page -/

structure NewKey where
  name : String
  policyID : String
deriving DecidableEq

structure NewRoute where
  method : String
  routePattern : String
  policyID : String
deriving DecidableEq

structure Data where
  stats : Stats
  policies : List PolicyJSON
  keys : List KeyJSON
  events : List StoredEvent
  routePolicies : List RouteJSON
  topRoutes : List RouteSummary
  timeline : List TimeBucket

/-- What a render sees. -/
structure App where
  data : Data
  message : String
  eventLimit : ℕ
  newKey : NewKey
  newRoute : NewRoute

def App.mount : App where
  data := ⟨⟨0, 0, 0⟩, [], [], [], [], [], []⟩
  message := ""
  eventLimit := 30
  newKey := ⟨"Demo application", ""⟩
  newRoute := ⟨"GET", "/v1/products", ""⟩

/-- The answers to the seven requests of a load; one that fails has none. -/
structure Answers where
  stats : Option Stats
  policies : Option (List PolicyJSON)
  keys : Option (List KeyJSON)
  events : Option (List StoredEvent)
  routePolicies : Option (List RouteJSON)
  topRoutes : Option (List RouteSummary)
  timeline : Option (List TimeBucket)

def Answers.failed (a : Answers) : Bool :=
  a.stats.isNone || a.policies.isNone || a.keys.isNone || a.events.isNone ||
    a.routePolicies.isNone || a.topRoutes.isNone || a.timeline.isNone

/-- `safeLoad` of each, with its fallback. -/
def Answers.data (a : Answers) : Data :=
  { stats := a.stats.getD ⟨0, 0, 0⟩
    policies := a.policies.getD []
    keys := a.keys.getD []
    events := a.events.getD []
    routePolicies := a.routePolicies.getD []
    topRoutes := a.topRoutes.getD []
    timeline := a.timeline.getD [] }

def unavailable : String :=
  "Some API data is unavailable. Restart the Go server after the latest changes."

/-- The selection of a form after a load that saw `seen` selected. -/
def preselect (seen current : String) (policies : List PolicyJSON) : String :=
  match policies with
  | p :: _ => if seen = "" then p.id else current
  | [] => current

/-- `load`, once its answers are in; `seen` is the render it is the function of. -/
def App.load (app seen : App) (answers : Answers) : App :=
  let data := answers.data
  { app with
    data
    message :=
      if answers.failed then unavailable
      else if "Some API data".toList <+: seen.message.toList then "" else app.message
    newKey := { app.newKey with
      policyID := preselect seen.newKey.policyID app.newKey.policyID data.policies }
    newRoute := { app.newRoute with
      policyID := preselect seen.newRoute.policyID app.newRoute.policyID data.policies } }

/-! ## Events -/

structure Load where
  seen : App
  byTimer : Bool

/-- The page with the loads under way, the render whose `onConfirm` the open dialog holds, and the
handlers that wait for the API. -/
structure Page where
  app : App
  timer : App
  loads : List Load
  confirm : Option App
  handlers : List App

/-- The first render; its effect loads. -/
def Page.mount : Page :=
  { app := .mount, timer := .mount, loads := [⟨.mount, false⟩], confirm := none, handlers := [] }

inductive Event where
  | tick
  | refresh
  | loadMore
  | finish (k : ℕ) (answers : Answers)
  | editKey (newKey : NewKey)
  | editRoute (newRoute : NewRoute)
  | notify (message : String)
  /-- A handler sends its request: `handleCreateKey` and the like. -/
  | submit
  /-- A button to revoke or to delete opens the dialog. -/
  | confirmAction
  | cancel
  | runConfirmedAction
  /-- The request succeeds: a message, or none, and a load. -/
  | resolve (k : ℕ) (message : Option String)
  | reject (k : ℕ) (message : String)

def step (s : Page) : Event → Option Page
  | .tick => some { s with loads := s.loads ++ [⟨s.timer, true⟩] }
  | .refresh => some { s with loads := s.loads ++ [⟨s.app, false⟩] }
  | .loadMore =>
      let app := { s.app with eventLimit := s.app.eventLimit + 30 }
      some { s with app, timer := app, loads := s.loads ++ [⟨app, false⟩] }
  | .finish k answers =>
      (s.loads[k]?).map fun l =>
        { s with app := s.app.load l.seen answers, loads := s.loads.eraseIdx k }
  | .editKey newKey => some { s with app := { s.app with newKey } }
  | .editRoute newRoute => some { s with app := { s.app with newRoute } }
  | .notify message => some { s with app := { s.app with message } }
  | .submit => some { s with handlers := s.handlers ++ [s.app] }
  | .confirmAction => some { s with confirm := some s.app }
  | .cancel => some { s with confirm := none }
  | .runConfirmedAction =>
      match s.confirm with
      | none => some s
      -- `onConfirm` is a closure of the render that opened the dialog
      | some seen => some { s with confirm := none, handlers := s.handlers ++ [seen] }
  | .resolve k message =>
      (s.handlers[k]?).map fun seen =>
        { s with
          app := { s.app with message := message.getD s.app.message }
          loads := s.loads ++ [⟨seen, false⟩]
          handlers := s.handlers.eraseIdx k }
  | .reject k message =>
      (s.handlers[k]?).map fun _ =>
        { s with app := { s.app with message }, handlers := s.handlers.eraseIdx k }

/-- A confirmation touches the dialog and the handlers alone. -/
theorem step_runConfirmedAction {s s' : Page} (hs : step s .runConfirmedAction = some s') :
    ∃ confirm handlers, s' = { s with confirm, handlers } := by
  rw [step] at hs
  split at hs
  · cases hs
    exact ⟨_, _, rfl⟩
  · cases hs
    exact ⟨_, _, rfl⟩

/-! ## The timer -/

def NoLoadMore (_ : Page) : Event → Prop
  | .loadMore => False
  | _ => True

/-- The timer and its loads see the first render. -/
structure FirstTimer (s : Page) : Prop where
  timer : s.timer = .mount
  loads : ∀ l ∈ s.loads, l.byTimer = true → l.seen = .mount

theorem FirstTimer.step {s s' : Page} {e : Event} (h : FirstTimer s) (hmore : NoLoadMore s e)
    (hs : Dashboard.step s e = some s') : FirstTimer s' := by
  have hadd : ∀ {seen : App} {byTimer : Bool}, (byTimer = true → seen = .mount) →
      ∀ l ∈ s.loads ++ [⟨seen, byTimer⟩], l.byTimer = true → l.seen = .mount := by
    intro seen byTimer hseen l hl
    rcases List.mem_append.mp hl with hl | hl
    · exact h.loads l hl
    · rw [List.mem_singleton.mp hl]
      exact hseen
  cases e with
  | tick =>
      cases hs
      exact ⟨h.timer, hadd fun _ => h.timer⟩
  | refresh =>
      cases hs
      exact ⟨h.timer, hadd fun hfalse => absurd hfalse Bool.false_ne_true⟩
  | loadMore => cases hmore
  | finish k answers =>
      obtain ⟨l, hl, rfl⟩ := Option.map_eq_some_iff.mp hs
      exact ⟨h.timer, fun l' hl' => h.loads l' (List.mem_of_mem_eraseIdx hl')⟩
  | resolve k message =>
      obtain ⟨seen, hseen, rfl⟩ := Option.map_eq_some_iff.mp hs
      exact ⟨h.timer, hadd fun hfalse => absurd hfalse Bool.false_ne_true⟩
  | reject k message =>
      obtain ⟨seen, hseen, rfl⟩ := Option.map_eq_some_iff.mp hs
      exact ⟨h.timer, h.loads⟩
  | runConfirmedAction =>
      obtain ⟨confirm, handlers, rfl⟩ := step_runConfirmedAction hs
      exact ⟨h.timer, h.loads⟩
  | _ =>
      cases hs
      exact ⟨h.timer, h.loads⟩

theorem firstTimer_of_reach {s : Page} (h : Reach step NoLoadMore .mount s) : FirstTimer s := by
  refine h.invariant ⟨rfl, ?_⟩ fun _ _ _ hI hmore hs => hI.step hmore hs
  intro l hl
  rw [List.mem_singleton.mp hl]
  exact fun hfalse => absurd hfalse Bool.false_ne_true

/-- **The timer's load.** As long as "load more" has not been clicked, every load of the timer that
finds a policy selects the first one in both forms, whatever was selected, and none takes the
notice down. -/
theorem timer_load {s s' : Page} (h : Reach step NoLoadMore .mount s) {k : ℕ} {l : Load}
    (hl : s.loads[k]? = some l) (htimer : l.byTimer = true) (answers : Answers)
    (hs : step s (.finish k answers) = some s') :
    (∀ p ∈ s'.app.data.policies.head?,
      s'.app.newKey.policyID = p.id ∧ s'.app.newRoute.policyID = p.id) ∧
    s'.app.message = if answers.failed then unavailable else s.app.message := by
  have hseen : l.seen = .mount :=
    (firstTimer_of_reach h).loads l (List.mem_of_getElem? hl) htimer
  have hs' : s' = { s with app := s.app.load .mount answers, loads := s.loads.eraseIdx k } := by
    rw [step, hl, Option.map_some, hseen] at hs
    exact (Option.some.inj hs).symm
  subst hs'
  refine ⟨fun p hp => ?_, ?_⟩
  · obtain ⟨rest, hpolicies⟩ := List.head?_eq_some_iff.mp hp
    have hpre : ∀ current, preselect "" current answers.data.policies = p.id := by
      intro current
      rw [show answers.data.policies = p :: rest from hpolicies]
      rfl
    exact ⟨hpre _, hpre _⟩
  · have hquiet : ¬ "Some API data".toList <+: App.mount.message.toList := by decide
    show (if answers.failed then unavailable
      else if "Some API data".toList <+: App.mount.message.toList then "" else s.app.message) = _
    rw [if_neg hquiet]

def twoPolicies : Answers :=
  ⟨some ⟨0, 0, 0⟩, some [.of ⟨0, 0⟩ ⟨"1", "default", "token_bucket", 100, 60, 100⟩,
    .of ⟨0, 0⟩ ⟨"2", "strict-login", "sliding_window", 10, 60, 10⟩],
    some [], some [], some [], some [], some []⟩

/-- The second policy is picked while a load of the timer is under way. -/
def picking : List Event :=
  [.finish 0 twoPolicies, .tick, .editKey ⟨"Demo application", "2"⟩]

theorem timer_load_picking : ∃ s s', exec step .mount picking = some s ∧
    s.app.newKey.policyID = "2" ∧ step s (.finish 0 twoPolicies) = some s' ∧
    s'.app.newKey.policyID = "1" := by
  obtain ⟨s, hs⟩ : ∃ s, exec step .mount picking = some s := ⟨_, rfl⟩
  have hreach : Reach step NoLoadMore .mount s := by
    refine Reach.exec .init (fun s e he => ?_) hs
    simp only [picking, List.mem_cons, List.not_mem_nil, or_false] at he
    rcases he with rfl | rfl | rfl <;> trivial
  obtain ⟨s', hs'⟩ : ∃ s', step s (.finish 0 twoPolicies) = some s' := by
    obtain rfl := Option.some.inj hs
    exact ⟨_, rfl⟩
  have hl : s.loads[0]? = some ⟨.mount, true⟩ := by
    obtain rfl := Option.some.inj hs
    rfl
  obtain ⟨hselected, -⟩ := timer_load hreach hl rfl twoPolicies hs'
  obtain rfl := Option.some.inj hs
  obtain rfl := Option.some.inj hs'
  exact ⟨_, _, rfl, rfl, rfl, (hselected _ rfl).1⟩

/-! ## Selections -/

/-- The form of keys is not edited, or not its policy. -/
def KeepsPolicy (s : Page) : Event → Prop
  | .editKey newKey => newKey.policyID = s.app.newKey.policyID
  | _ => True

def App.selected (app : App) : Prop := app.newKey.policyID ≠ ""

/-- Whatever may load has seen a selection. -/
structure Settled (s : Page) : Prop where
  timer : s.timer.selected
  loads : ∀ l ∈ s.loads, l.seen.selected
  confirm : ∀ seen ∈ s.confirm, seen.selected
  handlers : ∀ seen ∈ s.handlers, seen.selected

theorem preselect_of_selected {seen : String} (h : seen ≠ "") (current : String)
    (policies : List PolicyJSON) : preselect seen current policies = current := by
  cases policies with
  | nil => rfl
  | cons p rest => exact if_neg h

theorem Settled.step {s s' : Page} {e : Event} (h : Settled s) (hsel : s.app.selected)
    (hkeep : KeepsPolicy s e) (hs : Dashboard.step s e = some s') :
    Settled s' ∧ s'.app.newKey.policyID = s.app.newKey.policyID := by
  have hload : ∀ {l : Load}, l.seen.selected → ∀ l' ∈ s.loads ++ [l], l'.seen.selected := by
    intro l hl l' hl'
    rcases List.mem_append.mp hl' with hl' | hl'
    · exact h.loads l' hl'
    · rwa [List.mem_singleton.mp hl']
  have hhandler : ∀ {seen : App}, seen.selected →
      ∀ seen' ∈ s.handlers ++ [seen], seen'.selected := by
    intro seen hseen seen' hseen'
    rcases List.mem_append.mp hseen' with hseen' | hseen'
    · exact h.handlers seen' hseen'
    · rwa [List.mem_singleton.mp hseen']
  cases e with
  | tick =>
      cases hs
      exact ⟨⟨h.timer, hload h.timer, h.confirm, h.handlers⟩, rfl⟩
  | refresh =>
      cases hs
      exact ⟨⟨h.timer, hload hsel, h.confirm, h.handlers⟩, rfl⟩
  | loadMore =>
      cases hs
      exact ⟨⟨hsel, hload hsel, h.confirm, h.handlers⟩, rfl⟩
  | finish k answers =>
      obtain ⟨l, hl, rfl⟩ := Option.map_eq_some_iff.mp hs
      have hseen := h.loads l (List.mem_of_getElem? hl)
      exact ⟨⟨h.timer, fun l' hl' => h.loads l' (List.mem_of_mem_eraseIdx hl'), h.confirm,
        h.handlers⟩, preselect_of_selected hseen _ _⟩
  | editKey newKey =>
      cases hs
      exact ⟨⟨h.timer, h.loads, h.confirm, h.handlers⟩, hkeep⟩
  | submit =>
      cases hs
      exact ⟨⟨h.timer, h.loads, h.confirm, hhandler hsel⟩, rfl⟩
  | confirmAction =>
      cases hs
      refine ⟨⟨h.timer, h.loads, fun seen hseen => ?_, h.handlers⟩, rfl⟩
      rwa [← Option.some.inj hseen]
  | cancel =>
      cases hs
      exact ⟨⟨h.timer, h.loads, nofun, h.handlers⟩, rfl⟩
  | runConfirmedAction =>
      rw [Dashboard.step] at hs
      split at hs
      · cases hs
        exact ⟨h, rfl⟩
      · next seen hseen =>
        cases hs
        exact ⟨⟨h.timer, h.loads, nofun, hhandler (h.confirm seen hseen)⟩, rfl⟩
  | resolve k message =>
      obtain ⟨seen, hseen, rfl⟩ := Option.map_eq_some_iff.mp hs
      exact ⟨⟨h.timer, hload (h.handlers seen (List.mem_of_getElem? hseen)), h.confirm,
        fun seen' hseen' => h.handlers seen' (List.mem_of_mem_eraseIdx hseen')⟩, rfl⟩
  | reject k message =>
      obtain ⟨seen, hseen, rfl⟩ := Option.map_eq_some_iff.mp hs
      exact ⟨⟨h.timer, h.loads, h.confirm, fun seen' hseen' =>
        h.handlers seen' (List.mem_of_mem_eraseIdx hseen')⟩, rfl⟩
  | _ =>
      cases hs
      exact ⟨⟨h.timer, h.loads, h.confirm, h.handlers⟩, rfl⟩

/-- Answers of which only the policies are in. -/
def offering (p : PolicyJSON) : Answers := ⟨none, some [p], none, none, none, none, none⟩

/-- A load that has seen no selection overwrites the one there is. -/
theorem overwritten {s : Page} {k : ℕ} {l : Load} (hl : s.loads[k]? = some l)
    (hstale : ¬ l.seen.selected) (p : PolicyJSON) :
    ∃ t, step s (.finish k (offering p)) = some t ∧ t.app.newKey.policyID = p.id := by
  refine ⟨_, by rw [step, hl]; rfl, ?_⟩
  exact if_pos (not_not.mp hstale)

/-- A handler that is answered loads. -/
theorem handler_loads {s : Page} {seen : App} (hseen : seen ∈ s.handlers) :
    ∃ k t, step s (.resolve k none) = some t ∧ (⟨seen, false⟩ : Load) ∈ t.loads := by
  obtain ⟨k, hk⟩ := List.getElem?_of_mem hseen
  refine ⟨k, _, by rw [step, hk]; rfl, ?_⟩
  exact List.mem_append_right _ (List.mem_singleton_self _)

/-- **A selection is safe** from being overwritten exactly if the timer's render has seen one, and
so have that of the open dialog and all those of the loads and handlers under way: then no run in
which it is not edited changes it. -/
theorem selection_safe_iff (s : Page) (hsel : s.app.selected) :
    (∀ t, Reach step KeepsPolicy s t → t.app.newKey.policyID = s.app.newKey.policyID) ↔
      Settled s := by
  constructor
  · intro hsafe
    let other : PolicyJSON := .of ⟨0, 0⟩ ⟨s.app.newKey.policyID ++ "x", "", "", 1, 1, 1⟩
    have hother : other.id ≠ s.app.newKey.policyID := by
      intro heq
      have := congrArg String.length heq
      simp [other, PolicyJSON.of] at this
    -- every load and every handler of a page of the run has seen a selection
    have hload : ∀ t, Reach step KeepsPolicy s t → ∀ l ∈ t.loads, l.seen.selected := by
      intro t ht l hl
      by_contra hstale
      obtain ⟨k, hk⟩ := List.getElem?_of_mem hl
      obtain ⟨u, hu, hid⟩ := overwritten hk hstale other
      have hreach : Reach step KeepsPolicy s u :=
        ht.next (a := .finish k (offering other)) trivial hu
      exact hother (hid.symm.trans (hsafe u hreach))
    have hhandler : ∀ t, Reach step KeepsPolicy s t → ∀ seen ∈ t.handlers, seen.selected := by
      intro t ht seen hseen
      obtain ⟨k, u, hu, hl⟩ := handler_loads hseen
      exact hload u (ht.next (a := .resolve k none) trivial hu) _ hl
    refine ⟨?_, hload s .init, ?_, hhandler s .init⟩
    · have htick : (⟨s.timer, true⟩ : Load) ∈ s.loads ++ [⟨s.timer, true⟩] :=
        List.mem_append_right _ (List.mem_singleton_self _)
      exact hload _ (.next .init (a := .tick) trivial rfl) _ htick
    · intro seen hseen
      have hs : step s .runConfirmedAction =
          some { s with confirm := none, handlers := s.handlers ++ [seen] } := by
        rw [step, show s.confirm = some seen from hseen]
      exact hhandler _ (.next .init (a := .runConfirmedAction) trivial hs) seen
        (List.mem_append_right _ (List.mem_singleton_self _))
  · intro h t ht
    have hrun : Settled t ∧ t.app.newKey.policyID = s.app.newKey.policyID := by
      refine ht.invariant (I := fun u => Settled u ∧
        u.app.newKey.policyID = s.app.newKey.policyID) ⟨h, rfl⟩ ?_
      rintro u u' e ⟨hu, hid⟩ hkeep hs
      have husel : u.app.selected := fun hempty => hsel (hid.symm.trans hempty)
      obtain ⟨hu', hid'⟩ := hu.step husel hkeep hs
      exact ⟨hu', hid'.trans hid⟩
    exact hrun.2

/-- With two policies in the lists and the second one picked, the page is safe once "load more" has
been clicked and its load is in, also with a dialog that is opened then. -/
theorem selection_safe_iff_loadMore : ∃ s, exec step .mount
    [.finish 0 twoPolicies, .editKey ⟨"Demo application", "2"⟩, .loadMore,
      .finish 0 twoPolicies, .confirmAction] = some s ∧ s.confirm = some s.app ∧
    ∀ t, Reach step KeepsPolicy s t → t.app.newKey.policyID = "2" := by
  have hselected : ("2" : String) ≠ "" := by decide
  refine ⟨_, rfl, rfl, (selection_safe_iff _ ?_).mpr ⟨?_, List.forall_mem_nil _, ?_,
    List.forall_mem_nil _⟩⟩
  · exact hselected
  · exact hselected
  · intro seen hseen
    rw [← Option.some.inj hseen]
    exact hselected

/-- A dialog opened before any policy was there, and confirmed after one was picked. -/
example : (exec step .mount [.confirmAction, .finish 0 twoPolicies,
    .editKey ⟨"Demo application", "2"⟩, .runConfirmedAction, .resolve 0 none,
    .finish 0 twoPolicies]).map (fun s => s.app.newKey.policyID) = some "1" := rfl

end Dashboard

end RateX
