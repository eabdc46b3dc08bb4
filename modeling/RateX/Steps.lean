import Mathlib.Data.List.Induction
import Mathlib.Logic.Basic

/-!
# Labelled step systems

A system is a partial step function `σ → α → Option σ`: an action that is not
enabled has no result. `Reach step G s₀` are the states of the runs from `s₀`
whose every step meets the guard `G` in the state in which it is taken; with a
trivial guard, of all runs. `exec` runs a list of actions, for concrete runs;
`Along` says of a list of actions that each step it takes satisfies a relation
between the two states. A run may be purged of actions that the others cannot see
(`exec_purge`), and searched for the step that made something so (`exec_turn`).
-/

namespace Steps

variable {σ α : Type*}

inductive Reach (step : σ → α → Option σ) (G : σ → α → Prop) (s₀ : σ) : σ → Prop
  | init : Reach step G s₀ s₀
  | next {s s' : σ} {a : α} : Reach step G s₀ s → G s a → step s a = some s' → Reach step G s₀ s'

def Any (_ : σ) (_ : α) : Prop := True

variable {step : σ → α → Option σ} {G : σ → α → Prop} {s₀ s : σ}

theorem Reach.invariant {I : σ → Prop} (h0 : I s₀)
    (hstep : ∀ s s' a, I s → G s a → step s a = some s' → I s') (h : Reach step G s₀ s) : I s := by
  induction h with
  | init => exact h0
  | next _ hG hs ih => exact hstep _ _ _ ih hG hs

def exec (step : σ → α → Option σ) : σ → List α → Option σ
  | s, [] => some s
  | s, a :: as => (step s a).bind fun s' => exec step s' as

theorem exec_append (s : σ) (as bs : List α) :
    exec step s (as ++ bs) = (exec step s as).bind fun s' => exec step s' bs := by
  induction as generalizing s with
  | nil => rfl
  | cons a as ih =>
      simp only [List.cons_append, exec]
      cases step s a with
      | none => rfl
      | some s' => exact ih s'

/-- A run of actions that meet the guard in every state. -/
theorem Reach.exec {as : List α} (h : Reach step G s₀ s) (hG : ∀ s, ∀ a ∈ as, G s a) {s' : σ}
    (hs : exec step s as = some s') : Reach step G s₀ s' := by
  induction as generalizing s with
  | nil =>
      obtain rfl := Option.some.inj hs
      exact h
  | cons a as ih =>
      obtain ⟨t, ha, ht⟩ := Option.bind_eq_some_iff.mp hs
      exact ih (h.next (hG s a (List.mem_cons_self ..)) ha)
        (fun s b hb => hG s b (List.mem_cons_of_mem _ hb)) ht

/-- What relates a state to the actions that led to it. -/
theorem exec_invariant {I : List α → σ → Prop} (h0 : I [] s₀)
    (hstep : ∀ past s s' a, I past s → step s a = some s' → I (past ++ [a]) s') {as : List α}
    (hs : exec step s₀ as = some s) : I as s := by
  induction as using List.reverseRecOn generalizing s with
  | nil =>
      obtain rfl := Option.some.inj hs
      exact h0
  | append_singleton as a ih =>
      rw [exec_append] at hs
      obtain ⟨t, ht, hone⟩ := Option.bind_eq_some_iff.mp hs
      obtain ⟨t', ha, hlast⟩ := Option.bind_eq_some_iff.mp hone
      obtain rfl := Option.some.inj hlast
      exact hstep as t _ a (ih ht) ha

/-- A run that looks before each of its steps, where what it looks for also
keeps an invariant up. -/
theorem reach_of_checked {check : σ → α → Bool} {I : σ → Prop}
    (hG : ∀ s a, I s → check s a = true → G s a)
    (hI : ∀ s s' a, I s → check s a = true → step s a = some s' → I s') (h : Reach step G s₀ s)
    (h0 : I s) {as : List α} {s' : σ}
    (hs : exec (fun s a => if check s a then step s a else none) s as = some s') :
    Reach step G s₀ s' := by
  induction as generalizing s with
  | nil =>
      obtain rfl := Option.some.inj hs
      exact h
  | cons a as ih =>
      obtain ⟨t, ha, ht⟩ := Option.bind_eq_some_iff.mp hs
      change (if check s a = true then step s a else none) = some t at ha
      split at ha
      · rename_i hcheck
        exact ih (h.next (hG s a h0 hcheck) ha) (hI s t a h0 hcheck ha) ht
      · cases ha

theorem reach_exec {as : List α} (h : Reach step Any s₀ s) {s' : σ}
    (hs : exec step s as = some s') : Reach step Any s₀ s' :=
  h.exec (fun _ _ _ => trivial) hs

/-- Every step of the run satisfies `P`; a run ends at an action that is not enabled. -/
def Along (step : σ → α → Option σ) (P : σ → α → σ → Prop) : σ → List α → Prop
  | _, [] => True
  | s, a :: as => ∀ s', step s a = some s' → P s a s' ∧ Along step P s' as

theorem along_of_forall {P : σ → α → σ → Prop} {as : List α} (h : ∀ a ∈ as, ∀ s s', P s a s') :
    Along step P s as := by
  induction as generalizing s with
  | nil => trivial
  | cons a as ih =>
      exact fun s' _ => ⟨h a (List.mem_cons_self ..) s s',
        ih fun b hb => h b (List.mem_cons_of_mem _ hb)⟩

theorem along_append {P : σ → α → σ → Prop} {as bs : List α} : Along step P s (as ++ bs) ↔
    Along step P s as ∧ ∀ t, exec step s as = some t → Along step P t bs := by
  induction as generalizing s with
  | nil => exact ⟨fun h => ⟨trivial, fun t ht => Option.some.inj ht ▸ h⟩, fun h => h.2 s rfl⟩
  | cons a as ih =>
      constructor
      · intro h
        refine ⟨fun s' hs => ⟨(h s' hs).1, (ih.mp (h s' hs).2).1⟩, fun t ht => ?_⟩
        obtain ⟨s', hs, ht⟩ := Option.bind_eq_some_iff.mp ht
        exact (ih.mp (h s' hs).2).2 t ht
      · rintro ⟨has, hbs⟩ s' hs
        refine ⟨(has s' hs).1, ih.mpr ⟨(has s' hs).2, fun t ht => hbs t ?_⟩⟩
        exact Option.bind_eq_some_iff.mpr ⟨s', hs, ht⟩

/-- Relations that agree on the steps from the states of an invariant agree
along every run from one. -/
theorem along_iff {I : σ → Prop} {P Q : σ → α → σ → Prop}
    (hI : ∀ s s' a, I s → step s a = some s' → I s')
    (hPQ : ∀ s s' a, I s → step s a = some s' → (P s a s' ↔ Q s a s')) (h : I s) (as : List α) :
    Along step P s as ↔ Along step Q s as := by
  induction as generalizing s with
  | nil => exact Iff.rfl
  | cons a as ih =>
      constructor
      · intro hP s' hs
        exact ⟨(hPQ s s' a h hs).mp (hP s' hs).1, (ih (hI s s' a h hs)).mp (hP s' hs).2⟩
      · intro hQ s' hs
        exact ⟨(hPQ s s' a h hs).mpr (hQ s' hs).1, (ih (hI s s' a h hs)).mpr (hQ s' hs).2⟩

/-! ## Purging -/

/-- What a step cannot bring about, a run ends without only if it starts without. -/
theorem exec_back {J : σ → Prop} (hback : ∀ s s' a, step s a = some s' → J s' → J s) {as : List α}
    {s' : σ} (hs : exec step s as = some s') (h : J s') : J s := by
  induction as generalizing s with
  | nil =>
      obtain rfl := Option.some.inj hs
      exact h
  | cons a as ih =>
      obtain ⟨t, ha, ht⟩ := Option.bind_eq_some_iff.mp hs
      exact hback s t a ha (ih ht)

/-- **Purging.** `E` relates states that agree on what the actions of class `p`
can see. If an action of the class does in a related state what it did, and
every other action leaves the state related to what it was, then a run without
the others is a run, and ends in a related state. `J` is what is known of every
state of the run by its end. -/
theorem exec_purge {p : α → Bool} {E : σ → σ → Prop} {J : σ → Prop}
    (hback : ∀ s s' a, step s a = some s' → J s' → J s)
    (hin : ∀ s s' t a, p a = true → J s' → E s t → step s a = some s' →
      ∃ t', step t a = some t' ∧ E s' t')
    (hout : ∀ s s' t a, p a = false → J s' → E s t → step s a = some s' → E s' t)
    {as : List α} {s s' t : σ} (hE : E s t) (hJ : J s') (hs : exec step s as = some s') :
    ∃ t', exec step t (as.filter p) = some t' ∧ E s' t' := by
  induction as generalizing s t with
  | nil =>
      obtain rfl := Option.some.inj hs
      exact ⟨t, rfl, hE⟩
  | cons a as ih =>
      obtain ⟨u, ha, hu⟩ := Option.bind_eq_some_iff.mp hs
      have hJu : J u := exec_back hback hu hJ
      cases hp : p a with
      | true =>
          obtain ⟨t', ht, hE'⟩ := hin s u t a hp hJu hE ha
          rw [List.filter_cons_of_pos hp, exec, ht]
          exact ih hE' hu
      | false =>
          rw [List.filter_cons_of_neg (by simp [hp])]
          exact ih (hout s u t a hp hJu hE ha) hu

/-- What holds at the end of a run and not at its start, a step of it brought
about, and nothing has undone since. -/
theorem exec_turn {P : σ → Prop} {as : List α} {s' : σ} (hs : exec step s as = some s')
    (h0 : ¬ P s) (h : P s') : ∃ before a later t t', as = before ++ a :: later ∧
      exec step s before = some t ∧ step t a = some t' ∧ exec step t' later = some s' ∧
      ¬ P t ∧ P t' := by
  induction as generalizing s with
  | nil =>
      obtain rfl := Option.some.inj hs
      exact absurd h h0
  | cons a as ih =>
      obtain ⟨u, ha, hu⟩ := Option.bind_eq_some_iff.mp hs
      by_cases hP : P u
      · exact ⟨[], a, as, s, u, rfl, rfl, ha, hu, h0, hP⟩
      · obtain ⟨before, b, later, t, t', rfl, hbefore, ht, hlater, hturn⟩ := ih hu hP
        refine ⟨a :: before, b, later, t, t', rfl, ?_, ht, hlater, hturn⟩
        rw [exec, ha]
        exact hbefore

end Steps
