import Mathlib.Data.List.Induction
import Mathlib.Order.Basic

/-!
# Transducers: runs of a deterministic machine

A step function `σ → ι → ο × σ` answers one input and moves the state. This
file is the run theory such machines share, independent of what is answered:
the paired `trace` of a run, the one induction over a run
(`trace_invariant`, an invariant of the past trace and the present state),
the transport of a run along a projection of the state (`trace_eq_of_proj`)
and the unwinding theorem (`trace_filter_eq`): a class of inputs whose
answers no other input can influence may be run alone.
-/

namespace Transducer

variable {σ τ ι ο : Type*}

/-- The state a list of inputs leaves behind. -/
def after (step : σ → ι → ο × σ) : σ → List ι → σ
  | s, [] => s
  | s, i :: is => after step (step s i).2 is

/-- Every input of a run beside its answer, in order. -/
def trace (step : σ → ι → ο × σ) : σ → List ι → List (ι × ο)
  | _, [] => []
  | s, i :: is => (i, (step s i).1) :: trace step (step s i).2 is

variable {step : σ → ι → ο × σ}

@[simp] theorem after_nil (s : σ) : after step s [] = s := rfl

@[simp] theorem after_cons (s : σ) (i : ι) (is : List ι) :
    after step s (i :: is) = after step (step s i).2 is := rfl

@[simp] theorem trace_nil (s : σ) : trace step s [] = [] := rfl

@[simp] theorem trace_cons (s : σ) (i : ι) (is : List ι) :
    trace step s (i :: is) = (i, (step s i).1) :: trace step (step s i).2 is := rfl

theorem after_append (s : σ) (is js : List ι) :
    after step s (is ++ js) = after step (after step s is) js := by
  induction is generalizing s with
  | nil => rfl
  | cons i is ih => exact ih _

theorem trace_append (s : σ) (is js : List ι) :
    trace step s (is ++ js) = trace step s is ++ trace step (after step s is) js := by
  induction is generalizing s with
  | nil => rfl
  | cons i is ih => simp [ih]

theorem trace_map_fst (s : σ) (is : List ι) : (trace step s is).map Prod.fst = is := by
  induction is generalizing s with
  | nil => rfl
  | cons i is ih => simp [ih]

/-- The parts of a trace are the traces of the parts. -/
theorem exists_of_trace_eq_append {s : σ} {is : List ι} {tr us : List (ι × ο)}
    (h : trace step s is = tr ++ us) : ∃ is₁ is₂, is = is₁ ++ is₂ ∧ tr = trace step s is₁ ∧
      us = trace step (after step s is₁) is₂ := by
  induction tr generalizing s is with
  | nil => exact ⟨[], is, rfl, rfl, h.symm⟩
  | cons p tr ih =>
      cases is with
      | nil => cases h
      | cons i is =>
          obtain ⟨rfl, hrest⟩ := List.cons_eq_cons.mp h
          obtain ⟨is₁, is₂, rfl, htr, hus⟩ := ih hrest
          exact ⟨i :: is₁, is₂, rfl, by rw [trace_cons, htr], hus⟩

theorem mem_of_mem_trace {s : σ} {is : List ι} {p : ι × ο} (hp : p ∈ trace step s is) :
    p.1 ∈ is := by
  rw [← @trace_map_fst σ ι ο step s is]
  exact List.mem_map_of_mem hp

/-- The induction every run property goes through: `I` relates the trace so
far to the state it left, `R` is what the list of inputs guarantees between an
earlier and a later input (order of time, distinctness), `P` what it
guarantees of each. -/
theorem trace_invariant (step : σ → ι → ο × σ) {I : List (ι × ο) → σ → Prop}
    {R : ι → ι → Prop} {P : ι → Prop} {s : σ} {is : List ι} (hR : is.Pairwise R)
    (hP : ∀ i ∈ is, P i) (h0 : I [] s)
    (hstep : ∀ past s i, I past s → (∀ p ∈ past, R p.1 i) → P i →
      I (past ++ [(i, (step s i).1)]) (step s i).2) :
    I (trace step s is) (after step s is) := by
  induction is using List.reverseRecOn with
  | nil => exact h0
  | append_singleton is i ih =>
      rw [List.pairwise_append] at hR
      obtain ⟨hRis, -, hRi⟩ := hR
      rw [trace_append, after_append]
      exact hstep _ _ _ (ih hRis fun j hj => hP j (List.mem_append_left _ hj))
        (fun p hp => hRi p.1 (mem_of_mem_trace hp) i (List.mem_singleton.mpr rfl))
        (hP i (by simp))

/-- A run seen through a projection `f` of the state is a run of the projected
machine, answer for answer. -/
theorem trace_eq_of_proj {step' : τ → ι → ο × τ} (f : σ → τ) {is : List ι}
    (h : ∀ s, ∀ i ∈ is, step' (f s) i = ((step s i).1, f (step s i).2)) (s : σ) :
    trace step s is = trace step' (f s) is := by
  induction is generalizing s with
  | nil => rfl
  | cons i is ih =>
      have hi := h s i (List.mem_cons_self ..)
      rw [trace_cons, trace_cons, hi, ih fun s j hj => h s j (List.mem_cons_of_mem _ hj)]

/-- Two machines in simulation, the second fed through `f`: what `o` shows of
the first's answers, `o'` shows of the second's, and they end in related
states. `S` carries the past trace, so that it may speak of the last input. -/
theorem trace_observe {κ ρ β : Type*} (step : σ → ι → ο × σ) (step' : τ → κ → ρ × τ) (f : ι → κ)
    (o : ο → β) (o' : ρ → β) {S : List (ι × ο) → σ → τ → Prop}
    {R : ι → ι → Prop} {P : ι → Prop} (is : List ι) {s : σ} {t : τ}
    (hR : is.Pairwise R) (hP : ∀ i ∈ is, P i) (h0 : S [] s t)
    (hstep : ∀ past s t i, S past s t → (∀ p ∈ past, R p.1 i) → P i →
      o (step s i).1 = o' (step' t (f i)).1 ∧
        S (past ++ [(i, (step s i).1)]) (step s i).2 (step' t (f i)).2) :
    (trace step s is).map (fun p => (f p.1, o p.2)) =
        (trace step' t (is.map f)).map (fun p => (p.1, o' p.2)) ∧
      S (trace step s is) (after step s is) (after step' t (is.map f)) := by
  induction is using List.reverseRecOn with
  | nil => exact ⟨rfl, h0⟩
  | append_singleton is i ih =>
      rw [List.pairwise_append] at hR
      obtain ⟨hRis, -, hRi⟩ := hR
      obtain ⟨htr, hS⟩ := ih hRis fun j hj => hP j (List.mem_append_left _ hj)
      obtain ⟨hout, hS'⟩ := hstep _ _ _ i hS (fun p hp => hRi p.1 (mem_of_mem_trace hp) i
        (List.mem_singleton.mpr rfl)) (hP i (by simp))
      simp only [trace_append, after_append, trace_cons, trace_nil, after_cons, after_nil,
        List.map_append, List.map_cons, List.map_nil]
      exact ⟨by rw [htr, hout], hS'⟩

/-- Two machines in simulation that answer alike have one trace. -/
theorem trace_sim (step : σ → ι → ο × σ) (step' : τ → ι → ο × τ) {S : List (ι × ο) → σ → τ → Prop}
    {R : ι → ι → Prop} {P : ι → Prop} {s : σ} {t : τ} {is : List ι}
    (hR : is.Pairwise R) (hP : ∀ i ∈ is, P i) (h0 : S [] s t)
    (hstep : ∀ past s t i, S past s t → (∀ p ∈ past, R p.1 i) → P i →
      (step s i).1 = (step' t i).1 ∧
        S (past ++ [(i, (step s i).1)]) (step s i).2 (step' t i).2) :
    trace step s is = trace step' t is ∧
      S (trace step s is) (after step s is) (after step' t is) := by
  simpa using trace_observe step step' id id id is hR hP h0 hstep

/-- **Unwinding.** `E` relates states that agree on what the inputs of class
`p` can read. If related states answer a `p`-input alike and stay related,
and every other input leaves the state related to what it was, then deleting
the other inputs changes no answer given to class `p`. -/
theorem trace_filter_eq {p : ι → Bool} {E : σ → σ → Prop}
    (hin : ∀ s t i, p i = true → E s t →
      (step s i).1 = (step t i).1 ∧ E (step s i).2 (step t i).2)
    (hout : ∀ s t i, p i = false → E s t → E (step s i).2 t)
    {s t : σ} (hE : E s t) (is : List ι) :
    (trace step s is).filter (fun x => p x.1) = trace step t (is.filter p) := by
  induction is generalizing s t with
  | nil => rfl
  | cons i is ih =>
      cases hp : p i with
      | true =>
          obtain ⟨heq, hE'⟩ := hin s t i hp hE
          simp only [trace_cons, List.filter_cons, hp, if_true, heq, ih hE']
      | false =>
          simp only [trace_cons, List.filter_cons, hp, Bool.false_eq_true, if_false]
          exact ih (hout s t i hp hE)

end Transducer
