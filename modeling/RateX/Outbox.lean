import Mathlib.Data.List.Induction
import Mathlib.Data.List.Perm.Subperm

/-!
# Outboxes

Requests send messages without waiting for them, and each message is delivered
once, at any later time and in any order with the others. A delivery stores a
value or nothing. The messages are numbered by the request that sent them, and
so are the values stored.

What the messages come to is not a matter of the order: if a message `m` comes
to `g m`, as far as `view` shows it, then, up to order, what is stored and what
the messages in flight will come to is what all messages sent come to
(`Accounted`), for every request (`Accounted.of_request`) and in all
(`Accounted.total`). Where deliveries may fail, what is stored is of what was sent
(`Covered`).
-/

/-- The messages of every request so far, those not yet delivered, and what the
others came to. -/
structure Outbox (ε ρ : Type*) where
  sent : List (List ε)
  inFlight : List (ℕ × ε)
  stored : List (ℕ × ρ)

namespace Outbox

variable {ε ρ κ : Type*}

def empty : Outbox ε ρ := ⟨[], [], []⟩

/-- The next request sends `ms`. -/
def send (o : Outbox ε ρ) (ms : List ε) : Outbox ε ρ :=
  { o with
    sent := o.sent ++ [ms]
    inFlight := o.inFlight ++ ms.map (Prod.mk o.sent.length) }

/-- The message at place `k` of those in flight is delivered. -/
def deliver (o : Outbox ε ρ) (k : ℕ) (f : ε → Option ρ) : Option (Outbox ε ρ) :=
  o.inFlight[k]?.map fun m =>
    { o with
      inFlight := o.inFlight.eraseIdx k
      stored := o.stored ++ ((f m.2).map (Prod.mk m.1)).toList }

/-- What is stored for the request `i`. -/
def storedFor (o : Outbox ε ρ) (i : ℕ) : List ρ :=
  (o.stored.filter fun p => p.1 = i).map Prod.snd

/-! ## Numbered messages -/

def numbered (sent : List (List ε)) : List (ℕ × ε) :=
  sent.zipIdx.flatMap fun p => p.1.map (Prod.mk p.2)

theorem numbered_concat (sent : List (List ε)) (ms : List ε) :
    numbered (sent ++ [ms]) = numbered sent ++ ms.map (Prod.mk sent.length) := by
  simp [numbered, List.zipIdx_append]

theorem map_snd_numbered (sent : List (List ε)) : (numbered sent).map Prod.snd = sent.flatten := by
  induction sent using List.reverseRecOn with
  | nil => rfl
  | append_singleton sent ms ih => simp [numbered_concat, ih, Function.comp_def]

theorem filter_map_mk (n i : ℕ) (ms : List ε) :
    (ms.map (Prod.mk n)).filter (fun p => p.1 = i) = if i = n then ms.map (Prod.mk i) else [] := by
  by_cases hi : i = n
  · subst hi
    rw [if_pos rfl]
    exact List.filter_eq_self.mpr (by simp)
  · rw [if_neg hi]
    exact List.filter_eq_nil_iff.mpr (by simpa using fun _ _ => Ne.symm hi)

theorem filter_numbered (sent : List (List ε)) (i : ℕ) :
    (numbered sent).filter (fun p => p.1 = i) = (sent[i]?.getD []).map (Prod.mk i) := by
  induction sent using List.reverseRecOn with
  | nil => rfl
  | append_singleton sent ms ih =>
      rw [numbered_concat, List.filter_append, ih, filter_map_mk]
      rcases Nat.lt_trichotomy i sent.length with hlt | rfl | hgt
      · rw [if_neg (Nat.ne_of_lt hlt), List.append_nil, List.getElem?_append_left hlt]
      · rw [if_pos rfl, List.getElem?_eq_none (Nat.le_refl _), List.getElem?_concat_length]
        rfl
      · have hbeyond : (sent ++ [ms]).length ≤ i := by
          rw [List.length_append]
          exact Nat.succ_le_of_lt hgt
        rw [if_neg (Nat.ne_of_gt hgt), List.append_nil, List.getElem?_eq_none hbeyond,
          List.getElem?_eq_none (Nat.le_of_lt hgt)]

/-- What a numbered message comes to. -/
def tagged (g : ε → Option κ) (p : ℕ × ε) : Option (ℕ × κ) := (g p.2).map (Prod.mk p.1)

theorem filterMap_tagged (g : ε → Option κ) (i : ℕ) (ms : List ε) :
    (ms.map (Prod.mk i)).filterMap (tagged g) = (ms.filterMap g).map (Prod.mk i) := by
  rw [List.filterMap_map, List.map_filterMap]
  rfl

/-- What the messages of the request `i` come to. -/
theorem filter_tagged (g : ε → Option κ) (sent : List (List ε)) (i : ℕ) :
    ((numbered sent).filterMap (tagged g)).filter (fun p => p.1 = i) =
      ((sent[i]?.getD []).filterMap g).map (Prod.mk i) := by
  rw [← filterMap_tagged, ← filter_numbered, List.filter_filterMap, List.filterMap_filter]
  refine List.filterMap_congr fun p _ => ?_
  unfold tagged
  cases g p.2 with
  | none => simp
  | some c => by_cases hp : p.1 = i <;> simp [hp]

/-! ## The account -/

/-- Nothing sent is lost or stored twice. -/
def Accounted (g : ε → Option κ) (view : ρ → κ) (o : Outbox ε ρ) : Prop :=
  (o.stored.map (Prod.map id view) ++ o.inFlight.filterMap (tagged g)).Perm
    ((numbered o.sent).filterMap (tagged g))

variable {g : ε → Option κ} {view : ρ → κ} {o : Outbox ε ρ}

theorem accounted_empty : Accounted g view (empty : Outbox ε ρ) := List.Perm.refl _

theorem Accounted.send (h : Accounted g view o) (ms : List ε) :
    Accounted g view (o.send ms) := by
  simp only [Accounted, Outbox.send, numbered_concat, List.filterMap_append, ← List.append_assoc]
  exact h.append_right _

theorem Accounted.deliver (h : Accounted g view o) {k : ℕ} {f : ε → Option ρ}
    (hf : ∀ m, (f m).map view = g m) {o' : Outbox ε ρ} (ho : o.deliver k f = some o') :
    Accounted g view o' := by
  obtain ⟨m, hm, rfl⟩ := Option.map_eq_some_iff.mp ho
  obtain ⟨hk, rfl⟩ := List.getElem?_eq_some_iff.mp hm
  refine List.Perm.trans ?_ h
  have hcomes : (((f o.inFlight[k].2).map (Prod.mk o.inFlight[k].1)).toList).map
      (Prod.map id view) = [o.inFlight[k]].filterMap (tagged g) := by
    rw [List.filterMap_cons, List.filterMap_nil, tagged, ← hf]
    cases f o.inFlight[k].2 <;> rfl
  rw [List.map_append, hcomes, List.append_assoc, ← List.filterMap_append]
  exact ((List.getElem_cons_eraseIdx_perm hk).filterMap _).append_left _

theorem deliver_sent {k : ℕ} {f : ε → Option ρ} {o' : Outbox ε ρ} (ho : o.deliver k f = some o') :
    o'.sent = o.sent := by
  obtain ⟨m, -, rfl⟩ := Option.map_eq_some_iff.mp ho
  rfl

/-- When nothing is in flight, a request has stored what its messages come to. -/
theorem Accounted.of_request (h : Accounted g view o) (hdone : o.inFlight = []) (i : ℕ) :
    ((o.storedFor i).map view).Perm ((o.sent[i]?.getD []).filterMap g) := by
  have hi := (h.filter fun p => p.1 = i).map Prod.snd
  rw [hdone, List.filterMap_nil, List.append_nil, List.filter_map] at hi
  rw [filter_tagged, List.map_map, List.map_map] at hi
  simpa [storedFor, Function.comp_def] using hi

theorem Accounted.total (h : Accounted g view o) (hdone : o.inFlight = []) :
    (o.stored.map fun p => view p.2).Perm (o.sent.flatten.filterMap g) := by
  have hall := h.map Prod.snd
  rw [hdone, List.filterMap_nil, List.append_nil, List.map_map, List.map_filterMap] at hall
  rw [← map_snd_numbered, List.filterMap_map]
  have htagged : (fun p : ℕ × ε => (tagged g p).map Prod.snd) = g ∘ Prod.snd := by
    funext p
    cases hp : g p.2 <;> simp [tagged, hp]
  rwa [htagged] at hall

/-! ## Deliveries that fail -/

/-- Nothing is stored that was not sent, and nothing twice; of what was sent some may be lost. -/
def Covered (g : ε → Option κ) (view : ρ → κ) (o : Outbox ε ρ) : Prop :=
  (o.stored.map (Prod.map id view) ++ o.inFlight.filterMap (tagged g)).Subperm
    ((numbered o.sent).filterMap (tagged g))

theorem covered_empty : Covered g view (empty : Outbox ε ρ) := List.Subperm.refl _

theorem Covered.send (h : Covered g view o) (ms : List ε) : Covered g view (o.send ms) := by
  simp only [Covered, Outbox.send, numbered_concat, List.filterMap_append, ← List.append_assoc]
  exact (List.subperm_append_right _).mpr h

/-- A delivery that stores anything stores what its message comes to. -/
theorem Covered.deliver (h : Covered g view o) {k : ℕ} {f : ε → Option ρ}
    (hf : ∀ m r, f m = some r → g m = some (view r)) {o' : Outbox ε ρ}
    (ho : o.deliver k f = some o') : Covered g view o' := by
  obtain ⟨m, hm, rfl⟩ := Option.map_eq_some_iff.mp ho
  obtain ⟨hk, rfl⟩ := List.getElem?_eq_some_iff.mp hm
  refine List.Subperm.trans ?_ h
  have hcomes : ((((f o.inFlight[k].2).map (Prod.mk o.inFlight[k].1)).toList).map
      (Prod.map id view)).Sublist ([o.inFlight[k]].filterMap (tagged g)) := by
    rw [List.filterMap_cons, List.filterMap_nil, tagged]
    cases hr : f o.inFlight[k].2 with
    | none => exact List.nil_sublist _
    | some r =>
        rw [hf _ r hr]
        exact List.Sublist.refl _
  have hflight := (List.getElem_cons_eraseIdx_perm hk).filterMap (tagged g)
  rw [List.map_append, List.append_assoc]
  refine (List.subperm_append_left _).mpr ((hcomes.append_right _).subperm.trans ?_)
  rw [← List.filterMap_append]
  exact hflight.subperm

/-- What is stored for a request is of what its messages come to. -/
theorem Covered.of_request (h : Covered g view o) (i : ℕ) :
    ((o.storedFor i).map view).Subperm ((o.sent[i]?.getD []).filterMap g) := by
  have hstored := (List.sublist_append_left (o.stored.map (Prod.map id view))
    (o.inFlight.filterMap (tagged g))).subperm.trans h
  obtain ⟨l, hperm, hsub⟩ := hstored.filter fun p => p.1 = i
  rw [filter_tagged] at hsub
  have hl := hperm.map Prod.snd
  rw [List.filter_map, List.map_map] at hl
  have hof := (hsub.map Prod.snd).subperm
  rw [List.map_map] at hof
  simpa [storedFor, Function.comp_def] using hl.symm.subperm.trans hof

theorem eq_of_subperm_toList {l : List κ} {c : Option κ} (h : l.Subperm c.toList) :
    l = [] ∨ ∃ k, c = some k ∧ l = [k] := by
  obtain ⟨l', hperm, hsub⟩ := h
  cases c with
  | none =>
      rw [Option.toList_none, List.sublist_nil] at hsub
      rw [hsub] at hperm
      exact .inl hperm.nil_eq.symm
  | some k =>
      rw [Option.toList_some, List.sublist_singleton] at hsub
      rcases hsub with rfl | rfl
      · exact .inl hperm.nil_eq.symm
      · exact .inr ⟨k, rfl, (List.singleton_perm.mp hperm).symm⟩

/-- What is stored is stored for one of the requests. -/
theorem Covered.lt_length (h : Covered g view o) {p : ℕ × ρ} (hp : p ∈ o.stored) :
    p.1 < o.sent.length := by
  by_contra hge
  have hmem : p.2 ∈ o.storedFor p.1 :=
    List.mem_map.mpr ⟨p, List.mem_filter.mpr ⟨hp, decide_eq_true rfl⟩, rfl⟩
  have hone := h.of_request p.1
  rw [List.getElem?_eq_none (Nat.not_lt.mp hge)] at hone
  exact absurd (hone.subset (List.mem_map_of_mem hmem)) List.not_mem_nil

/-- The first message in flight can be delivered, whatever it comes to. -/
theorem exists_deliver (hne : o.inFlight ≠ []) (f : ε → Option ρ) :
    ∃ o', o.deliver 0 f = some o' ∧ o'.inFlight = o.inFlight.tail := by
  obtain ⟨m, ms, hms⟩ := List.exists_cons_of_ne_nil hne
  simp [deliver, hms]

end Outbox
