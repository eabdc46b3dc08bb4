import RateX.ClusterLimiters

/-!
# The replies of the cluster

A request gets its reply from the last of its moves, or is refused by the first
(`move_ends`). A reply is final (`task_final`), and is made from what the limiter
answered (`replied_reach`).
-/

namespace RateX

namespace Cluster

open Redis Steps

section Move

variable {srv : Server} {now : ℚ} {db : Database} {req : Request} {stage : Stage} {m : Move}
  {s : Instance × Store} {out : Stage × Instance × Store}

theorem Reached.stage_reply (t : Ticket) (reading : ℚ) (reached : Reached) :
    (reached.stage t reading).reply = none := by
  cases reached <;> rfl

theorem Stage.ofExpire_reply (t : Ticket) (reading : ℚ) (l : FixedWindow) (redisKey : String)
    (count : ℤ) (reply : Except Redis.Error Unit) :
    (Stage.ofExpire t reading l redisKey count reply).reply = none := by
  cases reply <;> rfl

/-- A request gets its reply from the last of its moves, or is refused by the first. -/
theorem move_ends (h : move srv now db req stage m s = some out) : stage.reply = none ∧
    ((∃ handler durationMS t reading outcome, m = .respond handler durationMS ∧
        stage = .answered t reading outcome ∧
        out.1 = .served t reading outcome (reply srv req t outcome handler durationMS)) ∨
      (∀ handler durationMS, m ≠ .respond handler durationMS) ∧
        (out.1.reply = none ∨ out.1 = .refused (refusal req))) := by
  unfold move at h
  split at h
  · split at h
    · cases h
      exact ⟨rfl, .inr ⟨nofun, .inl rfl⟩⟩
    · cases h
      exact ⟨rfl, .inr ⟨nofun, .inr rfl⟩⟩
  · cases h
    exact ⟨rfl, .inr ⟨nofun, .inl rfl⟩⟩
  · split at h
    · cases h
      exact ⟨rfl, .inr ⟨nofun, .inl rfl⟩⟩
    · cases h
      exact ⟨rfl, .inr ⟨nofun, .inl rfl⟩⟩
  · split at h
    · cases h
      exact ⟨rfl, .inr ⟨nofun, .inl (Reached.stage_reply ..)⟩⟩
    · cases h
      exact ⟨rfl, .inr ⟨nofun, .inl rfl⟩⟩
  · cases h
    exact ⟨rfl, .inr ⟨nofun, .inl (Stage.ofExpire_reply ..)⟩⟩
  · cases h
    exact ⟨rfl, .inr ⟨nofun, .inl rfl⟩⟩
  · cases h
    exact ⟨rfl, .inl ⟨_, _, _, _, _, rfl, rfl, rfl⟩⟩
  · cases h

end Move

section Runs

variable {d : Deployment} {s s' : Sys} {n : ℕ} {x : Task}

/-- A request that has its reply is left alone. -/
theorem task_final {a : Action} (hs : step d s a = some s') (hx : s.tasks n = some x)
    (hreply : x.stage.reply ≠ none) : s'.tasks n = some x := by
  cases step_stepped hs with
  | tick hle => exact hx
  | admin => exact hx
  | @arrive k i req hfree =>
      refine (Function.update_of_ne ?_ ..).trans hx
      rintro rfl
      rw [hfree] at hx
      cases hx
  | @move k m y out hy hmember hout =>
      refine (Function.update_of_ne ?_ ..).trans hx
      rintro rfl
      obtain rfl := Option.some.inj (hx.symm.trans hy)
      exact hreply (move_ends hout).1

/-- The reply to a request is made from what it was answered. -/
def Stage.Replied (srv : Server) (req : Request) : Stage → Prop
  | .served t _ outcome out =>
      ∃ handler durationMS, out = Cluster.reply srv req t outcome handler durationMS
  | _ => True

theorem replied_of_no_reply {srv : Server} {req : Request} {stage : Stage}
    (h : stage.reply = none) : stage.Replied srv req := by
  cases stage with
  | served t reading outcome out => cases h
  | _ => trivial

theorem replied_reach {db : Database} {G : Sys → Action → Prop}
    (hs : Reach (step d) G (Sys.init d db) s) (hx : s.tasks n = some x) :
    x.stage.Replied (d.server x.inst) x.request := by
  refine hs.invariant (I := fun s => ∀ n x, s.tasks n = some x →
    x.stage.Replied (d.server x.inst) x.request) (fun n x h => ?_) ?_ n x hx
  · cases h
  · intro s s' a ih _ hs
    cases step_stepped hs with
    | tick hle => exact ih
    | admin => exact ih
    | arrive hfree => exact forall_tasks ih trivial
    | @move k m y out hy hmember hout =>
        refine forall_tasks ih ?_
        show out.1.Replied (d.server y.inst) y.request
        obtain ⟨-, ⟨handler, durationMS, t, reading, outcome, -, -, heq⟩ | ⟨-, hnone | heq⟩⟩ :=
          move_ends hout
        · rw [heq]
          exact ⟨handler, durationMS, rfl⟩
        · exact replied_of_no_reply hnone
        · rw [heq]
          trivial

end Runs

end Cluster

end RateX
