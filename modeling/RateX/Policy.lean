import RateX.GoText
import Mathlib.Tactic.Linarith

/-!
# Policies

The policy record, as the API, the database and the factory pass it around,
and its validation. `validatePolicy` answers with the policy it normalised;
`Accepted` is what all its answers satisfy, and nothing else does.
-/

namespace RateX

structure Policy where
  id : String
  name : String
  algorithm : String
  requestLimit : Int
  windowSeconds : Int
  burstCapacity : Int
deriving Repr, DecidableEq

def algorithmTokenBucket : String := "token_bucket"
def algorithmFixedWindow : String := "fixed_window"
def algorithmSlidingWindow : String := "sliding_window"

/-- The algorithm a policy asks for, in the spelling the code compares with. -/
def normalAlgorithm (algorithm : String) : String :=
  let algorithm := toLower (trimSpace algorithm)
  if algorithm = "" then algorithmTokenBucket else algorithm

def KnownAlgorithm (algorithm : String) : Prop :=
  algorithm = algorithmTokenBucket ∨ algorithm = algorithmFixedWindow ∨
    algorithm = algorithmSlidingWindow

instance (algorithm : String) : Decidable (KnownAlgorithm algorithm) :=
  inferInstanceAs (Decidable (_ ∨ _ ∨ _))

def validatePolicy (policy : Policy) : Except String Policy :=
  let algorithm := normalAlgorithm policy.algorithm
  if ¬ KnownAlgorithm algorithm then
    .error "unsupported algorithm"
  else if policy.requestLimit ≤ 0 ∨ policy.windowSeconds ≤ 0 then
    .error "request_limit and window_seconds must be positive"
  else
    let burstCapacity :=
      if policy.burstCapacity ≤ 0 then policy.requestLimit else policy.burstCapacity
    .ok { policy with algorithm, burstCapacity }

/-- The normal form of a valid policy. -/
structure Accepted (policy : Policy) : Prop where
  known : KnownAlgorithm policy.algorithm
  limit_pos : 1 ≤ policy.requestLimit
  window_pos : 1 ≤ policy.windowSeconds
  burst_pos : 1 ≤ policy.burstCapacity

/-- What the columns and the checks of `rate_limit_policies` admit. -/
structure Stored (policy : Policy) : Prop extends Accepted policy where
  limit_lt : policy.requestLimit < 2 ^ 31
  window_lt : policy.windowSeconds < 2 ^ 31
  burst_lt : policy.burstCapacity < 2 ^ 31

theorem accepted_of_validatePolicy {policy valid : Policy} (h : validatePolicy policy = .ok valid) :
    Accepted valid := by
  unfold validatePolicy at h
  generalize normalAlgorithm policy.algorithm = algorithm at h
  by_cases hknown : KnownAlgorithm algorithm
  · by_cases hpos : policy.requestLimit ≤ 0 ∨ policy.windowSeconds ≤ 0
    · rw [if_neg (not_not_intro hknown), if_pos hpos] at h
      cases h
    · rw [if_neg (not_not_intro hknown), if_neg hpos] at h
      obtain rfl := Except.ok.inj h
      refine ⟨hknown, by simp only; omega, by simp only; omega, ?_⟩
      simp only
      split <;> omega
  · rw [if_pos hknown] at h
    cases h

theorem normalAlgorithm_of_known {algorithm : String} (h : KnownAlgorithm algorithm) :
    normalAlgorithm algorithm = algorithm := by
  rcases h with rfl | rfl | rfl <;> decide +kernel

theorem validatePolicy_of_accepted {policy : Policy} (h : Accepted policy) :
    validatePolicy policy = .ok policy := by
  have h1 := h.limit_pos
  have h2 := h.window_pos
  have h3 := h.burst_pos
  unfold validatePolicy
  rw [normalAlgorithm_of_known h.known, if_neg (not_not_intro h.known), if_neg (by omega),
    if_neg (by omega)]

end RateX
