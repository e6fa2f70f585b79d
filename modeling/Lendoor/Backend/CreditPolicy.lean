import Mathlib.Algebra.GroupWithZero.Nat
import Mathlib.Data.List.Basic

/-! # The credit ladder

The steps that repaid loans earn, each with its score and limit, as `CreditPolicyService`
reads them off.
-/

namespace Lendoor.Backend

structure CreditLadderStep where
  minOnTimeLoans : Nat
  score : Nat
  limitUsdc : Nat
  xpBase : Nat
  deriving DecidableEq, Repr

def creditLadderBottom : CreditLadderStep := ⟨0, 1, 1, 1⟩

def creditLadder : List CreditLadderStep :=
  [creditLadderBottom, ⟨1, 2, 3, 11⟩, ⟨2, 3, 4, 21⟩, ⟨3, 4, 6, 31⟩, ⟨4, 5, 8, 41⟩, ⟨5, 6, 10, 51⟩,
    ⟨6, 7, 12, 61⟩, ⟨7, 8, 15, 71⟩, ⟨8, 9, 18, 81⟩, ⟨9, 10, 22, 91⟩, ⟨10, 11, 25, 101⟩]

/-- The loop over the ladder: the last step before the first one that is not reached. -/
def climb (reached : CreditLadderStep → Bool) :
    CreditLadderStep → List CreditLadderStep → CreditLadderStep
  | best, [] => best
  | best, step :: rest => if reached step then climb reached step rest else best

def getStepForOnTimeLoans (onTimeLoans : Nat) : CreditLadderStep :=
  climb (fun step => step.minOnTimeLoans ≤ onTimeLoans) creditLadderBottom creditLadder

def getStepForScore (score : Nat) : CreditLadderStep :=
  climb (fun step => step.score ≤ score) creditLadderBottom creditLadder

theorem climb_mem (reached : CreditLadderStep → Bool) (best : CreditLadderStep)
    (steps : List CreditLadderStep) : climb reached best steps ∈ best :: steps := by
  induction steps generalizing best with
  | nil => simp [climb]
  | cons step steps ih =>
      rw [climb]
      split
      · exact List.mem_cons_of_mem _ (ih step)
      · simp

/-- Where more is reached, the limit is no lower. -/
theorem climb_mono {reached reached' : CreditLadderStep → Bool} {best : CreditLadderStep}
    {steps : List CreditLadderStep} (himp : ∀ step, reached step = true → reached' step = true)
    (hsorted : (best :: steps).Pairwise fun a b => a.limitUsdc ≤ b.limitUsdc) :
    (climb reached best steps).limitUsdc ≤ (climb reached' best steps).limitUsdc := by
  induction steps generalizing best with
  | nil => exact Nat.le_refl _
  | cons step steps ih =>
      have htail := List.pairwise_cons.mp hsorted
      rw [climb, climb]
      split
      · rename_i hreached
        rw [if_pos (himp step hreached)]
        exact ih htail.2
      · split
        · exact htail.1 _ (climb_mem _ _ _)
        · exact Nat.le_refl _

theorem getStepForOnTimeLoans_mem (onTimeLoans : Nat) :
    getStepForOnTimeLoans onTimeLoans ∈ creditLadder := by
  have hmem :=
    climb_mem (fun step => step.minOnTimeLoans ≤ onTimeLoans) creditLadderBottom creditLadder
  rcases List.mem_cons.mp hmem with hbottom | hmem
  · rw [getStepForOnTimeLoans, hbottom]
    decide
  · exact hmem

/-- The score of a step leads back to the step. -/
theorem getStepForScore_score (onTimeLoans : Nat) :
    getStepForScore (getStepForOnTimeLoans onTimeLoans).score =
      getStepForOnTimeLoans onTimeLoans := by
  have hall : (creditLadder.all fun step => getStepForScore step.score = step) = true := by decide
  exact of_decide_eq_true (List.all_eq_true.mp hall _ (getStepForOnTimeLoans_mem onTimeLoans))

theorem getStepForScore_mono {score score' : Nat} (hle : score ≤ score') :
    (getStepForScore score).limitUsdc ≤ (getStepForScore score').limitUsdc := by
  refine climb_mono (fun step hstep => ?_) (by decide)
  simp only [decide_eq_true_eq] at hstep ⊢
  omega

/-- `toUnits` of a whole amount. -/
def toUnits (amount : Nat) : Nat := amount * 10 ^ 7

/-- `DEFAULT_CREDIT_LIMIT_USDC` -/
def defaultCreditLimit : Nat := toUnits 1

end Lendoor.Backend
