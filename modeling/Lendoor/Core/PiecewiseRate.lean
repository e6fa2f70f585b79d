import Mathlib.Algebra.Order.Floor.Ring
import Mathlib.Tactic.Linarith
import Mathlib.Tactic.Ring

/-! # Charging a changing rate in whole units

An amount accrues at a rate that is switched at listed times. It is charged as the
difference of whole cumulative amounts at the current rate, so the roundings of one
piece cancel and each switch costs less than one unit either way.
-/

namespace Lendoor.PiecewiseRate

/-- The rate after the switches. -/
def rateAfter {K : Type} (rate : K) : List (K × K) → K
  | [] => rate
  | (_, next) :: rest => rateAfter next rest

theorem rateAfter_concat {K : Type} {rate time next : K} {switches : List (K × K)} :
    rateAfter rate (switches ++ [(time, next)]) = next := by
  induction switches generalizing rate with
  | nil => rfl
  | cons switch rest ih => exact ih

section Order

variable {K : Type} [Preorder K]

/-- Switches in the order of time, to rates that never rise. -/
def Falling : K → K → List (K × K) → K → Prop
  | _, since, [], now => since ≤ now
  | rate, since, (time, next) :: rest, now => since ≤ time ∧ next ≤ rate ∧
      Falling next time rest now

variable {rate since time next now : K} {switches : List (K × K)}

theorem Falling.le (h : Falling rate since switches now) : since ≤ now := by
  induction switches generalizing rate since with
  | nil => exact h
  | cons switch rest ih => exact h.1.trans (ih h.2.2)

theorem Falling.later (h : Falling rate since switches time) (hle : time ≤ now) :
    Falling rate since switches now := by
  induction switches generalizing rate since with
  | nil => exact le_trans h hle
  | cons switch rest ih => exact ⟨h.1, h.2.1, ih h.2.2⟩

theorem Falling.concat (h : Falling rate since switches time)
    (hnext : next ≤ rateAfter rate switches)
    (hle : time ≤ now) : Falling rate since (switches ++ [(time, next)]) now := by
  induction switches generalizing rate since with
  | nil => exact ⟨h, hnext, hle⟩
  | cons switch rest ih => exact ⟨h.1, h.2.1, ih h.2.2 hnext⟩

end Order

section Field

variable {K : Type} [Field K] [LinearOrder K]

/-- What accrues from `since` to `now`, with the switches to come as time and new rate. -/
def accrued : K → K → List (K × K) → K → K
  | rate, since, [], now => rate * (now - since)
  | rate, since, (time, next) :: rest, now => rate * (time - since) + accrued next time rest now

variable {rate since time next now : K} {switches : List (K × K)}

/-- A falling rate accrues no more than the first one would have. -/
theorem Falling.accrued_le [IsStrictOrderedRing K] (h : Falling rate since switches now) :
    accrued rate since switches now ≤ rate * (now - since) := by
  induction switches generalizing rate since with
  | nil => exact le_rfl
  | cons switch rest ih =>
      have hrest := ih h.2.2
      have hnow := h.2.2.le
      have hlower := mul_le_mul_of_nonneg_right h.2.1 (sub_nonneg.mpr hnow)
      simp only [accrued]
      linarith

section Floor

variable [FloorRing K]

/-- What is charged for it, in whole units. -/
def charged : K → K → List (K × K) → K → ℤ
  | rate, since, [], now => ⌊rate * now⌋ - ⌊rate * since⌋
  | rate, since, (time, next) :: rest, now =>
      ⌊rate * time⌋ - ⌊rate * since⌋ + charged next time rest now

/-- From one time to a later one the last rate is charged. -/
theorem charged_later (time : K) :
    charged rate since switches now = charged rate since switches time +
      (⌊rateAfter rate switches * now⌋ - ⌊rateAfter rate switches * time⌋) := by
  induction switches generalizing rate since with
  | nil =>
      simp only [charged, rateAfter]
      ring
  | cons switch rest ih =>
      simp only [charged, rateAfter]
      rw [ih]
      ring

/-- At the time of a switch the new rate has charged nothing. -/
theorem charged_concat :
    charged rate since (switches ++ [(time, next)]) time = charged rate since switches time := by
  induction switches generalizing rate since with
  | nil => simp [charged]
  | cons switch rest ih =>
      simp only [List.cons_append, charged]
      rw [ih]

variable [IsStrictOrderedRing K]

/-- One piece is charged to less than a unit. -/
theorem charge_bounds (rate since now : K) :
    rate * (now - since) - 1 < ((⌊rate * now⌋ - ⌊rate * since⌋ : ℤ) : K) ∧
      ((⌊rate * now⌋ - ⌊rate * since⌋ : ℤ) : K) < rate * (now - since) + 1 := by
  have hnow := Int.floor_le (rate * now)
  have hnow' := Int.lt_floor_add_one (rate * now)
  have hsince := Int.floor_le (rate * since)
  have hsince' := Int.lt_floor_add_one (rate * since)
  push_cast
  constructor <;> linarith

/-- Each piece costs less than a unit. -/
theorem charged_bounds (rate since : K) (switches : List (K × K)) (now : K) :
    accrued rate since switches now - (switches.length + 1) < charged rate since switches now ∧
      (charged rate since switches now : K) < accrued rate since switches now +
        (switches.length + 1) := by
  induction switches generalizing rate since with
  | nil =>
      simpa [charged, accrued] using charge_bounds rate since now
  | cons switch rest ih =>
      have hpiece := charge_bounds rate since switch.1
      have hrest := ih switch.2 switch.1
      simp only [charged, accrued, List.length_cons]
      push_cast at hpiece hrest ⊢
      constructor <;> linarith [hpiece.1, hpiece.2, hrest.1, hrest.2]

/-- From time zero the first piece is only ever rounded down. -/
theorem charged_bounds_zero (rate : K) (switches : List (K × K)) (now : K) :
    accrued rate 0 switches now - (switches.length + 1) < charged rate 0 switches now ∧
      (charged rate 0 switches now : K) ≤ accrued rate 0 switches now + switches.length := by
  refine ⟨(charged_bounds rate 0 switches now).1, ?_⟩
  cases switches with
  | nil =>
      simp only [charged, accrued, mul_zero, Int.floor_zero, sub_zero, List.length_nil]
      simpa using Int.floor_le (rate * now)
  | cons switch rest =>
      have hfirst := Int.floor_le (rate * switch.1)
      have hrest := (charged_bounds switch.2 switch.1 rest now).2
      simp only [charged, accrued, mul_zero, Int.floor_zero, sub_zero, List.length_cons]
      push_cast
      linarith

/-- Without a switch the charge is the whole part of what accrued. -/
theorem charged_unswitched (rate now : K) : charged rate 0 [] now = ⌊accrued rate 0 [] now⌋ := by
  simp [charged, accrued]

end Floor

end Field

end Lendoor.PiecewiseRate
