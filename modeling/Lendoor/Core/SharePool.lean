import Mathlib.Algebra.BigOperators.Finprod
import Mathlib.Algebra.Order.BigOperators.Group.Finset
import Mathlib.Tactic.Linarith
import Mathlib.Tactic.Positivity
import Mathlib.Tactic.Ring

/-! # Share pools with a virtual offset

Arithmetic of a pool holding `a` assets against `s` shares that prices one share
at `(a + 1) / (s + 1)`. Every result takes the exchange as an inequality, so it
applies to floor and ceiling conversions alike: a mint is fair when it gives at
most the price, a burn when it pays at most the price.
-/

namespace Lendoor.SharePool

/-- What `x` shares redeem for, rounded down. -/
def value (a s x : Int) : Int := x * (a + 1) / (s + 1)

/-- Rounding a quotient up covers the dividend. -/
theorem le_ceil_mul (n : Int) {a : Int} (ha : 0 ≤ a) : n ≤ (n + a) / (a + 1) * (a + 1) := by
  have hlt := Int.lt_ediv_add_one_mul_self (n + a) (show 0 < a + 1 by omega)
  rw [add_mul] at hlt
  omega

/-- A quotient rounded up is at most `x` when `x` covers the dividend. -/
theorem ceil_le_iff (n x : Int) {a : Int} (ha : 0 ≤ a) :
    (n + a) / (a + 1) ≤ x ↔ n ≤ x * (a + 1) := by
  have hunit : 0 < a + 1 := by omega
  rw [← Int.lt_add_one_iff, Int.ediv_lt_iff_lt_mul hunit, add_mul]
  omega

/-- The price without the offsets is no better than the pool's exactly when what its floor
drops makes up for the assets in excess of the shares. -/
theorem plain_le_value_iff {a s : Int} (x : Int) (hs : 0 < s) :
    x * a / s ≤ value a s x ↔ x * (a - s) ≤ x * a % s * (s + 1) := by
  have hsplit : s * (x * a / s) + x * a % s = x * a := Int.mul_ediv_add_emod _ _
  generalize x * a / s = q at hsplit ⊢
  generalize x * a % s = r at hsplit ⊢
  unfold value
  rw [Int.le_ediv_iff_mul_le (by omega), ← mul_le_mul_iff_of_pos_left hs]
  have hleft : s * (q * (s + 1)) = (x * a - r) * (s + 1) := by rw [← hsplit]; ring
  have hright : s * (x * (a + 1)) = x * a * s + x * s := by ring
  rw [hleft, hright]
  constructor <;> intro h <;> linarith

section Price

variable {a s : Int}

/-- A fair mint does not lower the price. -/
theorem price_mint {assets minted : Int} (fair : minted * (a + 1) ≤ assets * (s + 1)) :
    (a + 1) * (s + minted + 1) ≤ (a + assets + 1) * (s + 1) := by
  linarith

/-- A fair burn does not lower the price. -/
theorem price_burn {assets burned : Int} (fair : assets * (s + 1) ≤ burned * (a + 1)) :
    (a + 1) * (s - burned + 1) ≤ (a - assets + 1) * (s + 1) := by
  linarith

/-- Assets added against no shares do not lower the price. -/
theorem price_gain {gain : Int} (hs : 0 ≤ s) (hgain : 0 ≤ gain) :
    (a + 1) * (s + 1) ≤ (a + gain + 1) * (s + 1) := by
  have : 0 ≤ gain * (s + 1) := by positivity
  linarith

/-- At a price that did not fall, no smaller number of shares is worth more. -/
theorem value_mono {a' s' x x' : Int} (ha : 0 ≤ a) (hs : 0 ≤ s) (hs' : 0 ≤ s') (hx : 0 ≤ x)
    (hxx' : x ≤ x') (price : (a + 1) * (s' + 1) ≤ (a' + 1) * (s + 1)) :
    value a s x ≤ value a' s' x' := by
  have hfloor : value a s x * (s + 1) ≤ x * (a + 1) := Int.ediv_mul_le _ (by omega)
  have hnn : 0 ≤ value a s x := Int.ediv_nonneg (by positivity) (by omega)
  refine (Int.le_ediv_iff_mul_le (by omega)).mpr ?_
  -- multiply the claim by the old supply and go through the old price
  have hstep : value a s x * (s' + 1) * (s + 1) ≤ x' * (a' + 1) * (s + 1) := by
    calc value a s x * (s' + 1) * (s + 1) = value a s x * (s + 1) * (s' + 1) := by ring
      _ ≤ x * (a + 1) * (s' + 1) := mul_le_mul_of_nonneg_right hfloor (by omega)
      _ = x * ((a + 1) * (s' + 1)) := by ring
      _ ≤ x * ((a' + 1) * (s + 1)) := mul_le_mul_of_nonneg_left price hx
      _ ≤ x' * ((a' + 1) * (s + 1)) := by
          refine mul_le_mul_of_nonneg_right hxx' (le_trans ?_ price)
          positivity
      _ = x' * (a' + 1) * (s + 1) := by ring
  exact le_of_mul_le_mul_right hstep (by omega)

/-- A loss lowers the value of a part of the shares by no more than the loss. -/
theorem value_le_value_sub_add {loss x : Int} (hs : 0 ≤ s) (hloss : 0 ≤ loss) (hx : x ≤ s) :
    value a s x ≤ value (a - loss) s x + loss := by
  have hshare : x * loss ≤ s * loss := mul_le_mul_of_nonneg_right hx hloss
  unfold value
  rw [← Int.add_mul_ediv_right _ _ (show s + 1 ≠ 0 by omega)]
  refine Int.ediv_le_ediv (by omega) ?_
  linarith

end Price

/-! ## All positions together -/

theorem value_nonneg {a s x : Int} (ha : 0 ≤ a) (hs : 0 ≤ s) (hx : 0 ≤ x) : 0 ≤ value a s x :=
  Int.ediv_nonneg (by positivity) (by omega)

/-- Positions that make up the whole supply are together worth no more than the assets. -/
theorem finsum_value_le {K : Type} {a s : Int} {h : K → Int} (ha : 0 ≤ a)
    (hnn : ∀ k, 0 ≤ h k) (hfin : (Function.support h).Finite) (hsum : ∑ᶠ k, h k = s) :
    ∑ᶠ k, value a s (h k) ≤ a := by
  classical
  have hs : 0 ≤ s := hsum ▸ finsum_nonneg hnn
  have hsupp : Function.support (fun k => value a s (h k)) ⊆ ↑hfin.toFinset := by
    intro k hk
    by_contra habs
    apply hk
    have hzero : h k = 0 := by simpa using habs
    simp [value, hzero]
  have hsum' : ∑ k ∈ hfin.toFinset, h k = s := by
    rw [← hsum, finsum_eq_sum_of_support_subset (s := hfin.toFinset) h (by simp)]
  rw [finsum_eq_sum_of_support_subset _ hsupp]
  have hscaled : (∑ k ∈ hfin.toFinset, value a s (h k)) * (s + 1) ≤ s * (a + 1) := by
    calc (∑ k ∈ hfin.toFinset, value a s (h k)) * (s + 1)
        = ∑ k ∈ hfin.toFinset, value a s (h k) * (s + 1) := Finset.sum_mul _ _ _
      _ ≤ ∑ k ∈ hfin.toFinset, h k * (a + 1) :=
          Finset.sum_le_sum fun k _ => Int.ediv_mul_le _ (by omega)
      _ = s * (a + 1) := by rw [← Finset.sum_mul, hsum']
  have hlt : (∑ k ∈ hfin.toFinset, value a s (h k)) * (s + 1) < (a + 1) * (s + 1) := by
    linarith
  have := lt_of_mul_lt_mul_right hlt (by omega)
  omega

/-! ## One holder's wealth -/

section Position

variable {a s x : Int}

/-- The exact bound behind the floors: `x` shares are worth less than one unit more. -/
theorem lt_value_succ_mul (hs : 0 ≤ s) : x * (a + 1) < (value a s x + 1) * (s + 1) :=
  Int.lt_ediv_add_one_mul_self _ (by omega)

theorem value_lt_of_lt_mul {a s x v : Int} (hs : 0 ≤ s) (h : x * (a + 1) < v * (s + 1)) :
    value a s x < v :=
  Int.ediv_lt_of_lt_mul (by omega) h

/-- A fair mint is worth at most what it cost, old position included. -/
theorem value_mint_le {assets minted : Int} (hs : 0 ≤ s) (hm : 0 ≤ minted)
    (hx : x ≤ s) (fair : minted * (a + 1) ≤ assets * (s + 1)) :
    value (a + assets) (s + minted) (x + minted) ≤ value a s x + assets := by
  have hfloor : x * (a + 1) < (value a s x + 1) * (s + 1) := lt_value_succ_mul hs
  -- what the new shares take from the other holders, scaled by the old supply
  have htake : (s + 1) * (minted * (a + 1 - (value a s x + 1))) ≤
      (s + 1) * (assets * (s + 1 - x)) := by
    calc (s + 1) * (minted * (a + 1 - (value a s x + 1)))
        = minted * ((a + 1) * (s + 1) - (value a s x + 1) * (s + 1)) := by ring
      _ ≤ minted * ((a + 1) * (s + 1) - x * (a + 1)) :=
          mul_le_mul_of_nonneg_left (by linarith) hm
      _ = minted * (a + 1) * (s + 1 - x) := by ring
      _ ≤ assets * (s + 1) * (s + 1 - x) := mul_le_mul_of_nonneg_right fair (by omega)
      _ = (s + 1) * (assets * (s + 1 - x)) := by ring
  have htake' := le_of_mul_le_mul_left htake (by omega)
  have hlt : value (a + assets) (s + minted) (x + minted) < value a s x + assets + 1 :=
    value_lt_of_lt_mul (by omega) (by linarith)
  omega

/-- What a fair burn pays and what is left are worth at most the old position. -/
theorem value_burn_le {assets burned : Int} (hb : 0 ≤ burned) (hbx : burned ≤ x)
    (hx : x ≤ s) (fair : assets * (s + 1) ≤ burned * (a + 1)) :
    assets + value (a - assets) (s - burned) (x - burned) ≤ value a s x := by
  have hfloor : x * (a + 1) < (value a s x + 1) * (s + 1) := lt_value_succ_mul (by omega)
  have hburned : burned * ((value a s x + 1) * (s + 1) - x * (a + 1)) <
      (s + 1) * ((value a s x + 1) * (s + 1) - x * (a + 1)) :=
    mul_lt_mul_of_pos_right (by omega) (by linarith)
  have hgive : (s + 1) * (assets * (s + 1 - x) - burned * (a + 1 - (value a s x + 1))) <
      (s + 1) * ((value a s x + 1) * (s + 1) - x * (a + 1)) := by
    calc (s + 1) * (assets * (s + 1 - x) - burned * (a + 1 - (value a s x + 1)))
        = assets * (s + 1) * (s + 1 - x) - burned * (s + 1) * (a + 1 - (value a s x + 1)) := by ring
      _ ≤ burned * (a + 1) * (s + 1 - x) - burned * (s + 1) * (a + 1 - (value a s x + 1)) :=
          sub_le_sub_right (mul_le_mul_of_nonneg_right fair (by omega)) _
      _ = burned * ((value a s x + 1) * (s + 1) - x * (a + 1)) := by ring
      _ < (s + 1) * ((value a s x + 1) * (s + 1) - x * (a + 1)) := hburned
  have hgive' := lt_of_mul_lt_mul_left hgive (by omega)
  have hlt : value (a - assets) (s - burned) (x - burned) < value a s x - assets + 1 :=
    value_lt_of_lt_mul (by omega) (by linarith)
  omega

/-- A gift to the pool comes back to its giver at most in full. -/
theorem value_gift_le {gift : Int} (hs : 0 ≤ s) (hgift : 0 ≤ gift) (hx : x ≤ s) :
    value (a + gift) s x ≤ value a s x + gift := by
  have hfloor : x * (a + 1) < (value a s x + 1) * (s + 1) := lt_value_succ_mul hs
  have hshare : x * gift ≤ (s + 1) * gift := mul_le_mul_of_nonneg_right (by omega) hgift
  have hlt : value (a + gift) s x < value a s x + gift + 1 :=
    value_lt_of_lt_mul hs (by linarith)
  omega

end Position

end Lendoor.SharePool
