import Lendoor.Core.SharePool
import Mathlib.Algebra.Order.Field.Rat
import Mathlib.Tactic.FieldSimp

/-! # What rounded deposits leak to the other holders

A deposit into a share pool is rounded down to whole shares, and the remainder
raises the price for everybody. Over a list of deposits these raises add up
exactly: the price at the end is the price at the start plus the leak.
-/

namespace Lendoor.SharePool

/-- Shares a deposit of `n` mints. -/
def minted (a s n : Int) : Int := n * (s + 1) / (a + 1)

/-- Assets and supply after the deposits that mint at least one share. -/
def fill (a s : Int) : List Int → Int × Int
  | [] => (a, s)
  | n :: rest => if minted a s n ≤ 0 then fill a s rest else fill (a + n) (s + minted a s n) rest

/-- The total raise of the price: each deposit's remainder over the supply before
and after it. -/
def leak (a s : Int) : List Int → ℚ
  | [] => 0
  | n :: rest =>
      if minted a s n ≤ 0 then leak a s rest
      else ((n * (s + 1) % (a + 1) : Int) : ℚ) / ((s + 1) * (s + 1 + minted a s n)) +
        leak (a + n) (s + minted a s n) rest

/-- One deposit raises the price by its remainder over both supplies. -/
theorem price_minted {a s n : Int} (hs : 0 ≤ s) (hm : 0 < minted a s n) :
    (((a + n + 1 : Int) : ℚ)) / ((s + minted a s n + 1 : Int) : ℚ) =
      ((a + 1 : Int) : ℚ) / ((s + 1 : Int) : ℚ) +
        ((n * (s + 1) % (a + 1) : Int) : ℚ) / ((s + 1) * (s + 1 + minted a s n)) := by
  have hdiv : n * (s + 1) = minted a s n * (a + 1) + n * (s + 1) % (a + 1) := by
    have := Int.mul_ediv_add_emod (n * (s + 1)) (a + 1)
    unfold minted
    linarith
  have hq : (n : ℚ) * (s + 1) =
      minted a s n * (a + 1) + ((n * (s + 1) % (a + 1) : Int) : ℚ) := by exact_mod_cast hdiv
  have hs1 : (0 : ℚ) < s + 1 := by exact_mod_cast (by omega : (0 : Int) < s + 1)
  have hs2 : (0 : ℚ) < s + 1 + minted a s n := by
    exact_mod_cast (by omega : (0 : Int) < s + 1 + minted a s n)
  push_cast
  rw [show (s : ℚ) + minted a s n + 1 = s + 1 + minted a s n by ring]
  field_simp
  linarith

/-- The price at the end of the deposits is the price at the start plus the leak. -/
theorem price_fill {a s : Int} {ns : List Int} (ha : 0 ≤ a) (hs : 0 ≤ s)
    (hns : ∀ n ∈ ns, 0 ≤ n) :
    0 ≤ (fill a s ns).1 ∧ 0 ≤ (fill a s ns).2 ∧
      (((fill a s ns).1 + 1 : Int) : ℚ) / (((fill a s ns).2 + 1 : Int) : ℚ) =
        ((a + 1 : Int) : ℚ) / ((s + 1 : Int) : ℚ) + leak a s ns := by
  induction ns generalizing a s with
  | nil => simp [fill, leak, ha, hs]
  | cons n rest ih =>
      have hrest : ∀ k ∈ rest, 0 ≤ k := fun k hk => hns k (by simp [hk])
      by_cases hm : minted a s n ≤ 0
      · simp only [fill, leak, if_pos hm]
        exact ih ha hs hrest
      · have hn := hns n (by simp)
        simp only [fill, leak, if_neg hm]
        rcases ih (a := a + n) (s := s + minted a s n) (by omega) (by omega) hrest with
          ⟨hnn, hss, hprice⟩
        refine ⟨hnn, hss, ?_⟩
        rw [hprice, price_minted hs (by omega), add_assoc]

/-- The holder of the whole supply gets back at most all the assets it left, after
deposits by others, exactly when its part of the leak is less than one share's price. -/
theorem value_fill_le_iff {a s : Int} {ns : List Int} (ha : 0 ≤ a) (hs : 0 ≤ s)
    (hns : ∀ n ∈ ns, 0 ≤ n) :
    value (fill a s ns).1 (fill a s ns).2 s ≤ a ↔
      (s : ℚ) * leak a s ns < ((a + 1 : Int) : ℚ) / ((s + 1 : Int) : ℚ) := by
  rcases price_fill ha hs hns with ⟨hfa, hfs, hprice⟩
  have hS : (0 : ℚ) < ((s + 1 : Int) : ℚ) := by exact_mod_cast (by omega : (0 : Int) < s + 1)
  have hS' : (0 : ℚ) < (((fill a s ns).2 + 1 : Int) : ℚ) := by
    exact_mod_cast (by omega : (0 : Int) < (fill a s ns).2 + 1)
  calc value (fill a s ns).1 (fill a s ns).2 s ≤ a
      ↔ value (fill a s ns).1 (fill a s ns).2 s < a + 1 := Int.lt_add_one_iff.symm
    _ ↔ s * ((fill a s ns).1 + 1) < (a + 1) * ((fill a s ns).2 + 1) :=
        Int.ediv_lt_iff_lt_mul (by omega)
    _ ↔ (s : ℚ) * (((fill a s ns).1 + 1 : Int) : ℚ) <
          ((a + 1 : Int) : ℚ) * (((fill a s ns).2 + 1 : Int) : ℚ) := by exact_mod_cast Iff.rfl
    _ ↔ (s : ℚ) * ((((fill a s ns).1 + 1 : Int) : ℚ) / (((fill a s ns).2 + 1 : Int) : ℚ)) <
          ((a + 1 : Int) : ℚ) := by rw [← mul_div_assoc, div_lt_iff₀ hS']
    _ ↔ (s : ℚ) * (((a + 1 : Int) : ℚ) / ((s + 1 : Int) : ℚ) + leak a s ns) <
          ((a + 1 : Int) : ℚ) := by rw [hprice]
    _ ↔ (s : ℚ) * leak a s ns < ((a + 1 : Int) : ℚ) / ((s + 1 : Int) : ℚ) := by
        -- the rest of the pool, one virtual share, is worth the price
        have hrest : ((a + 1 : Int) : ℚ) - (s : ℚ) * (((a + 1 : Int) : ℚ) / ((s + 1 : Int) : ℚ)) =
            ((a + 1 : Int) : ℚ) / ((s + 1 : Int) : ℚ) := by
          push_cast at hS ⊢
          field_simp
          ring
        rw [mul_add]
        constructor <;> intro h <;> linarith

end Lendoor.SharePool
