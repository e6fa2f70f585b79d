import Mathlib.Algebra.CharP.Two
import Mathlib.Algebra.Field.ZMod
import Mathlib.Algebra.Polynomial.Div

/-! # Cyclic redundancy checks

The checksum of a number is the remainder of a polynomial division: the bits of the number
are coefficients over the field of two elements. A shift register computes it, a step for
each bit.
-/

namespace Lendoor.Crc

open Polynomial

/-- The bits of a number as coefficients. -/
noncomputable def bitPoly (n : Nat) : (ZMod 2)[X] :=
  ∑ i ∈ Finset.range n, C (if n.testBit i then 1 else 0) * X ^ i

variable {width taps n c : Nat}

theorem coeff_bitPoly (n i : Nat) : (bitPoly n).coeff i = if n.testBit i then 1 else 0 := by
  rw [bitPoly, finsetSum_coeff]
  simp only [coeff_C_mul_X_pow, Finset.sum_ite_eq, Finset.mem_range]
  split
  · rfl
  · rename_i hge
    have hlt : n < 2 ^ i :=
      lt_of_lt_of_le n.lt_two_pow_self (Nat.pow_le_pow_right (by decide) (by omega))
    rw [Nat.testBit_lt_two_pow hlt, if_neg (by decide)]

theorem bitPoly_injective {a b : Nat} (h : bitPoly a = bitPoly b) : a = b := by
  refine Nat.eq_of_testBit_eq fun i => ?_
  have hcoeff := congrArg (coeff · i) h
  simp only [coeff_bitPoly] at hcoeff
  cases ha : a.testBit i <;> cases hb : b.testBit i <;> simp [ha, hb] at hcoeff ⊢

/-- Exclusive or adds. -/
theorem bitPoly_xor (a b : Nat) : bitPoly (a ^^^ b) = bitPoly a + bitPoly b := by
  ext i
  rw [coeff_add, coeff_bitPoly, coeff_bitPoly, coeff_bitPoly, Nat.testBit_xor]
  cases a.testBit i <;> cases b.testBit i <;> decide

/-- A shift multiplies by a power of the variable. -/
theorem bitPoly_shiftLeft (n k : Nat) : bitPoly (n <<< k) = X ^ k * bitPoly n := by
  ext i
  rw [coeff_X_pow_mul', coeff_bitPoly, coeff_bitPoly, Nat.testBit_shiftLeft]
  by_cases h : k ≤ i <;> simp [h]

theorem degree_bitPoly (h : n < 2 ^ width) : (bitPoly n).degree < width := by
  rw [degree_lt_iff_coeff_zero]
  intro i hi
  have hlt : n < 2 ^ i := lt_of_lt_of_le h (Nat.pow_le_pow_right (by decide) hi)
  rw [coeff_bitPoly, Nat.testBit_lt_two_pow hlt, if_neg (by decide)]

theorem bitPoly_one : bitPoly 1 = 1 := by
  simp [bitPoly]

/-- The low bits and the rest. -/
theorem bitPoly_mod_add (n k : Nat) :
    bitPoly n = bitPoly (n % 2 ^ k) + X ^ k * bitPoly (n / 2 ^ k) := by
  rw [← bitPoly_shiftLeft, ← bitPoly_xor]
  congr 1
  refine Nat.eq_of_testBit_eq fun i => ?_
  rw [Nat.testBit_xor, Nat.testBit_mod_two_pow, Nat.testBit_shiftLeft, Nat.testBit_div_two_pow]
  by_cases h : k ≤ i
  · simp [h, Nat.not_lt.mpr h]
  · simp [h, Nat.lt_of_not_le h]

/-! ## The remainder -/

/-- The monic polynomial of a degree with the lower coefficients `taps`. -/
noncomputable def generator (width taps : Nat) : (ZMod 2)[X] := X ^ width + bitPoly taps

/-- `r` is the checksum of the number `n`: the remainder of `n`, moved up by the width. -/
def IsCrc (width taps n r : Nat) : Prop :=
  bitPoly r = (bitPoly n * X ^ width) %ₘ generator width taps

theorem IsCrc.unique {r r' : Nat} (h : IsCrc width taps n r) (h' : IsCrc width taps n r') :
    r = r' :=
  bitPoly_injective (h.trans h'.symm)

section Register

variable (htaps : taps < 2 ^ width)
include htaps

theorem generator_monic : (generator width taps).Monic := monic_X_pow_add (degree_bitPoly htaps)

theorem degree_generator : (generator width taps).degree = width := by
  rw [generator, degree_add_eq_left_of_degree_lt] <;> rw [degree_X_pow]
  exact degree_bitPoly htaps

theorem modByMonic_bitPoly (h : n < 2 ^ width) : bitPoly n %ₘ generator width taps = bitPoly n := by
  rw [modByMonic_eq_self_iff (generator_monic htaps), degree_generator htaps]
  exact degree_bitPoly h

theorem mul_modByMonic_mod (p q : (ZMod 2)[X]) :
    (p * (q %ₘ generator width taps)) %ₘ generator width taps =
      (p * q) %ₘ generator width taps := by
  refine modByMonic_eq_of_dvd_sub (generator_monic htaps) ?_
  rw [← mul_sub]
  exact Dvd.dvd.mul_left (dvd_modByMonic_sub q _) p

omit htaps in
/-- One step of the register. -/
def shiftStep (width taps c : Nat) : Nat :=
  if c.testBit (width - 1) then ((c <<< 1) ^^^ taps) % 2 ^ width else (c <<< 1) % 2 ^ width

omit htaps in
theorem shiftStep_lt : shiftStep width taps c < 2 ^ width := by
  unfold shiftStep
  split <;> exact Nat.mod_lt _ (Nat.two_pow_pos width)

/-- A step multiplies by the variable. -/
theorem bitPoly_shiftStep (hwidth : 0 < width) (hc : c < 2 ^ width) :
    bitPoly (shiftStep width taps c) = (X * bitPoly c) %ₘ generator width taps := by
  have hshift : X * bitPoly c = bitPoly (c <<< 1) := by rw [bitPoly_shiftLeft, pow_one]
  have hpow : 2 ^ width = 2 ^ (width - 1) * 2 := (Nat.two_pow_pred_mul_two hwidth).symm
  have htop : c.testBit (width - 1) = decide (c / 2 ^ (width - 1) % 2 = 1) :=
    Nat.testBit_eq_decide_div_mod_eq
  have hquot : c / 2 ^ (width - 1) = 0 ∨ c / 2 ^ (width - 1) = 1 := by
    have hlt : c / 2 ^ (width - 1) < 2 := Nat.div_lt_of_lt_mul (hpow ▸ hc)
    exact Nat.le_one_iff_eq_zero_or_eq_one.mp (Nat.le_of_lt_succ hlt)
  rw [← modByMonic_bitPoly htaps shiftStep_lt, hshift]
  unfold shiftStep
  split
  · rename_i hbit
    have htop' : c / 2 ^ (width - 1) = 1 := by
      rcases hquot with hzero | hone
      · rw [htop, hzero] at hbit
        cases hbit
      · exact hone
    refine (modByMonic_eq_of_dvd_sub (generator_monic htaps) ?_).symm
    have hone : (c <<< 1) / 2 ^ width = 1 := by
      rw [Nat.shiftLeft_eq, hpow, pow_one, Nat.mul_div_mul_right _ _ (by decide), htop']
    -- what leaves the register at the top comes back as the generator's lower coefficients
    have hsplit : bitPoly (c <<< 1) - bitPoly (((c <<< 1) ^^^ taps) % 2 ^ width) =
        generator width taps := by
      rw [bitPoly_mod_add (c <<< 1) width, hone, bitPoly_one, mul_one, Nat.xor_mod_two_pow,
        Nat.mod_eq_of_lt htaps, bitPoly_xor, CharTwo.sub_eq_add, generator]
      rw [add_comm (bitPoly _) (X ^ width), add_assoc, ← add_assoc (bitPoly _) (bitPoly _),
        CharTwo.add_self_eq_zero, zero_add]
    rw [hsplit]
  · rename_i hbit
    have hlow : c <<< 1 < 2 ^ width := by
      rcases hquot with hzero | hone
      · have hlt := (Nat.div_eq_zero_iff_lt (Nat.two_pow_pos (width - 1))).mp hzero
        rw [Nat.shiftLeft_eq, hpow, pow_one]
        exact Nat.mul_lt_mul_of_pos_right hlt (by decide)
      · rw [htop, hone] at hbit
        exact absurd rfl hbit
    rw [Nat.mod_eq_of_lt hlow]

/-- The register after the bits of one more block of the message: the block goes in at the
top, and the register takes as many steps. -/
theorem isCrc_block (hwidth : 0 < width) {k : Nat} (hk : k ≤ width) {m b : Nat} (hb : b < 2 ^ k)
    (hc : c < 2 ^ width) (hcrc : IsCrc width taps m c) :
    IsCrc width taps (m * 2 ^ k + b) ((shiftStep width taps)^[k] (c ^^^ b <<< (width - k))) := by
  have hblock : b <<< (width - k) < 2 ^ width := by
    rw [Nat.shiftLeft_eq]
    calc b * 2 ^ (width - k) < 2 ^ k * 2 ^ (width - k) :=
          Nat.mul_lt_mul_of_pos_right hb (Nat.two_pow_pos _)
      _ = 2 ^ width := by rw [← Nat.pow_add, Nat.add_sub_cancel' hk]
  have hstart : c ^^^ b <<< (width - k) < 2 ^ width := Nat.xor_lt_two_pow hc hblock
  have hsteps : ∀ j, (shiftStep width taps)^[j] (c ^^^ b <<< (width - k)) < 2 ^ width ∧
      bitPoly ((shiftStep width taps)^[j] (c ^^^ b <<< (width - k))) =
        (X ^ j * bitPoly (c ^^^ b <<< (width - k))) %ₘ generator width taps := by
    intro j
    induction j with
    | zero => exact ⟨hstart, by rw [pow_zero, one_mul, modByMonic_bitPoly htaps hstart]; rfl⟩
    | succ j ih =>
        rw [Function.iterate_succ_apply']
        refine ⟨shiftStep_lt, ?_⟩
        rw [bitPoly_shiftStep htaps hwidth ih.1, ih.2, mul_modByMonic_mod htaps,
          ← mul_assoc, ← pow_succ']
  have hmessage : bitPoly (m * 2 ^ k + b) = bitPoly b + X ^ k * bitPoly m := by
    have hlow : (m * 2 ^ k + b) % 2 ^ k = b := by rw [Nat.mul_add_mod', Nat.mod_eq_of_lt hb]
    have hhigh : (m * 2 ^ k + b) / 2 ^ k = m := by
      rw [Nat.mul_comm, Nat.mul_add_div (Nat.two_pow_pos k), Nat.div_eq_of_lt hb, Nat.add_zero]
    rw [bitPoly_mod_add _ k, hlow, hhigh]
  rw [IsCrc, (hsteps k).2, bitPoly_xor, bitPoly_shiftLeft, mul_add, ← mul_assoc, ← pow_add,
    Nat.add_sub_cancel' hk, hmessage, hcrc, add_modByMonic,
    mul_modByMonic_mod htaps, ← add_modByMonic]
  congr 1
  ring

end Register

end Lendoor.Crc
