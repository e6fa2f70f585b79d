import Mathlib.Data.List.DropRight
import Mathlib.Data.List.Induction
import Mathlib.Tactic.Ring

/-! # Decimal digits

Numbers spelled in decimal digits, most significant first: the value of a spelling, and
what padding, cutting and trimming do to it. Behind a decimal point, digits that are cut or
filled to a width spell the integer part of the scaled fraction.
-/

namespace Lendoor.Decimal

def digitValue (c : Char) : Nat := c.toNat - 48

/-- The number that the digits spell. -/
def value (digits : List Char) : Nat := digits.foldl (fun n c => 10 * n + digitValue c) 0

def AllDigits (text : List Char) : Prop := ∀ c ∈ text, c.isDigit = true

def padEnd (width : Nat) (text : List Char) : List Char :=
  text ++ List.replicate (width - text.length) '0'

def padStart (width : Nat) (text : List Char) : List Char :=
  List.replicate (width - text.length) '0' ++ text

variable {digits : List Char}

theorem value_concat (digits : List Char) (c : Char) :
    value (digits ++ [c]) = 10 * value digits + digitValue c := by
  simp [value, List.foldl_append]

theorem value_append (high low : List Char) :
    value (high ++ low) = value high * 10 ^ low.length + value low := by
  induction low using List.reverseRecOn with
  | nil => simp [value]
  | append_singleton low c ih =>
      rw [← List.append_assoc, value_concat, value_concat, ih, List.length_append,
        List.length_singleton, Nat.pow_succ]
      ring

theorem value_zeros (n : Nat) : value (List.replicate n '0') = 0 := by
  induction n with
  | zero => rfl
  | succ n ih => rw [List.replicate_succ', value_concat, ih]; rfl

theorem value_padStart (width : Nat) (digits : List Char) :
    value (padStart width digits) = value digits := by
  rw [padStart, value_append, value_zeros, Nat.zero_mul, Nat.zero_add]

theorem digitValue_lt {c : Char} (hc : c.isDigit = true) : digitValue c < 10 := by
  have hle : c.toNat ≤ 57 := (Char.isDigit_iff_toNat.mp hc).2
  rw [digitValue]
  omega

theorem value_lt (h : AllDigits digits) : value digits < 10 ^ digits.length := by
  induction digits using List.reverseRecOn with
  | nil => decide
  | append_singleton digits c ih =>
      have hlt := ih fun d hd => h d (by simp [hd])
      have hc := digitValue_lt (h c (by simp))
      rw [value_concat, List.length_append, List.length_singleton, Nat.pow_succ]
      omega

theorem AllDigits.append {text : List Char} (h : AllDigits digits) (h' : AllDigits text) :
    AllDigits (digits ++ text) := by
  intro c hc
  exact (List.mem_append.mp hc).elim (h c) (h' c)

theorem AllDigits.zeros (n : Nat) : AllDigits (List.replicate n '0') := by
  intro c hc
  rw [List.eq_of_mem_replicate hc]
  decide

theorem AllDigits.take (h : AllDigits digits) (n : Nat) : AllDigits (digits.take n) :=
  fun c hc => h c (List.mem_of_mem_take hc)

/-- The first digits of a number divide it. -/
theorem value_take (h : AllDigits digits) (n : Nat) :
    value (digits.take n) = value digits / 10 ^ (digits.length - n) := by
  have hsplit := value_append (digits.take n) (digits.drop n)
  have hlow : value (digits.drop n) < 10 ^ (digits.drop n).length :=
    value_lt fun c hc => h c (List.mem_of_mem_drop hc)
  rw [List.take_append_drop, List.length_drop] at hsplit
  rw [List.length_drop] at hlow
  rw [hsplit, Nat.mul_comm, Nat.mul_add_div (Nat.pow_pos (by decide)),
    Nat.div_eq_of_lt hlow, Nat.add_zero]

/-! ## Fractions -/

/-- Digits behind a point, filled up and cut to a width, spell the scaled fraction without
what is beyond. -/
theorem value_fraction (h : AllDigits digits) {width zeros : Nat}
    (hfill : width ≤ digits.length + zeros) :
    value ((digits ++ List.replicate zeros '0').take width) =
      value digits * 10 ^ width / 10 ^ digits.length := by
  rw [value_take (h.append (.zeros zeros)), value_append, value_zeros, List.length_append,
    List.length_replicate, Nat.add_zero]
  have hleft :=
    Nat.mul_div_mul_right (value digits * 10 ^ zeros) (10 ^ (digits.length + zeros - width))
    (Nat.pow_pos (by decide) : 0 < 10 ^ digits.length)
  have hright := Nat.mul_div_mul_right (value digits * 10 ^ width) (10 ^ digits.length)
    (Nat.pow_pos (by decide) : 0 < 10 ^ (digits.length + zeros - width))
  rw [← hleft, ← hright]
  congr 1
  · rw [Nat.mul_assoc, Nat.mul_assoc, ← Nat.pow_add, ← Nat.pow_add]
    congr 2
    omega
  · exact Nat.mul_comm _ _

theorem value_padEnd_take (h : AllDigits digits) (width : Nat) :
    value ((padEnd width digits).take width) = value digits * 10 ^ width / 10 ^ digits.length :=
  value_fraction h (by omega)

/-- Zeros at the end of a fraction do not count. -/
theorem fraction_zeros (digits : List Char) (zeros width : Nat) :
    value (digits ++ List.replicate zeros '0') * 10 ^ width /
        10 ^ (digits ++ List.replicate zeros '0').length =
      value digits * 10 ^ width / 10 ^ digits.length := by
  rw [value_append, value_zeros, Nat.add_zero, List.length_append,
    List.length_replicate, Nat.pow_add, Nat.mul_right_comm]
  exact Nat.mul_div_mul_right _ _ (Nat.pow_pos (by decide))

/-- `replace(/0+$/, '')` -/
def trimZeros (text : List Char) : List Char := text.rdropWhile (· = '0')

theorem trimZeros_append (text : List Char) :
    ∃ n, text = trimZeros text ++ List.replicate n '0' := by
  induction text using List.reverseRecOn with
  | nil => exact ⟨0, rfl⟩
  | append_singleton text c ih =>
      by_cases hc : c = '0'
      · rcases ih with ⟨n, hn⟩
        subst hc
        refine ⟨n + 1, ?_⟩
        rw [trimZeros, List.rdropWhile_concat_pos _ _ _ (by simp), List.replicate_succ',
          ← List.append_assoc]
        exact congrArg (· ++ ['0']) hn
      · refine ⟨0, ?_⟩
        rw [trimZeros, List.rdropWhile_concat_neg _ _ _ (by simpa using hc)]
        simp

theorem AllDigits.trimZeros (h : AllDigits digits) : AllDigits (trimZeros digits) :=
  fun c hc => h c ((List.rdropWhile_prefix _ _).subset hc)

/-! ## Numbers as digits -/

theorem digitValue_digitChar {n : Nat} (h : n < 10) : digitValue n.digitChar = n := by
  have hall : ((List.range 10).all fun n => digitValue n.digitChar = n) = true := by decide
  exact of_decide_eq_true (List.all_eq_true.mp hall n (List.mem_range.mpr h))

theorem value_toDigits (n : Nat) : value (Nat.toDigits 10 n) = n := by
  induction n using Nat.strongRecOn with
  | ind n ih =>
      rw [Nat.toDigits_eq_if (by decide)]
      split
      · rename_i hlt
        simpa [value] using digitValue_digitChar hlt
      · rename_i hge
        rw [value_concat, ih (n / 10) (by omega), digitValue_digitChar (Nat.mod_lt n (by decide))]
        omega

theorem allDigits_toDigits (n : Nat) : AllDigits (Nat.toDigits 10 n) :=
  fun _ hc => Nat.isDigit_of_mem_toDigits (by decide) (by decide) hc

end Lendoor.Decimal
