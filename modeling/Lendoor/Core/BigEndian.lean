import Mathlib.Data.List.Induction
import Mathlib.Data.Nat.Bitwise

/-! # Big-endian numbers

Reading a number from bytes, most significant byte first, and writing it back in a
fixed width.
-/

namespace Lendoor.BigEndian

/-- The number a list of bytes spells. -/
def ofBytes (bytes : List UInt8) : Nat := bytes.foldl (fun value b => value <<< 8 ||| b.toNat) 0

/-- The `width` low bytes of a number. -/
def toBytes : Nat → Nat → List UInt8
  | 0, _ => []
  | width + 1, n => toBytes width (n / 256) ++ [UInt8.ofNat n]

theorem shift_or_byte (value : Nat) (b : UInt8) :
    value <<< 8 ||| b.toNat = 256 * value + b.toNat := by
  rw [← Nat.shiftLeft_add_eq_or_of_lt b.toNat_lt, Nat.shiftLeft_eq, Nat.mul_comm]

theorem ofBytes_concat (bytes : List UInt8) (b : UInt8) :
    ofBytes (bytes ++ [b]) = 256 * ofBytes bytes + b.toNat := by
  rw [ofBytes, List.foldl_append, List.foldl_cons, List.foldl_nil, shift_or_byte]
  rfl

@[simp] theorem toBytes_length (width n : Nat) : (toBytes width n).length = width := by
  induction width generalizing n with
  | zero => rfl
  | succ width ih => rw [toBytes, List.length_append, ih, List.length_singleton]

theorem ofBytes_lt (bytes : List UInt8) : ofBytes bytes < 256 ^ bytes.length := by
  induction bytes using List.reverseRecOn with
  | nil => decide
  | append_singleton bytes b ih =>
      have hb := b.toNat_lt
      rw [ofBytes_concat, List.length_append, List.length_singleton, Nat.pow_succ]
      omega

/-- Writing back what was read gives the bytes again. -/
theorem toBytes_ofBytes (bytes : List UInt8) : toBytes bytes.length (ofBytes bytes) = bytes := by
  induction bytes using List.reverseRecOn with
  | nil => rfl
  | append_singleton bytes b ih =>
      have hb := b.toNat_lt
      have hquot : (256 * ofBytes bytes + b.toNat) / 256 = ofBytes bytes := by omega
      have hlow : UInt8.ofNat (256 * ofBytes bytes + b.toNat) = b := by
        rw [← UInt8.toNat_inj, UInt8.toNat_ofNat']
        omega
      rw [ofBytes_concat, List.length_append, List.length_singleton, toBytes, hquot, ih, hlow]

/-- Reading back what was written gives the number, up to the width. -/
theorem ofBytes_toBytes (width n : Nat) : ofBytes (toBytes width n) = n % 256 ^ width := by
  induction width generalizing n with
  | zero => simp [toBytes, ofBytes, Nat.mod_one]
  | succ width ih =>
      have hlow : (UInt8.ofNat n).toNat = n % 256 := UInt8.toNat_ofNat'
      rw [toBytes, ofBytes_concat, ih, hlow, Nat.pow_succ', Nat.mod_mul, Nat.add_comm]

end Lendoor.BigEndian
