import Mathlib.Algebra.GroupWithZero.Nat
import Mathlib.Data.List.GetD
import Mathlib.Data.List.Induction
import Mathlib.Data.List.Nodup

/-! # Positional numerals

Numbers spelled in the letters of an alphabet, most significant first; the base is the size
of the alphabet. In a fixed width, spelling and reading invert each other.
-/

namespace Lendoor.Numerals

variable {α : Type} [DecidableEq α] [Inhabited α] (alphabet : List α)

/-- The number that a text spells. -/
def value (text : List α) : Nat := text.foldl (fun n c => alphabet.length * n + alphabet.idxOf c) 0

/-- The `width` low letters of a number. -/
def spell : Nat → Nat → List α
  | 0, _ => []
  | width + 1, n => spell width (n / alphabet.length) ++
      [alphabet.getD (n % alphabet.length) default]

/-- Every character is a letter of the alphabet. -/
def Spelled (text : List α) : Prop := ∀ c ∈ text, c ∈ alphabet

variable {alphabet} {text : List α}

omit [Inhabited α] in
theorem value_concat (text : List α) (c : α) :
    value alphabet (text ++ [c]) = alphabet.length * value alphabet text + alphabet.idxOf c := by
  rw [value, List.foldl_append]
  rfl

omit [DecidableEq α] [Inhabited α] in
theorem spelled_concat {c : α} :
    Spelled alphabet (text ++ [c]) ↔ Spelled alphabet text ∧ c ∈ alphabet := by
  simp [Spelled, or_imp, forall_and]

omit [DecidableEq α] in
@[simp] theorem spell_length (width n : Nat) : (spell alphabet width n).length = width := by
  induction width generalizing n with
  | zero => rfl
  | succ width ih => rw [spell, List.length_append, ih, List.length_singleton]

omit [Inhabited α] in
theorem value_lt (h : Spelled alphabet text) :
    value alphabet text < alphabet.length ^ text.length := by
  induction text using List.reverseRecOn with
  | nil => simp [value]
  | append_singleton text c ih =>
      rcases spelled_concat.mp h with ⟨htext, hc⟩
      have hlt := List.idxOf_lt_length_of_mem hc
      rw [value_concat, List.length_append, List.length_singleton, Nat.pow_succ']
      calc alphabet.length * value alphabet text + alphabet.idxOf c
          < alphabet.length * value alphabet text + alphabet.length := Nat.add_lt_add_left hlt _
        _ = alphabet.length * (value alphabet text + 1) := (Nat.mul_succ _ _).symm
        _ ≤ alphabet.length * alphabet.length ^ text.length := Nat.mul_le_mul_left _ (ih htext)

/-- Spelling again what was read gives the text. -/
theorem spell_value (h : Spelled alphabet text) :
    spell alphabet text.length (value alphabet text) = text := by
  induction text using List.reverseRecOn with
  | nil => rfl
  | append_singleton text c ih =>
      rcases spelled_concat.mp h with ⟨htext, hc⟩
      have hlt := List.idxOf_lt_length_of_mem hc
      have hpos : 0 < alphabet.length := Nat.lt_of_le_of_lt (Nat.zero_le _) hlt
      have hquot : (alphabet.length * value alphabet text + alphabet.idxOf c) / alphabet.length =
          value alphabet text := by
        rw [Nat.mul_add_div hpos, Nat.div_eq_of_lt hlt, Nat.add_zero]
      have hlast : (alphabet.length * value alphabet text + alphabet.idxOf c) % alphabet.length =
          alphabet.idxOf c := by
        rw [Nat.mul_add_mod, Nat.mod_eq_of_lt hlt]
      rw [value_concat, List.length_append, List.length_singleton, spell, hquot, hlast, ih htext,
        List.getD_eq_getElem _ _ hlt, List.getElem_idxOf hlt]

omit [DecidableEq α] in
theorem spelled_spell (hpos : 0 < alphabet.length) (width n : Nat) :
    Spelled alphabet (spell alphabet width n) := by
  induction width generalizing n with
  | zero => simp [spell, Spelled]
  | succ width ih =>
      refine spelled_concat.mpr ⟨ih _, ?_⟩
      rw [List.getD_eq_getElem _ _ (Nat.mod_lt _ hpos)]
      exact List.getElem_mem _

/-- Reading back what was spelled gives the number, up to the width. -/
theorem value_spell (hnodup : alphabet.Nodup) (hpos : 0 < alphabet.length) (width n : Nat) :
    value alphabet (spell alphabet width n) = n % alphabet.length ^ width := by
  induction width generalizing n with
  | zero => simp [spell, value, Nat.mod_one]
  | succ width ih =>
      have hlast : alphabet.idxOf (alphabet.getD (n % alphabet.length) default) =
          n % alphabet.length := by
        rw [List.getD_eq_getElem _ _ (Nat.mod_lt _ hpos), hnodup.idxOf_getElem]
      rw [spell, value_concat, ih, hlast, Nat.pow_succ', Nat.mod_mul, Nat.add_comm]

end Lendoor.Numerals
