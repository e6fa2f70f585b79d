import Lendoor.Core.Decimal
import Lendoor.Backend.CreditPolicy
import Lendoor.Backend.Http
import Mathlib.Data.Rat.Floor

/-! # Amounts in units

The decimal amounts that people write and the integer units of the token, as the backend
converts them.
-/

namespace Lendoor.Backend.AmountUnits

open Cctp (Text hexValue isHexDigit)
open Decimal (value AllDigits padEnd)

/-- The digits of `BigInt` behind a prefix for their base. -/
def radixDigits (base : Nat) (digits : Text) : Option Int :=
  if digits ≠ [] ∧ digits.all (fun c => isHexDigit c && hexValue c < base) = true then
    some (digits.foldl (fun n c => base * n + hexValue c) 0 : Nat)
  else none

def decimalDigits (digits : Text) : Option Int :=
  if digits ≠ [] ∧ digits.all Char.isDigit = true then some (value digits) else none

/-- `BigInt` of a string. It throws on what is not a number. -/
def bigInt (text : Text) : Option Int :=
  match trim text with
  | [] => some 0
  | '-' :: digits => (decimalDigits digits).map fun n => -n
  | '+' :: digits => decimalDigits digits
  | '0' :: 'x' :: digits | '0' :: 'X' :: digits => radixDigits 16 digits
  | '0' :: 'o' :: digits | '0' :: 'O' :: digits => radixDigits 8 digits
  | '0' :: 'b' :: digits | '0' :: 'B' :: digits => radixDigits 2 digits
  | digits => decimalDigits digits

/-- The first two pieces of `text.split('.')`, where a missing one is empty. -/
def splitPoint (text : Text) : Text × Text :=
  match text.splitOn '.' with
  | [] => ([], [])
  | [whole] => (whole, [])
  | whole :: frac :: _ => (whole, frac)

/-- An amount as it is passed around. A number counts as its `String`. -/
inductive Amount
  | bigint (units : Int)
  | string (text : Text)
  deriving DecidableEq

def stellarTokenDecimals : Nat := 7

/-- The part of `toUnits` behind the sign. -/
def unsignedUnits (unsigned : Text) (decimals : Nat) : Option Int := do
  let (wholeRaw, fracRaw) := splitPoint unsigned
  let whole ← bigInt (if wholeRaw = [] then ['0'] else wholeRaw)
  let frac := (padEnd decimals fracRaw).take decimals
  let fracUnits ← bigInt (if frac = [] then ['0'] else frac)
  pure (whole * 10 ^ decimals + fracUnits)

/-- It throws where `BigInt` does. -/
def toUnits (v : Amount) (decimals : Nat) : Option Int :=
  match v with
  | .bigint units => some units
  | .string text =>
      match trim text with
      | '-' :: unsigned => (unsignedUnits unsigned decimals).map fun units => -units
      | unsigned => unsignedUnits unsigned decimals

/-! ## Spelled amounts -/

/-- `^[0-9]+(\.[0-9]*)?$`, with the number that is spelled. -/
inductive Spells : Text → ℚ → Prop
  | whole {digits : Text} : digits ≠ [] → AllDigits digits → Spells digits (value digits)
  | point {digits frac : Text} : digits ≠ [] → AllDigits digits → AllDigits frac →
      Spells (digits ++ '.' :: frac) (value digits + value frac / 10 ^ frac.length)

variable {text digits frac : Text}

theorem isDigit_ne {c d : Char} (hc : c.isDigit = true) (hd : d.isDigit = false) : c ≠ d := by
  rintro rfl
  rw [hc] at hd
  cases hd

theorem not_isJsSpace {c : Char} (hc : c.isDigit = true) : isJsSpace c = false := by
  have hrange := Char.isDigit_iff_toNat.mp hc
  have hlow : 48 ≤ c.toNat := hrange.1
  have hhigh : c.toNat ≤ 57 := hrange.2
  simp only [isJsSpace, Bool.or_eq_false_iff, Bool.and_eq_false_iff, beq_eq_false_iff_ne,
    decide_eq_false_iff_not]
  omega

/-- A text without space at its ends is not trimmed. -/
theorem trim_eq_self (hfirst : ∀ c, text.head? = some c → isJsSpace c = false)
    (hlast : ∀ c, text.getLast? = some c → isJsSpace c = false) : trim text = text := by
  have hstart : text.dropWhile isJsSpace = text := by
    cases text with
    | nil => rfl
    | cons c text => rw [List.dropWhile_cons_of_neg (by simp [hfirst c rfl])]
  have hend : text.reverse.dropWhile isJsSpace = text.reverse := by
    cases hrev : text.reverse with
    | nil => rfl
    | cons c rest =>
        have hc : text.getLast? = some c := by rw [← List.head?_reverse, hrev]; rfl
        rw [List.dropWhile_cons_of_neg (by simp [hlast c hc])]
  rw [trim, hstart, hend, List.reverse_reverse]

theorem trim_digits (h : AllDigits digits) : trim digits = digits :=
  trim_eq_self (fun c hc => not_isJsSpace (h c (List.mem_of_head? hc)))
    fun c hc => not_isJsSpace (h c (List.mem_of_getLast? hc))

theorem decimalDigits_digits (hne : digits ≠ []) (h : AllDigits digits) :
    decimalDigits digits = some (value digits) :=
  if_pos ⟨hne, List.all_eq_true.mpr h⟩

theorem bigInt_digits (hne : digits ≠ []) (h : AllDigits digits) :
    bigInt digits = some (value digits) := by
  have hdigits := decimalDigits_digits hne h
  unfold bigInt
  rw [trim_digits h]
  split
  · exact absurd rfl hne
  -- no sign and no prefix of a base is made of digits
  · exact absurd rfl (isDigit_ne (h '-' (by simp)) (by decide))
  · exact absurd rfl (isDigit_ne (h '+' (by simp)) (by decide))
  · exact absurd rfl (isDigit_ne (h 'x' (by simp)) (by decide))
  · exact absurd rfl (isDigit_ne (h 'X' (by simp)) (by decide))
  · exact absurd rfl (isDigit_ne (h 'o' (by simp)) (by decide))
  · exact absurd rfl (isDigit_ne (h 'O' (by simp)) (by decide))
  · exact absurd rfl (isDigit_ne (h 'b' (by simp)) (by decide))
  · exact absurd rfl (isDigit_ne (h 'B' (by simp)) (by decide))
  · exact hdigits

/-- `BigInt(digits || '0')` -/
theorem bigInt_or_zero (h : AllDigits digits) :
    bigInt (if digits = [] then ['0'] else digits) = some (value digits) := by
  split
  · rename_i hnil
    rw [hnil]
    rfl
  · rename_i hne
    exact bigInt_digits hne h

theorem splitPoint_whole (h : AllDigits digits) : splitPoint digits = (digits, []) := by
  have hpoint : '.' ∉ digits := fun hmem => isDigit_ne (h '.' hmem) (d := '.') (by decide) rfl
  rw [splitPoint, List.splitOn_eq_singleton hpoint]

theorem splitPoint_point (h : AllDigits digits) (hfrac : AllDigits frac) :
    splitPoint (digits ++ '.' :: frac) = (digits, frac) := by
  have hpoint : '.' ∉ digits := fun hmem => isDigit_ne (h '.' hmem) (d := '.') (by decide) rfl
  have hpoint' : '.' ∉ frac := fun hmem => isDigit_ne (hfrac '.' hmem) (d := '.') (by decide) rfl
  rw [splitPoint, List.splitOn_append_cons_self, List.splitOn_eq_singleton hpoint,
    List.splitOn_eq_singleton hpoint']
  rfl

theorem floor_scaled (whole frac n d : Nat) :
    ⌊((whole : ℚ) + frac / 10 ^ n) * 10 ^ d⌋ = whole * 10 ^ d + (frac * 10 ^ d / 10 ^ n : Nat) := by
  have hscaled : ((whole : ℚ) + frac / 10 ^ n) * 10 ^ d =
      ((whole * 10 ^ d : Nat) : Int) + ((frac * 10 ^ d : Nat) : ℚ) / ((10 ^ n : Nat) : ℚ) := by
    push_cast
    ring
  rw [hscaled, Int.floor_intCast_add, Rat.floor_natCast_div_natCast]
  push_cast
  rfl

/-- The parts of a spelled amount. -/
theorem Spells.parts {v : ℚ} (h : Spells text v) :
    ∃ whole frac, whole ≠ [] ∧ AllDigits whole ∧ AllDigits frac ∧ splitPoint text = (whole, frac) ∧
      v = value whole + value frac / 10 ^ frac.length ∧ ∀ c ∈ text, c.isDigit = true ∨ c = '.' := by
  cases h with
  | whole hne hdigits =>
      refine ⟨text, [], hne, hdigits, by simp [AllDigits], splitPoint_whole hdigits, ?_,
        fun c hc => .inl (hdigits c hc)⟩
      simp [value]
  | @point digits frac hne hdigits hfrac =>
      refine ⟨digits, frac, hne, hdigits, hfrac, splitPoint_point hdigits hfrac,
        rfl, fun c hc => ?_⟩
      rcases List.mem_append.mp hc with hc | hc
      · exact .inl (hdigits c hc)
      · rcases List.mem_cons.mp hc with rfl | hc
        · exact .inr rfl
        · exact .inl (hfrac c hc)

theorem Spells.trim {v : ℚ} (h : Spells text v) : trim text = text := by
  rcases h.parts with ⟨_, _, -, -, -, -, -, hchars⟩
  have hspace : ∀ c ∈ text, isJsSpace c = false := by
    intro c hc
    rcases hchars c hc with hdigit | rfl
    · exact not_isJsSpace hdigit
    · decide
  exact trim_eq_self (fun c hc => hspace c (List.mem_of_head? hc)) fun c hc =>
    hspace c (List.mem_of_getLast? hc)

/-- The units of a spelled amount: what is beyond the decimals is cut. -/
theorem unsignedUnits_spells {v : ℚ} (h : Spells text v) (decimals : Nat) :
    unsignedUnits text decimals = some ⌊v * 10 ^ decimals⌋ := by
  rcases h.parts with ⟨whole, frac, hne, hwhole, hfrac, hsplit, rfl, -⟩
  have hpadded : AllDigits ((padEnd decimals frac).take decimals) :=
    (hfrac.append (.zeros _)).take _
  rw [floor_scaled, ← Decimal.value_padEnd_take hfrac]
  simp only [unsignedUnits, hsplit, bigInt_or_zero hwhole, bigInt_or_zero hpadded,
    Option.bind_eq_bind, Option.bind_some, Option.pure_def]

theorem Spells.ne_minus {v : ℚ} (h : Spells text v) (rest : Text) : text ≠ '-' :: rest := by
  rintro rfl
  rcases h.parts with ⟨_, _, -, -, -, -, -, hchars⟩
  rcases hchars '-' (by simp) with hdigit | hpoint
  · cases hdigit
  · cases hpoint

theorem toUnits_spells {v : ℚ} (h : Spells text v) (decimals : Nat) :
    toUnits (.string text) decimals = some ⌊v * 10 ^ decimals⌋ := by
  unfold toUnits
  simp only [h.trim]
  split
  · exact absurd rfl (h.ne_minus _)
  · exact unsignedUnits_spells h decimals

/-- The sign of an amount is the sign of its units. -/
theorem toUnits_neg_spells {v : ℚ} (h : Spells text v) (decimals : Nat) :
    toUnits (.string ('-' :: text)) decimals = some (-⌊v * 10 ^ decimals⌋) := by
  have htrim : Backend.trim ('-' :: text) = '-' :: text := by
    refine trim_eq_self (fun c hc => ?_) fun c hc => ?_
    · cases hc
      decide
    · rcases h.parts with ⟨_, _, -, -, -, -, -, hchars⟩
      rcases List.mem_cons.mp (List.mem_of_getLast? hc) with rfl | hmem
      · decide
      · rcases hchars c hmem with hdigit | rfl
        · exact not_isJsSpace hdigit
        · decide
  simp only [toUnits, htrim, unsignedUnits_spells h, Option.map_some]

end Lendoor.Backend.AmountUnits
