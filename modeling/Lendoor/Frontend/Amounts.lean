import Lendoor.Backend.AmountUnits

/-! # Typed and displayed amounts

The frontend parses the amounts that are typed and displays units exactly. What it displays
it parses back, and the amounts that it parses are those of the backend.
-/

namespace Lendoor.Frontend

open Cctp (Text)
open Decimal (value AllDigits padEnd padStart trimZeros)
open Backend (trim isJsSpace)
open Backend.AmountUnits

/-- `raw.replace(',', '.')` -/
def replaceComma : Text → Text
  | [] => []
  | ',' :: rest => '.' :: rest
  | c :: rest => c :: replaceComma rest

/-- `^\d*\.?\d*$` -/
def isTypedAmount (v : Text) : Bool :=
  match v.dropWhile Char.isDigit with
  | [] => true
  | c :: rest => c = '.' && rest.all Char.isDigit

def parseUsdcAmount (decimals : Nat) (raw : Text) : Option Int :=
  let v := trim (replaceComma raw)
  if v = [] ∨ isTypedAmount v = false then none
  else do
    let (i, f) := splitPoint v
    let frac := (f ++ List.replicate decimals '0').take decimals
    let whole ← bigInt (if i = [] then ['0'] else i)
    let fracUnits ← bigInt (if frac = [] then ['0'] else frac)
    pure (whole * 10 ^ decimals + fracUnits)

/-- `^[-+]?\d*(\.\d*)?$` -/
def isSignedAmount : Text → Bool
  | '-' :: rest | '+' :: rest => isTypedAmount rest
  | raw => isTypedAmount raw

/-- Parse a decimal text into units, rounded to the decimals. -/
def decimalToUnits (decimals : Nat) (v : Text) : Option Int :=
  let raw := v.filter fun c => !isJsSpace c && c ≠ ','
  if v = [] ∨ isSignedAmount raw = false then none
  else
    let neg := raw.head? = some '-'
    let x := if neg ∨ raw.head? = some '+' then raw.drop 1 else raw
    let (i, f) := splitPoint x
    -- one digit more decides the rounding
    let padded := (f ++ List.replicate (decimals + 1) '0').take (decimals + 1)
    let next := value (padded.drop decimals)
    let units :=
      value i * 10 ^ decimals + value (padded.take decimals) + (if 5 ≤ next then 1 else 0)
    some (if neg then -units else units)

/-- At least two decimals, and all that are not zero. -/
def formatUSDCAmountExact (decimals : Nat) (amount : Amount) : Text :=
  let units? := match amount with
    | .bigint units => some units
    | .string text => decimalToUnits decimals text
  match units?, amount with
  | none, .string text => text
  | none, .bigint _ => ['—']
  | some units, _ =>
      let v := units.natAbs
      let frac := trimZeros (padStart decimals (Nat.toDigits 10 (v % 10 ^ decimals)))
      let frac := if frac.length < 2 then padEnd 2 frac else frac
      (if units < 0 then ['-'] else []) ++ Nat.toDigits 10 (v / 10 ^ decimals) ++ '.' :: frac

/-! ## Round trip -/

variable {text digits frac : Text}

theorem isTypedAmount_whole (h : AllDigits digits) : isTypedAmount digits = true := by
  have hall : digits.dropWhile Char.isDigit = [] := List.dropWhile_eq_nil_iff.mpr h
  rw [isTypedAmount, hall]

theorem isTypedAmount_point (h : AllDigits digits) (hfrac : AllDigits frac) :
    isTypedAmount (digits ++ '.' :: frac) = true := by
  have hrest : (digits ++ '.' :: frac).dropWhile Char.isDigit = '.' :: frac := by
    rw [List.dropWhile_append_of_pos h]
    rfl
  rw [isTypedAmount, hrest]
  exact Bool.and_eq_true_iff.mpr ⟨by decide, List.all_eq_true.mpr hfrac⟩

theorem replaceComma_eq_self (h : ',' ∉ text) : replaceComma text = text := by
  induction text with
  | nil => rfl
  | cons c text ih =>
      have htail := ih fun hmem => h (List.mem_cons_of_mem _ hmem)
      unfold replaceComma
      split
      · rename_i hnil
        cases hnil
      · rename_i hcons
        cases hcons
        exact absurd List.mem_cons_self h
      · rename_i hcons
        cases hcons
        rw [htail]

theorem Spells.isTypedAmount {v : ℚ} (h : Spells text v) : isTypedAmount text = true := by
  cases h with
  | whole _ hdigits => exact isTypedAmount_whole hdigits
  | point _ hdigits hfrac => exact isTypedAmount_point hdigits hfrac

/-- A spelled amount is parsed to its units. -/
theorem parseUsdcAmount_spells {v : ℚ} (h : Spells text v) (decimals : Nat) :
    parseUsdcAmount decimals text = some ⌊v * 10 ^ decimals⌋ := by
  rcases h.parts with ⟨whole, frac, hne, hwhole, hfrac, hsplit, hv, hchars⟩
  have hcomma : ',' ∉ text := by
    intro hmem
    rcases hchars ',' hmem with hdigit | hpoint
    · cases hdigit
    · cases hpoint
  have htyped := Spells.isTypedAmount h
  have hnil : text ≠ [] := by
    rintro rfl
    exact hne (congrArg Prod.fst hsplit).symm
  have hpadded : AllDigits ((frac ++ List.replicate decimals '0').take decimals) :=
    (hfrac.append (.zeros _)).take _
  have hscaled := Decimal.value_fraction hfrac (Nat.le_add_left decimals frac.length)
  rw [hv, floor_scaled, ← hscaled]
  simp only [parseUsdcAmount, replaceComma_eq_self hcomma, h.trim, hnil, htyped, hsplit,
    bigInt_or_zero hwhole, bigInt_or_zero hpadded, Option.bind_eq_bind,
    Option.bind_some, Option.pure_def, Bool.true_eq_false, or_self, if_false]

/-- The decimals that are displayed spell the part below one token. -/
theorem shown_fraction (decimals : Nat) {part : Nat} (hpart : part < 10 ^ decimals) (zeros : Nat) :
    let shown := trimZeros (padStart decimals (Nat.toDigits 10 part)) ++ List.replicate zeros '0'
    AllDigits shown ∧ value shown * 10 ^ decimals / 10 ^ shown.length = part := by
  intro shown
  have hdigits : AllDigits (padStart decimals (Nat.toDigits 10 part)) :=
    (Decimal.AllDigits.zeros _).append (Decimal.allDigits_toDigits part)
  refine ⟨hdigits.trimZeros.append (.zeros zeros), ?_⟩
  have hvalue : value (padStart decimals (Nat.toDigits 10 part)) = part := by
    rw [Decimal.value_padStart, Decimal.value_toDigits]
  rcases Decimal.trimZeros_append (padStart decimals (Nat.toDigits 10 part)) with ⟨n, hn⟩
  -- the zeros that are trimmed and those that are put back do not count
  rw [Decimal.fraction_zeros, ← Decimal.fraction_zeros _ n, ← hn, hvalue]
  have hwidth : (padStart decimals (Nat.toDigits 10 part)).length =
      decimals ∨ part = 0 ∧ decimals = 0 := by
    rcases Nat.eq_zero_or_pos decimals with rfl | hpos
    · exact .inr ⟨by simpa using hpart, rfl⟩
    · have hle := (Nat.length_toDigits_le_iff (by decide) hpos).mpr hpart
      rw [padStart, List.length_append, List.length_replicate]
      omega
  rcases hwidth with hwidth | ⟨rfl, rfl⟩
  · rw [hwidth, Nat.mul_div_cancel _ (Nat.pow_pos (by decide))]
  · simp

theorem formatUSDCAmountExact_spells (decimals units : Nat) :
    ∃ v : ℚ, Spells (formatUSDCAmountExact decimals (.bigint units)) v ∧
      ⌊v * 10 ^ decimals⌋ = units := by
  have hlt := Nat.mod_lt units (Nat.pow_pos (by decide) : 0 < 10 ^ decimals)
  let shown := trimZeros (padStart decimals (Nat.toDigits 10 (units % 10 ^ decimals)))
  have hshown : ∃ zeros, (if shown.length < 2 then padEnd 2 shown else shown) =
      shown ++ List.replicate zeros '0' := by
    split
    · exact ⟨_, rfl⟩
    · exact ⟨0, by simp⟩
  rcases hshown with ⟨zeros, hzeros⟩
  rcases shown_fraction decimals hlt zeros with ⟨hdigits, hpart⟩
  have hformat : formatUSDCAmountExact decimals (.bigint units) =
      Nat.toDigits 10 (units / 10 ^ decimals) ++ '.' :: (shown ++ List.replicate zeros '0') := by
    have hneg : ¬ (units : Int) < 0 := by omega
    simp only [formatUSDCAmountExact, Int.natAbs_natCast, if_neg hneg, List.nil_append]
    rw [← hzeros]
  have hspells :=
    Spells.point Nat.toDigits_ne_nil (Decimal.allDigits_toDigits (units / 10 ^ decimals)) hdigits
  rw [← hformat] at hspells
  refine ⟨_, hspells, ?_⟩
  rw [floor_scaled, hpart, Decimal.value_toDigits]
  exact_mod_cast Nat.div_add_mod' units (10 ^ decimals)

/-- The two parsers and the display agree: a spelled amount has the same units on both
sides, its negation has the negated ones, and what is displayed is parsed back. -/
theorem amountCodecs_agree (decimals : Nat) :
    (∀ (s : Text) (v : ℚ), Spells s v →
      toUnits (.string s) decimals = some ⌊v * 10 ^ decimals⌋ ∧
      parseUsdcAmount decimals s = some ⌊v * 10 ^ decimals⌋ ∧
      toUnits (.string ('-' :: s)) decimals = (toUnits (.string s) decimals).map fun units =>
        -units) ∧
    ∀ u : Int, 0 ≤ u → parseUsdcAmount decimals (formatUSDCAmountExact decimals (.bigint u)) =
      some u := by
  constructor
  · intro s v h
    have hunits := toUnits_spells h decimals
    refine ⟨hunits, parseUsdcAmount_spells h decimals, ?_⟩
    rw [hunits]
    exact toUnits_neg_spells h decimals
  · intro u hu
    obtain ⟨units, rfl⟩ := Int.eq_ofNat_of_zero_le hu
    rcases formatUSDCAmountExact_spells decimals units with ⟨v, hspells, hfloor⟩
    have hparsed := parseUsdcAmount_spells hspells decimals
    rwa [hfloor] at hparsed

theorem amountCodecs_agree_sample :
    parseUsdcAmount 6 "1.2345678".toList = toUnits (.string "1.2345678".toList) 6 ∧
      parseUsdcAmount 6 (formatUSDCAmountExact 6 (.bigint 2104600)) = some 2104600 := by
  have hagree := amountCodecs_agree 6
  have hspells : Spells (['1'] ++ '.' :: "2345678".toList) _ :=
    .point (by decide) (by simp [AllDigits]) (by simp [AllDigits])
  rcases hagree.1 _ _ hspells with ⟨hunits, hparsed, -⟩
  exact ⟨hparsed.trans hunits.symm, hagree.2 2104600 (by decide)⟩

example : toUnits (.string "-0.1234567".toList) 6 = some (-123456) := by decide

example : formatUSDCAmountExact 6 (.bigint 2100000) = "2.10".toList := by decide

end Lendoor.Frontend
