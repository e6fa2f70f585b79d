import Mathlib.Algebra.Order.Field.Rat
import Mathlib.Tactic.Linarith
import Mathlib.Tactic.GCongr

/-! # Pricing tiers

The monthly rate of a borrower by tier, over exact rationals. The tiers by risk and
repayments are ordered; an override that returns ahead of them is the one place where a
better record can cost more.
-/

namespace Lendoor.Backend

/-! ## `getTieredMonthlyRate` -/

inductive PricingTier
  | primePlus
  | prime
  | standard
  | nearPrime
  | developing
  deriving DecidableEq, Repr

inductive WalletQuality
  | buena
  | media
  | fea
  deriving DecidableEq, Repr

structure PricingTierResult where
  tier : PricingTier
  monthlyRate : ℚ
  deriving DecidableEq

/-- `pd`: a missing or invalid `pDefault` is the worst case. -/
def pdOrWorst : Option ℚ → ℚ
  | some pDefault => if 0 ≤ pDefault ∧ pDefault ≤ 1 then pDefault else 1
  | none => 1

def buenaOverride (onTimeLoans : ℕ) (totalRepaidUsd : ℚ) (lateLoans : ℕ) : Bool :=
  30 ≤ onTimeLoans && 200 ≤ totalRepaidUsd && lateLoans = 0

def mediaOverride (onTimeLoans : ℕ) (totalRepaidUsd : ℚ) (lateLoans : ℕ) : Bool :=
  20 ≤ onTimeLoans && 50 ≤ totalRepaidUsd && lateLoans < 3

/-- `adj` of a band: two points either way, by where `pd` lies in it. -/
def bandAdj (pd width : ℚ) : ℚ := max (-2 / 100) (min (2 / 100) ((pd / width - 1 / 2) * (4 / 100)))

/-- The tiers below the overrides. -/
def tierByRisk (pd : ℚ) (onTimeLoans lateLoans : ℕ) : PricingTierResult :=
  if pd < 5 / 100 ∧ 7 ≤ onTimeLoans ∧ lateLoans ≤ 1 then ⟨.primePlus, 14 / 100⟩
  else if pd < 10 / 100 ∧ 5 ≤ onTimeLoans ∧ lateLoans ≤ 2 then ⟨.prime, 18 / 100⟩
  else if 3 ≤ onTimeLoans ∨ pd < 15 / 100 then ⟨.standard, 22 / 100 + bandAdj pd (15 / 100)⟩
  else if 1 ≤ onTimeLoans ∨ pd < 25 / 100 then ⟨.nearPrime, 26 / 100 + bandAdj pd (25 / 100)⟩
  else ⟨.developing, 28 / 100⟩

/-- `walletQuality` stays in the signature for its callers. -/
def getTieredMonthlyRate (pDefault : Option ℚ) (onTimeLoans : ℕ) (_walletQuality : WalletQuality)
    (totalRepaidUsd : ℚ := 0) (lateLoans : ℕ := 0) : PricingTierResult :=
  if buenaOverride onTimeLoans totalRepaidUsd lateLoans = true then ⟨.primePlus, 14 / 100⟩
  else if mediaOverride onTimeLoans totalRepaidUsd lateLoans = true then ⟨.prime, 18 / 100⟩
  else tierByRisk (pdOrWorst pDefault) onTimeLoans lateLoans

/-! ## The bands -/

variable {pd pd' width : ℚ} {onTimeLoans onTimeLoans' lateLoans lateLoans' : ℕ}

theorem pdOrWorst_some (h0 : 0 ≤ pd) (h1 : pd ≤ 1) : pdOrWorst (some pd) = pd := if_pos ⟨h0, h1⟩

theorem bandAdj_mono (hwidth : 0 < width) (h : pd ≤ pd') :
    bandAdj pd width ≤ bandAdj pd' width := by
  unfold bandAdj
  gcongr

theorem neg_le_bandAdj (pd width : ℚ) : -2 / 100 ≤ bandAdj pd width := le_max_left _ _

theorem bandAdj_le (pd width : ℚ) : bandAdj pd width ≤ 2 / 100 :=
  max_le (by norm_num) (min_le_left _ _)

/-! ## The tiers by risk -/

theorem tierByRisk_primePlus (hpd : pd < 5 / 100) (honTime : 7 ≤ onTimeLoans)
    (hlate : lateLoans ≤ 1) :
    tierByRisk pd onTimeLoans lateLoans = ⟨.primePlus, 14 / 100⟩ := if_pos ⟨hpd, honTime, hlate⟩

/-- The rule of a tier bounds the rate from above, whatever better tier it is. -/
theorem tierByRisk_le_prime (hpd : pd < 10 / 100) (honTime : 5 ≤ onTimeLoans)
    (hlate : lateLoans ≤ 2) :
    (tierByRisk pd onTimeLoans lateLoans).monthlyRate ≤ 18 / 100 := by
  unfold tierByRisk
  split
  · norm_num
  · rw [if_pos ⟨hpd, honTime, hlate⟩]

theorem tierByRisk_le_standard (lateLoans : ℕ) (h : 3 ≤ onTimeLoans ∨ pd < 15 / 100) :
    (tierByRisk pd onTimeLoans lateLoans).monthlyRate ≤ 22 / 100 + bandAdj pd (15 / 100) := by
  have hadj := neg_le_bandAdj pd (15 / 100)
  unfold tierByRisk
  rw [if_pos h]
  split
  · linarith
  · split
    · linarith
    · exact le_rfl

theorem tierByRisk_le_nearPrime (lateLoans : ℕ) (h : 1 ≤ onTimeLoans ∨ pd < 25 / 100) :
    (tierByRisk pd onTimeLoans lateLoans).monthlyRate ≤ 26 / 100 + bandAdj pd (25 / 100) := by
  have hadj := neg_le_bandAdj pd (25 / 100)
  unfold tierByRisk
  rw [if_pos h]
  split
  · linarith
  · split
    · linarith
    · split
      · have hband := bandAdj_le pd (15 / 100)
        linarith
      · exact le_rfl

theorem tierByRisk_le (pd : ℚ) (onTimeLoans lateLoans : ℕ) :
    (tierByRisk pd onTimeLoans lateLoans).monthlyRate ≤ 28 / 100 := by
  by_cases hnear : 1 ≤ onTimeLoans ∨ pd < 25 / 100
  · have hle := tierByRisk_le_nearPrime lateLoans hnear
    have hband := bandAdj_le pd (25 / 100)
    linarith
  · rcases not_or.mp hnear with ⟨honTime, hpd⟩
    unfold tierByRisk
    rw [if_neg (by grind), if_neg (by grind), if_neg (by grind), if_neg hnear]

/-- Below the overrides a better record never costs more. -/
theorem tierByRisk_mono (hpd : pd' ≤ pd) (honTime : onTimeLoans ≤ onTimeLoans')
    (hlate : lateLoans' ≤ lateLoans) :
    (tierByRisk pd' onTimeLoans' lateLoans').monthlyRate ≤
      (tierByRisk pd onTimeLoans lateLoans).monthlyRate := by
  -- the rule that gave the old rate still holds, and bounds the new one
  conv_rhs => unfold tierByRisk
  split
  · rename_i h
    rw [tierByRisk_primePlus (lt_of_le_of_lt hpd h.1) (h.2.1.trans honTime) (hlate.trans h.2.2)]
  · split
    · rename_i h
      exact tierByRisk_le_prime (lt_of_le_of_lt hpd h.1) (h.2.1.trans honTime) (hlate.trans h.2.2)
    · split
      · rename_i h
        have hrule := tierByRisk_le_standard lateLoans'
          (h.imp (fun h => h.trans honTime) (lt_of_le_of_lt hpd))
        have hadj := bandAdj_mono (by norm_num : (0 : ℚ) < 15 / 100) hpd
        simp only
        linarith
      · split
        · rename_i h
          have hrule := tierByRisk_le_nearPrime lateLoans'
            (h.imp (fun h => h.trans honTime) (lt_of_le_of_lt hpd))
          have hadj := bandAdj_mono (by norm_num : (0 : ℚ) < 25 / 100) hpd
          simp only
          linarith
        · exact tierByRisk_le pd' onTimeLoans' lateLoans'

theorem le_tierByRisk (pd : ℚ) (onTimeLoans lateLoans : ℕ) :
    14 / 100 ≤ (tierByRisk pd onTimeLoans lateLoans).monthlyRate := by
  have hstandard := neg_le_bandAdj pd (15 / 100)
  have hnear := neg_le_bandAdj pd (25 / 100)
  unfold tierByRisk
  split_ifs <;> simp only <;> linarith

/-- Only the best rule gives less than the rate of Prime. -/
theorem tierByRisk_lt_prime (h : (tierByRisk pd onTimeLoans lateLoans).monthlyRate < 18 / 100) :
    pd < 5 / 100 ∧ 7 ≤ onTimeLoans ∧ lateLoans ≤ 1 := by
  by_contra hrule
  have hstandard := neg_le_bandAdj pd (15 / 100)
  have hnear := neg_le_bandAdj pd (25 / 100)
  unfold tierByRisk at h
  rw [if_neg hrule] at h
  split_ifs at h <;> simp only at h <;> linarith

/-! ## Better records -/

/-- What the rate is asked for. -/
structure Pricing where
  pDefault : Option ℚ
  onTimeLoans : ℕ
  walletQuality : WalletQuality
  totalRepaidUsd : ℚ
  lateLoans : ℕ

def Pricing.monthlyRate (x : Pricing) : ℚ :=
  (getTieredMonthlyRate x.pDefault x.onTimeLoans x.walletQuality x.totalRepaidUsd
    x.lateLoans).monthlyRate

def Pricing.buena (x : Pricing) : Bool := buenaOverride x.onTimeLoans x.totalRepaidUsd x.lateLoans

def Pricing.media (x : Pricing) : Bool := mediaOverride x.onTimeLoans x.totalRepaidUsd x.lateLoans

/-- The record `y` is in no respect worse than `x`. -/
structure NoWorse (x y : Pricing) : Prop where
  pd : pdOrWorst y.pDefault ≤ pdOrWorst x.pDefault
  onTimeLoans : x.onTimeLoans ≤ y.onTimeLoans
  totalRepaidUsd : x.totalRepaidUsd ≤ y.totalRepaidUsd
  lateLoans : y.lateLoans ≤ x.lateLoans

/-- By its risk `x` is Prime+, and `y` has come under the override that gives Prime. -/
def Overtaken (x y : Pricing) : Prop :=
  (pdOrWorst x.pDefault < 5 / 100 ∧ 7 ≤ x.onTimeLoans ∧ x.lateLoans ≤ 1) ∧ x.media = false ∧
    y.media = true ∧ y.buena = false

variable {x y : Pricing}

theorem Pricing.media_of_buena (h : x.buena = true) : x.media = true := by
  simp only [buena, buenaOverride, media, mediaOverride, Bool.and_eq_true, decide_eq_true_eq] at h ⊢
  rcases h with ⟨⟨honTime, hrepaid⟩, hlate⟩
  exact ⟨⟨by omega, by linarith⟩, by omega⟩

theorem NoWorse.buena (h : NoWorse x y) (hx : x.buena = true) : y.buena = true := by
  simp only [Pricing.buena, buenaOverride, Bool.and_eq_true, decide_eq_true_eq] at hx ⊢
  rcases hx with ⟨⟨honTime, hrepaid⟩, hlate⟩
  have hlate' := h.lateLoans
  exact ⟨⟨honTime.trans h.onTimeLoans, hrepaid.trans h.totalRepaidUsd⟩, by omega⟩

theorem NoWorse.media (h : NoWorse x y) (hx : x.media = true) : y.media = true := by
  simp only [Pricing.media, mediaOverride, Bool.and_eq_true, decide_eq_true_eq] at hx ⊢
  rcases hx with ⟨⟨honTime, hrepaid⟩, hlate⟩
  exact ⟨⟨honTime.trans h.onTimeLoans, hrepaid.trans h.totalRepaidUsd⟩,
    lt_of_le_of_lt h.lateLoans hlate⟩

theorem Pricing.monthlyRate_eq (x : Pricing) : x.monthlyRate =
    (if x.buena = true then ⟨.primePlus, 14 / 100⟩
      else if x.media = true then ⟨.prime, 18 / 100⟩
      else tierByRisk (pdOrWorst x.pDefault) x.onTimeLoans x.lateLoans).monthlyRate := rfl

theorem Pricing.monthlyRate_of_buena (h : x.buena = true) : x.monthlyRate = 14 / 100 := by
  rw [monthlyRate_eq, if_pos h]

theorem Pricing.monthlyRate_of_media (hbuena : x.buena = false) (hmedia : x.media = true) :
    x.monthlyRate = 18 / 100 := by
  rw [monthlyRate_eq, if_neg (ne_true_of_eq_false hbuena), if_pos hmedia]

theorem Pricing.monthlyRate_of_risk (hmedia : x.media = false) : x.monthlyRate =
    (tierByRisk (pdOrWorst x.pDefault) x.onTimeLoans x.lateLoans).monthlyRate := by
  have hbuena : ¬x.buena = true := fun h => by simp [media_of_buena h] at hmedia
  rw [monthlyRate_eq, if_neg hbuena, if_neg (ne_true_of_eq_false hmedia)]

theorem Pricing.le_monthlyRate (x : Pricing) : 14 / 100 ≤ x.monthlyRate := by
  cases hbuena : x.buena with
  | true => rw [monthlyRate_of_buena hbuena]
  | false =>
      cases hmedia : x.media with
      | true =>
          rw [monthlyRate_of_media hbuena hmedia]
          norm_num
      | false =>
          rw [monthlyRate_of_risk hmedia]
          exact le_tierByRisk _ _ _

theorem Pricing.monthlyRate_le (x : Pricing) : x.monthlyRate ≤ 28 / 100 := by
  cases hbuena : x.buena with
  | true =>
      rw [monthlyRate_of_buena hbuena]
      norm_num
  | false =>
      cases hmedia : x.media with
      | true =>
          rw [monthlyRate_of_media hbuena hmedia]
          norm_num
      | false =>
          rw [monthlyRate_of_risk hmedia]
          exact tierByRisk_le _ _ _

/-- The rate stays in its range, and a record that is no worse costs no more unless the
override takes it out of Prime+. -/
theorem monthlyRate_le_iff (h : NoWorse x y) :
    (y.monthlyRate ≤ x.monthlyRate ∧ 14 / 100 ≤ x.monthlyRate ∧ x.monthlyRate ≤ 28 / 100) ↔
      ¬Overtaken x y := by
  refine (and_iff_left ⟨x.le_monthlyRate, x.monthlyRate_le⟩).trans ⟨?_, fun hnot => ?_⟩
  · rintro hle ⟨⟨hpd, honTime, hlate⟩, hx, hy, hbuena⟩
    rw [Pricing.monthlyRate_of_media hbuena hy, Pricing.monthlyRate_of_risk hx,
      tierByRisk_primePlus hpd honTime hlate] at hle
    norm_num at hle
  · cases hbuena : y.buena with
    | true =>
        rw [Pricing.monthlyRate_of_buena hbuena]
        exact x.le_monthlyRate
    | false =>
        have hbuena' : x.buena = false := by
          by_contra hx
          rw [h.buena (by simpa using hx)] at hbuena
          cases hbuena
        cases hx : x.media with
        | true => rw [Pricing.monthlyRate_of_media hbuena (h.media hx),
            Pricing.monthlyRate_of_media hbuena' hx]
        | false =>
            cases hy : y.media with
            | true =>
                -- not below Prime, or the override has taken it out of Prime+
                rw [Pricing.monthlyRate_of_media hbuena hy, Pricing.monthlyRate_of_risk hx]
                by_contra hlt
                exact hnot ⟨tierByRisk_lt_prime (not_le.mp hlt), hx, hy, hbuena⟩
            | false =>
                rw [Pricing.monthlyRate_of_risk hx, Pricing.monthlyRate_of_risk hy]
                exact tierByRisk_mono h.pd h.onTimeLoans h.lateLoans

/-- A first loan repaid on time, and less risk. -/
theorem monthlyRate_first_loan :
    (⟨some (2 / 10), 1, .fea, 10, 0⟩ : Pricing).monthlyRate ≤
      (⟨some (3 / 10), 0, .fea, 10, 0⟩ : Pricing).monthlyRate := by
  have hbetter : NoWorse ⟨some (3 / 10), 0, .fea, 10, 0⟩ ⟨some (2 / 10), 1, .fea, 10, 0⟩ := by
    refine ⟨?_, by decide, le_rfl, le_rfl⟩
    rw [pdOrWorst_some (by norm_num) (by norm_num), pdOrWorst_some (by norm_num) (by norm_num)]
    norm_num
  exact ((monthlyRate_le_iff hbetter).mpr (by simp [Overtaken])).1

/-- The twentieth loan repaid on time takes a borrower out of Prime+. -/
theorem monthlyRate_twentieth_loan :
    ¬ ∀ (pDefault : Option ℚ) (onTimeLoans onTimeLoans' : ℕ) (walletQuality : WalletQuality)
      (totalRepaidUsd : ℚ) (lateLoans : ℕ), onTimeLoans ≤ onTimeLoans' →
        (getTieredMonthlyRate pDefault onTimeLoans' walletQuality totalRepaidUsd
          lateLoans).monthlyRate ≤
          (getTieredMonthlyRate pDefault onTimeLoans walletQuality totalRepaidUsd
            lateLoans).monthlyRate := by
  intro h
  have hle := h (some (4 / 100)) 19 20 .fea 50 0 (by decide)
  norm_num [getTieredMonthlyRate, buenaOverride, mediaOverride, tierByRisk, pdOrWorst] at hle

end Lendoor.Backend
