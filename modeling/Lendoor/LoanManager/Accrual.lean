import Mathlib.Tactic.GCongr
import Mathlib.Tactic.Positivity
import Lendoor.LoanManager.Contract

/-! # Accrual

What `accrued_in_memory` can do to a record: it only ever raises `amount_due`,
it is idempotent within one ledger timestamp, and the cumulative formula it
differences has a closed form whenever its products fit.
-/

namespace Lendoor.LoanManager

/-! ## Only the balance grows -/

theorem accrueInterest_spec {now since : Nat} {l l' : Loan}
    (h : accrueInterest now since l = .ok l') :
    ∃ x, 0 ≤ x ∧ l' = { l with amountDue := l.amountDue + x } := by
  have unchanged : ∃ x, 0 ≤ x ∧ l = { l with amountDue := l.amountDue + x } :=
    ⟨0, le_refl 0, by simp⟩
  simp only [accrueInterest, bind_eq_ok, ite_eq_ok, pure_eq_ok] at h
  obtain ⟨_, _, ⟨_, hi?, _, lo?, _, h⟩ | ⟨_, rfl⟩⟩ := h
  · split at h
    · simp only [bind_eq_ok, ite_eq_ok, unwrapOr_eq_ok, I128.add_eq_some, pure_eq_ok] at h
      obtain ⟨delta, _, ⟨hpos, _, ⟨rfl, _⟩, rfl⟩ | ⟨_, rfl⟩⟩ := h
      · exact ⟨delta, by omega, rfl⟩
      · exact unchanged
    · cases h
      exact unchanged
  · exact unchanged

theorem accrueLateFee_spec {now since : Nat} {l l' : Loan} {p : PremiumConfig}
    (hnn : 0 ≤ l.amountDue) (h : accrueLateFee now since l p = .ok l') :
    ∃ x, 0 ≤ x ∧ l' = { l with amountDue := l.amountDue + x } := by
  have unchanged : ∃ x, 0 ≤ x ∧ l = { l with amountDue := l.amountDue + x } :=
    ⟨0, le_refl 0, by simp⟩
  simp only [accrueLateFee, bind_eq_ok, ite_eq_ok, pure_eq_ok] at h
  obtain ⟨hrate, _, _, ⟨_, tLate, _, h⟩ | ⟨_, rfl⟩⟩ | ⟨_, rfl⟩ := h
  · split at h
    · rename_i x hx
      simp only [Option.bind_eq_some_iff, I128.mul_eq_some] at hx
      obtain ⟨_, ⟨rfl, _⟩, rfl, _⟩ := hx
      simp only [bind_eq_ok, unwrapOr_eq_ok, I128.add_eq_some, pure_eq_ok] at h
      obtain ⟨_, ⟨rfl, _⟩, rfl⟩ := h
      have hfee : 0 ≤ p.lateRatePerSecWad * tLate * l.amountDue := by positivity
      exact ⟨_, Int.tdiv_nonneg hfee (by decide), rfl⟩
    · cases h
      exact unchanged
  · exact unchanged
  · exact unchanged

/-- Accrual leaves every field but the balance, which it never lowers. -/
theorem accruedInMemory_spec {e : Env} {l l' : Loan} {p : PremiumConfig} (hnn : 0 ≤ l.amountDue)
    (h : accruedInMemory e l p = .ok l') :
    ∃ x, 0 ≤ x ∧ l' = { l with amountDue := l.amountDue + x } := by
  simp only [accruedInMemory, bind_eq_ok, ite_eq_ok, pure_eq_ok] at h
  obtain ⟨_, rfl⟩ | ⟨_, ⟨_, rfl⟩ | ⟨_, charged, hcharged, h⟩⟩ := h
  · exact ⟨0, le_refl 0, by simp⟩
  · exact ⟨0, le_refl 0, by simp⟩
  · obtain ⟨x, hx, rfl⟩ := accrueInterest_spec hcharged
    obtain ⟨y, hy, rfl⟩ := accrueLateFee_spec (by simp only; omega) h
    exact ⟨x + y, by omega, by simp [add_assoc]⟩

/-! ## The anchor -/

@[simp] theorem Loan.advance_principal (l : Loan) (now : Nat) :
    (l.advance now).principal = l.principal := by
  unfold Loan.advance; split <;> rfl

@[simp] theorem Loan.advance_amountDue (l : Loan) (now : Nat) :
    (l.advance now).amountDue = l.amountDue := by
  unfold Loan.advance; split <;> rfl

theorem Loan.advance_eq (l : Loan) (now : Nat) :
    l.advance now = { l with lastAccrued := max l.lastAccrued now } := by
  unfold Loan.advance
  split
  · rw [max_eq_right (by omega)]
  · rw [max_eq_left (by omega)]

/-- Within one ledger timestamp a second accrual finds nothing to charge. -/
theorem accruedInMemory_of_le {e : Env} {l : Loan} {p : PremiumConfig}
    (h : e.timestamp ≤ l.accruedUntil) : accruedInMemory e l p = .ok l := by
  simp only [accruedInMemory, if_pos h]
  split <;> rfl

theorem le_accruedUntil_advance (l : Loan) (now : Nat) : now ≤ (l.advance now).accruedUntil := by
  rw [Loan.advance_eq, Loan.accruedUntil]
  simp only
  split <;> omega

/-! ## Closed form of the interest -/

/-- The facts about an active record that no later operation disturbs. -/
structure Loan.Live (l : Loan) : Prop where
  principal_pos : 0 < l.principal
  principal_le : l.principal ≤ l.amountDue
  tenor_pos : 1 ≤ l.tenorDays
  fee_pos : 1 ≤ l.feeBps
  due_eq : l.due = l.start + l.tenorDays * secondsPerDay
  due_fits : U64.Fits l.due
  start_lt : l.start < l.lastAccrued

theorem Loan.Live.accruedUntil_eq {l : Loan} (h : l.Live) : l.accruedUntil = l.lastAccrued := by
  have := h.start_lt
  rw [Loan.accruedUntil, if_neg (by omega)]

theorem Loan.Live.amountDue_pos {l : Loan} (h : l.Live) : 0 < l.amountDue :=
  lt_of_lt_of_le h.principal_pos h.principal_le

/-- Accrual keeps the principal and leaves it covered by the balance. -/
theorem Loan.Live.accrued_bounds {e : Env} {l acc : Loan} {p : PremiumConfig} (h : l.Live)
    (hacc : accruedInMemory e l p = .ok acc) :
    acc.principal = l.principal ∧ acc.principal ≤ acc.amountDue := by
  obtain ⟨x, hx, rfl⟩ := accruedInMemory_spec h.amountDue_pos.le hacc
  have hle := h.principal_le
  exact ⟨rfl, by simp only; omega⟩

def Loan.tenorSecs (l : Loan) : Nat := l.tenorDays * secondsPerDay

/-- Divisor of the cumulative formula, `10000 * tenor seconds`. -/
def Loan.denominator (l : Loan) : Int := bpsDenom * l.tenorSecs

theorem Loan.Live.denominator_pos {l : Loan} (h : l.Live) : 0 < l.denominator := by
  have := h.tenor_pos
  unfold Loan.denominator Loan.tenorSecs bpsDenom secondsPerDay
  omega

theorem Loan.Live.denominator_fits {l : Loan} (h : l.Live) : I128.Fits l.denominator := by
  have hdue := h.due_eq
  have hfit := h.due_fits
  unfold U64.Fits at hfit
  refine I128.Fits.of_bounds h.denominator_pos.le ?_
  unfold Loan.denominator Loan.tenorSecs bpsDenom
  omega

/-- Seconds of the tenor elapsed at `ts`. -/
def Loan.elapsed (l : Loan) (ts : Nat) : Nat := min ts l.due - l.start

/-- The cumulative interest `floor(principal * fee * elapsed / (10000 * tenor seconds))`. -/
def Loan.cumulative (l : Loan) (ts : Nat) : Int :=
  l.principal * l.feeBps * l.elapsed ts / l.denominator

/-- The product under the division fits. -/
def Loan.ProductFits (l : Loan) (ts : Nat) : Prop :=
  I128.Fits (l.principal * l.feeBps * l.elapsed ts)

instance (l : Loan) (ts : Nat) : Decidable (l.ProductFits ts) :=
  inferInstanceAs (Decidable (I128.Fits _))

theorem Loan.elapsed_mono (l : Loan) {t u : Nat} (h : t ≤ u) : l.elapsed t ≤ l.elapsed u := by
  unfold Loan.elapsed
  omega

theorem Loan.Live.product_mono {l : Loan} (h : l.Live) {t u : Nat} (htu : t ≤ u) :
    l.principal * l.feeBps * l.elapsed t ≤ l.principal * l.feeBps * l.elapsed u := by
  have := h.principal_pos
  have := l.elapsed_mono htu
  gcongr

theorem Loan.Live.product_nonneg {l : Loan} (h : l.Live) (t : Nat) :
    0 ≤ l.principal * l.feeBps * l.elapsed t := by
  have := h.principal_pos
  positivity

theorem Loan.Live.cumulative_mono {l : Loan} (h : l.Live) {t u : Nat} (htu : t ≤ u) :
    l.cumulative t ≤ l.cumulative u :=
  Int.ediv_le_ediv h.denominator_pos (h.product_mono htu)

theorem Loan.Live.cumulative_nonneg {l : Loan} (h : l.Live) (t : Nat) : 0 ≤ l.cumulative t :=
  Int.ediv_nonneg (h.product_nonneg t) h.denominator_pos.le

theorem Loan.Live.productFits_mono {l : Loan} (h : l.Live) {t u : Nat} (htu : t ≤ u)
    (hu : l.ProductFits u) : l.ProductFits t :=
  I128.Fits.of_le (h.product_nonneg t) (h.product_mono htu) hu

theorem Loan.Live.elapsed_pos {l : Loan} (h : l.Live) {ts : Nat} (hts : l.start < ts) :
    1 ≤ l.elapsed ts := by
  have hdue := h.due_eq
  have htenor := h.tenor_pos
  unfold secondsPerDay at hdue
  unfold Loan.elapsed
  omega

/-- Once a second has elapsed, the first product of `cum` fits whenever the second does. -/
theorem Loan.Live.product_chain {l : Loan} (h : l.Live) {ts : Nat} (hts : l.start < ts) :
    (I128.mul l.principal l.feeBps).bind (fun x => I128.mul x (l.elapsed ts : Nat)) =
      if l.ProductFits ts then some (l.principal * l.feeBps * l.elapsed ts) else none := by
  have hp := h.principal_pos
  exact I128.mul_bind_mul (by positivity) (by exact_mod_cast h.elapsed_pos hts)

theorem Loan.Live.cumulative_fits {l : Loan} (h : l.Live) {ts : Nat} (hfit : l.ProductFits ts) :
    I128.Fits (l.cumulative ts) :=
  I128.Fits.of_le (h.cumulative_nonneg ts) (Int.ediv_le_self _ (h.product_nonneg ts)) hfit

/-- On a live record `cum` never traps: after the first second it is the closed
form, or `none` when the product does not fit. -/
theorem Loan.Live.cum_eq {l : Loan} (h : l.Live) {ts : Nat} (hts : l.start < ts) :
    cum l l.tenorSecs ts =
      .ok (if l.ProductFits ts then some (l.cumulative ts) else none) := by
  have hsub : U64.sub (min ts l.due) l.start = some (l.elapsed ts) := by
    have := h.due_eq
    exact U64.sub_eq_some.mpr ⟨by omega, rfl⟩
  have hden : I128.mul bpsDenom l.tenorSecs = some l.denominator :=
    I128.mul_eq_some.mpr ⟨rfl, h.denominator_fits⟩
  have hdiv : l.ProductFits ts →
      I128.div (l.principal * l.feeBps * l.elapsed ts) l.denominator = some (l.cumulative ts) := by
    intro hfit
    have htdiv := Int.tdiv_eq_ediv_of_nonneg (b := l.denominator) (h.product_nonneg ts)
    refine I128.div_eq_some.mpr ⟨h.denominator_pos.ne', htdiv, ?_⟩
    exact I128.Fits.tdiv (h.product_nonneg ts) h.denominator_pos hfit
  simp only [cum, ← min_def_lt, hsub, hden, unwrapOr_some, ok_bind, h.product_chain hts]
  by_cases hfit : l.ProductFits ts
  · simp only [if_pos hfit, hdiv hfit]
    rfl
  · simp only [if_neg hfit]
    rfl

/-- Interest the first phase charges between two times. -/
def Loan.interestBetween (l : Loan) (since now : Nat) : Int :=
  if since < min now l.due ∧ l.ProductFits now then l.cumulative now - l.cumulative since else 0

theorem Loan.elapsed_min_due (l : Loan) (ts : Nat) : l.elapsed (min ts l.due) = l.elapsed ts := by
  unfold Loan.elapsed
  omega

theorem Loan.productFits_min_due (l : Loan) (ts : Nat) :
    l.ProductFits (min ts l.due) = l.ProductFits ts := by
  unfold Loan.ProductFits
  rw [l.elapsed_min_due]

theorem Loan.cumulative_min_due (l : Loan) (ts : Nat) :
    l.cumulative (min ts l.due) = l.cumulative ts := by
  unfold Loan.cumulative
  rw [l.elapsed_min_due]

theorem Loan.interestBetween_eq {l : Loan} {since now : Nat} (hle : since ≤ now)
    (hfit : l.ProductFits now) :
    l.interestBetween since now = l.cumulative now - l.cumulative since := by
  rw [Loan.interestBetween]
  split
  · rfl
  · rename_i hpast
    have hsame : l.elapsed now = l.elapsed since := by
      have hdue : ¬ since < min now l.due := fun hc => hpast ⟨hc, hfit⟩
      unfold Loan.elapsed
      omega
    rw [Loan.cumulative, Loan.cumulative, hsame, sub_self]

theorem Loan.Live.interestBetween_nonneg {l : Loan} (h : l.Live) (since now : Nat) :
    0 ≤ l.interestBetween since now := by
  unfold Loan.interestBetween
  split
  · rename_i hc
    have := h.cumulative_mono (t := since) (u := now) (by omega)
    omega
  · exact le_refl 0

theorem Loan.Live.accrueInterest_add {l : Loan} (h : l.Live) {since now : Nat}
    (hsince : l.start < since) :
    accrueInterest now since l =
      if 0 < l.interestBetween since now then do
        let amountDue ← orTrap (I128.add l.amountDue (l.interestBetween since now))
        pure { l with amountDue := amountDue }
      else pure l := by
  have htenor : I128.mul l.tenorDays secondsPerDay = some (l.tenorSecs : Int) := by
    have hdue := h.due_eq
    have hfits := h.due_fits
    unfold U64.Fits at hfits
    refine I128.mul_eq_some.mpr ⟨by simp [Loan.tenorSecs], I128.Fits.of_bounds (by positivity) ?_⟩
    have hlt : l.tenorDays * secondsPerDay < 2 ^ 64 := by omega
    exact lt_trans (b := 2 ^ 64) (by exact_mod_cast hlt) (by norm_num)
  have hpos : (0 : Int) < l.tenorSecs := by
    have := h.tenor_pos
    unfold Loan.tenorSecs secondsPerDay
    omega
  simp only [accrueInterest, htenor, unwrapOr_some, ok_bind, ← min_def_lt]
  by_cases hto : since < min now l.due
  · have hnow : l.start < min now l.due := by omega
    rw [if_pos ⟨hto, hpos⟩, h.cum_eq hnow, h.cum_eq hsince]
    simp only [ok_bind, Loan.productFits_min_due, Loan.cumulative_min_due]
    by_cases hprod : l.ProductFits now
    · have hlow := h.productFits_mono (t := since) (by omega) hprod
      have hdelta : I128.sub (l.cumulative now) (l.cumulative since) =
          some (l.interestBetween since now) := by
        have hle := h.cumulative_mono (t := since) (u := now) (by omega)
        refine I128.sub_eq_some.mpr ⟨by simp [Loan.interestBetween, hto, hprod], ?_⟩
        have hnn := h.cumulative_nonneg since
        exact I128.Fits.of_le (by omega) (by omega) (h.cumulative_fits hprod)
      simp only [if_pos hprod, if_pos hlow, hdelta, unwrapOr_some, ok_bind, gt_iff_lt]
    · simp [hprod, Loan.interestBetween]
  · rw [if_neg (fun hc => hto hc.1)]
    simp [hto, Loan.interestBetween]

/-- The first phase never traps on a live record whose new balance fits. -/
theorem Loan.Live.accrueInterest_eq {l : Loan} (h : l.Live) {since now : Nat}
    (hsince : l.start < since) (hfit : I128.Fits (l.amountDue + l.interestBetween since now)) :
    accrueInterest now since l =
      .ok { l with amountDue := l.amountDue + l.interestBetween since now } := by
  have hnn := h.interestBetween_nonneg since now
  rw [h.accrueInterest_add hsince]
  by_cases hd : 0 < l.interestBetween since now
  · rw [if_pos hd, I128.add_eq_some.mpr ⟨rfl, hfit⟩]
    rfl
  · have hzero : l.interestBetween since now = 0 := by omega
    rw [if_neg hd, hzero, add_zero]
    rfl

theorem Loan.Live.accrueInterest_ok {l l' : Loan} (h : l.Live) {since now : Nat}
    (hsince : l.start < since) (hok : accrueInterest now since l = .ok l') :
    l' = { l with amountDue := l.amountDue + l.interestBetween since now } := by
  have hnn := h.interestBetween_nonneg since now
  rw [h.accrueInterest_add hsince] at hok
  simp only [ite_eq_ok, bind_eq_ok, unwrapOr_eq_ok, I128.add_eq_some, pure_eq_ok] at hok
  obtain ⟨_, _, ⟨rfl, _⟩, rfl⟩ | ⟨hd, rfl⟩ := hok
  · rfl
  · have hzero : l.interestBetween since now = 0 := by omega
    rw [hzero, add_zero]

/-! ## Closed form of the late fee -/

/-- Product of the late rate, the late seconds and the balance. -/
def Loan.lateProduct (l : Loan) (p : PremiumConfig) (since now : Nat) : Int :=
  p.lateRatePerSecWad * (now - max since (l.due + l.gracePeriod) : Nat) * l.amountDue

/-- The fee the second phase charges: nothing before the end of grace, nothing
when the product does not fit. -/
def Loan.lateFee (l : Loan) (p : PremiumConfig) (since now : Nat) : Int :=
  if p.lateRatePerSecWad > 0 ∧ now > max since (l.due + l.gracePeriod) ∧
      I128.Fits (l.lateProduct p since now) then
    (l.lateProduct p since now).tdiv wad
  else 0

theorem Loan.lateFee_of_le {l : Loan} {p : PremiumConfig} {since now : Nat}
    (h : now ≤ l.due + l.gracePeriod) : l.lateFee p since now = 0 := by
  rw [Loan.lateFee, if_neg]
  intro h
  obtain ⟨_, hlate, _⟩ := h
  omega

/-- The second phase charges a fee: it is past grace, and the fee product fits. -/
def Loan.Charges (l : Loan) (p : PremiumConfig) (since now : Nat) : Prop :=
  p.lateRatePerSecWad > 0 ∧ now > max since (l.due + l.gracePeriod) ∧
    I128.Fits (l.lateProduct p since now)

instance (l : Loan) (p : PremiumConfig) (since now : Nat) : Decidable (l.Charges p since now) :=
  inferInstanceAs (Decidable (_ ∧ _ ∧ _))

theorem Loan.lateFee_of_charges {l : Loan} {p : PremiumConfig} {since now : Nat}
    (h : l.Charges p since now) : l.lateFee p since now = (l.lateProduct p since now).tdiv wad :=
  if_pos h

theorem Loan.lateFee_of_not_charges {l : Loan} {p : PremiumConfig} {since now : Nat}
    (h : ¬ l.Charges p since now) : l.lateFee p since now = 0 := if_neg h

theorem accrueLateFee_add {l : Loan} {p : PremiumConfig} {since now : Nat} (hdue : 0 < l.amountDue)
    (hgrace : p.lateRatePerSecWad > 0 → U64.Fits (l.due + l.gracePeriod)) :
    accrueLateFee now since l p =
      if l.Charges p since now then do
        let amountDue ← orTrap (I128.add l.amountDue (l.lateFee p since now))
        pure { l with amountDue := amountDue }
      else pure l := by
  unfold accrueLateFee
  by_cases hrate : p.lateRatePerSecWad > 0
  · have hmax : (if since > l.due + l.gracePeriod then since else l.due + l.gracePeriod) =
        max since (l.due + l.gracePeriod) := by
      rw [max_def]
      split <;> split <;> omega
    rw [if_pos hrate, U64.add_eq_some.mpr ⟨rfl, hgrace hrate⟩]
    simp only [unwrapOr_some, ok_bind, hmax]
    by_cases hlate : now > max since (l.due + l.gracePeriod)
    · have hchain := I128.mul_bind_mul (x := p.lateRatePerSecWad)
        (y := (now - max since (l.due + l.gracePeriod) : Nat)) (by positivity) hdue
      rw [if_pos hlate, U64.sub_eq_some.mpr ⟨hlate.le, rfl⟩]
      simp only [unwrapOr_some, ok_bind, hchain]
      by_cases hprod : I128.Fits (l.lateProduct p since now)
      · have hcharges : l.Charges p since now := ⟨hrate, hlate, hprod⟩
        rw [if_pos hcharges, Loan.lateFee_of_charges hcharges]
        simp only [Loan.lateProduct] at hprod ⊢
        simp only [if_pos hprod]
      · rw [if_neg fun hc : l.Charges p since now => hprod hc.2.2]
        simp only [Loan.lateProduct] at hprod
        simp only [if_neg hprod]
    · rw [if_neg hlate, if_neg fun hc : l.Charges p since now => hlate hc.2.1]
  · rw [if_neg hrate, if_neg fun hc : l.Charges p since now => hrate hc.1]

/-- The second phase on a positive balance: its closed form when the end of grace
is representable and the new balance fits. -/
theorem accrueLateFee_eq {l : Loan} {p : PremiumConfig} {since now : Nat} (hdue : 0 < l.amountDue)
    (hgrace : p.lateRatePerSecWad > 0 → U64.Fits (l.due + l.gracePeriod))
    (hfit : I128.Fits (l.amountDue + l.lateFee p since now)) :
    accrueLateFee now since l p =
      .ok { l with amountDue := l.amountDue + l.lateFee p since now } := by
  rw [accrueLateFee_add hdue hgrace]
  split
  · rw [I128.add_eq_some.mpr ⟨rfl, hfit⟩]
    rfl
  · rename_i hnone
    rw [Loan.lateFee_of_not_charges hnone, add_zero]
    rfl

/-- With a late rate set, an unrepresentable end of grace traps the second phase. -/
theorem accrueLateFee_trap {l : Loan} {p : PremiumConfig} {since now : Nat}
    (hrate : p.lateRatePerSecWad > 0) (hgrace : ¬ U64.Fits (l.due + l.gracePeriod)) :
    accrueLateFee now since l p = .error .trap := by
  have hnone : U64.add l.due l.gracePeriod = none := if_neg hgrace
  rw [accrueLateFee, if_pos hrate, hnone]
  rfl

theorem accrueLateFee_ok {l l' : Loan} {p : PremiumConfig} {since now : Nat}
    (hdue : 0 < l.amountDue)
    (h : accrueLateFee now since l p = .ok l') :
    l' = { l with amountDue := l.amountDue + l.lateFee p since now } := by
  have hgrace : p.lateRatePerSecWad > 0 → U64.Fits (l.due + l.gracePeriod) := by
    intro hrate
    by_contra hgrace
    rw [accrueLateFee_trap hrate hgrace] at h
    cases h
  rw [accrueLateFee_add hdue hgrace] at h
  simp only [ite_eq_ok, bind_eq_ok, unwrapOr_eq_ok, I128.add_eq_some, pure_eq_ok] at h
  obtain ⟨_, _, ⟨rfl, _⟩, rfl⟩ | ⟨hnone, rfl⟩ := h
  · rfl
  · rw [Loan.lateFee_of_not_charges hnone, add_zero]

theorem accrueLateFee_ok_of_le {l l' : Loan} {p : PremiumConfig} {since now : Nat}
    (hdue : 0 < l.amountDue) (hgrace : now ≤ l.due + l.gracePeriod)
    (h : accrueLateFee now since l p = .ok l') : l' = l := by
  rw [accrueLateFee_ok hdue h, Loan.lateFee_of_le hgrace, add_zero]

/-- The record after the first phase up to `now`. -/
def Loan.charged (l : Loan) (now : Nat) : Loan :=
  { l with amountDue := l.amountDue + l.interestBetween l.lastAccrued now }

theorem Loan.Live.accruedInMemory_eq {e : Env} {l : Loan} {p : PremiumConfig} (h : l.Live)
    (hactive : l.active = true) (hlt : l.lastAccrued < e.timestamp)
    (hfit : I128.Fits (l.charged e.timestamp).amountDue) :
    accruedInMemory e l p =
      accrueLateFee e.timestamp l.lastAccrued (l.charged e.timestamp) p := by
  rw [accruedInMemory, if_neg (by simp [hactive]), h.accruedUntil_eq, if_neg (by omega),
    h.accrueInterest_eq h.start_lt hfit]
  rfl

end Lendoor.LoanManager
