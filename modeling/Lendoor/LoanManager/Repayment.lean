import Lendoor.LoanManager.Invariant

/-! # When repayment goes through

The full payment of an active loan succeeds exactly when accrual does. On the
balances and timestamps a deployment can see, every product and sum of the
accrual is either checked or bounded, except the end of the grace period: with a
late rate set it is a plain 64-bit addition of a value no setter bounds.
-/

namespace Lendoor.LoanManager

/-! ## Bounds on what accrual adds -/

/-- Interest is at most `2^98`: its numerator fits 128 bits and its divisor is at
least `10000 * 86400`. -/
theorem Loan.Live.interestBetween_lt {l : Loan} (h : l.Live) (since now : Nat) :
    l.interestBetween since now < 2 ^ 98 := by
  unfold Loan.interestBetween
  split
  · rename_i hc
    have hlow := h.cumulative_nonneg since
    have hden : 2 ^ 29 ≤ l.denominator := by
      have := h.tenor_pos
      unfold Loan.denominator Loan.tenorSecs bpsDenom secondsPerDay
      omega
    have hprod : l.principal * l.feeBps * l.elapsed now < 2 ^ 98 * l.denominator := by
      have := hc.2.2
      omega
    have : l.cumulative now < 2 ^ 98 := Int.ediv_lt_of_lt_mul h.denominator_pos hprod
    omega
  · norm_num

theorem Loan.lateFee_bounds {l : Loan} (hdue : 0 < l.amountDue) (p : PremiumConfig)
    (since now : Nat) : 0 ≤ l.lateFee p since now ∧ l.lateFee p since now < 2 ^ 68 := by
  unfold Loan.lateFee
  split
  · rename_i hc
    rcases hc with ⟨hrate, _, hfits⟩
    have hnn : 0 ≤ l.lateProduct p since now := by
      unfold Loan.lateProduct
      positivity
    rw [Int.tdiv_eq_ediv_of_nonneg hnn]
    refine ⟨Int.ediv_nonneg hnn (by decide), Int.ediv_lt_of_lt_mul (by decide) ?_⟩
    have := hfits.2
    unfold wad
    omega
  · exact ⟨le_refl 0, by norm_num⟩

/-! ## Accrual of a bounded loan -/

/-- The end of grace is representable whenever the second phase computes it. -/
def GraceEndFits (e : Env) (s : State) (b : Address) : Prop :=
  (s.readPremium b).lateRatePerSecWad > 0 → (s.readLoan b).lastAccrued < e.timestamp →
    U64.Fits ((s.readLoan b).due + (s.readLoan b).gracePeriod)

instance (e : Env) (s : State) (b : Address) : Decidable (GraceEndFits e s b) :=
  inferInstanceAs (Decidable (_ → _ → _))

theorem Loan.Live.charged_bounds {l : Loan} (h : l.Live) (hbound : l.amountDue < 2 ^ 100)
    (now : Nat) : 0 < (l.charged now).amountDue ∧ (l.charged now).amountDue < 2 ^ 100 + 2 ^ 98 := by
  have hpos := h.amountDue_pos
  have hinn := h.interestBetween_nonneg l.lastAccrued now
  have hilt := h.interestBetween_lt l.lastAccrued now
  simp only [Loan.charged]
  omega

/-- Accrual of a live, bounded balance returns when the end of grace fits where
it is needed, and the new balance stays below `2^101`. -/
theorem Loan.Live.accruedInMemory_ok {e : Env} {l : Loan} {p : PremiumConfig} (h : l.Live)
    (hactive : l.active = true) (hbound : l.amountDue < 2 ^ 100)
    (hgrace : p.lateRatePerSecWad > 0 → l.lastAccrued < e.timestamp →
      U64.Fits (l.due + l.gracePeriod)) :
    ∃ acc, accruedInMemory e l p = .ok acc ∧ acc.amountDue < 2 ^ 101 := by
  by_cases hlt : l.lastAccrued < e.timestamp
  · rcases h.charged_bounds hbound e.timestamp with ⟨hcpos, hclt⟩
    rcases Loan.lateFee_bounds hcpos p l.lastAccrued e.timestamp with ⟨hfnn, hflt⟩
    rw [h.accruedInMemory_eq hactive hlt (I128.Fits.of_bounds (by omega) (by omega))]
    exact ⟨_, accrueLateFee_eq hcpos (fun hrate => hgrace hrate hlt)
      (I128.Fits.of_bounds (by omega) (by omega)), by simp only; omega⟩
  · exact ⟨l, accruedInMemory_of_le (by rw [h.accruedUntil_eq]; omega), by omega⟩

theorem Loan.Live.accruedInMemory_trap {e : Env} {l : Loan} {p : PremiumConfig} (h : l.Live)
    (hactive : l.active = true) (hbound : l.amountDue < 2 ^ 100)
    (hrate : p.lateRatePerSecWad > 0) (hlt : l.lastAccrued < e.timestamp)
    (hgrace : ¬ U64.Fits (l.due + l.gracePeriod)) : accruedInMemory e l p = .error .trap := by
  rcases h.charged_bounds hbound e.timestamp with ⟨hcpos, hclt⟩
  rw [h.accruedInMemory_eq hactive hlt (I128.Fits.of_bounds (by omega) (by omega))]
  exact accrueLateFee_trap hrate hgrace

/-! ## The full payment -/

theorem applyPayment_close {e : Env} {s : State} {b : Address} {paid : Int} {acc : Loan}
    (hauth : e.auth s.config.vault = true) (hpos : 0 < paid)
    (hactive : (s.readLoan b).active = true)
    (hacc : accruedInMemory e (s.readLoan b) (s.readPremium b) = .ok acc)
    (hcovers : acc.amountDue ≤ paid) (hfit : I128.Fits (paid - acc.principal))
    (hhold : U64.Fits (acc.start + s.minHoldSecs acc.tenorDays)) :
    applyPayment e s b paid = .ok ⟨closedState e s b acc, [.loanclos b paid],
      (acc.principal, paid - acc.principal, 0)⟩ := by
  simp only [applyPayment, bind_eq_ok, ite_eq_ok, panicIf_eq_ok, Env.requireAuth_eq_ok,
    unwrapOr_eq_ok, I128.sub_eq_some, finishClose_eq_ok, pure_eq_ok, Loan.advance_eq]
  exact ⟨(), hauth, (), by omega, (), by simp [hactive], acc, hacc,
    .inl ⟨hcovers, _, ⟨rfl, hfit⟩, _, ⟨hhold, rfl⟩, rfl⟩⟩

/-- Accrual of `b`'s loan does not trap, and `preview_owed`, `accrue_late` and the
payment of the previewed balance succeed, the last one closing the loan. -/
def RepaymentOpen (e : Env) (s : State) (b : Address) : Prop :=
  (∃ acc, accruedInMemory e (s.readLoan b) (s.readPremium b) = .ok acc) ∧
    (∃ o, accrueLate e s b = .ok o) ∧
    ∃ owed, previewOwed e s b = .ok owed ∧
      ∃ o, applyPayment e s b owed = .ok o ∧ o.state.readLoan b = Loan.zeroed

/-- In every reachable state, for every active loan of bounded balance and every
timestamp below `2^62`, repayment by the vault is open exactly when the end of
the grace period is representable where accrual computes it. -/
theorem repaymentOpen_iff_graceEndFits {c : Clocked State} {e : Env} {b : Address}
    (hreach : Reachable c) (hclock : c.now ≤ e.timestamp) (htime : e.timestamp < 2 ^ 62)
    (hauth : e.auth c.state.config.vault = true) (hactive : (c.state.readLoan b).active = true)
    (hdue : (c.state.readLoan b).amountDue < 2 ^ 100) :
    RepaymentOpen e c.state b ↔ GraceEndFits e c.state b := by
  have hsound := hreach.sound
  have hwf := hsound.loans b
  have hlive := hwf.live hactive
  constructor
  · rintro ⟨⟨acc, hacc⟩, _⟩ hrate hlt
    by_contra hgrace
    rw [hlive.accruedInMemory_trap hactive hdue hrate hlt hgrace] at hacc
    cases hacc
  · intro hgrace
    rcases hlive.accruedInMemory_ok hactive hdue hgrace with ⟨acc, hacc, hlt⟩
    rcases accruedInMemory_spec hwf.amountDue_nonneg hacc with ⟨x, hx, hacc_eq⟩
    have hp : acc.principal = (c.state.readLoan b).principal := by rw [hacc_eq]
    have hd : acc.amountDue = (c.state.readLoan b).amountDue + x := by rw [hacc_eq]
    have hstart : acc.start ≤ c.now := by
      rw [hacc_eq]
      exact hwf.start_le hactive
    have hppos := hlive.principal_pos
    have hple := hlive.principal_le
    have hhold := hsound.configured.minHold acc.tenorDays
    have hpay := applyPayment_close hauth (show 0 < acc.amountDue by omega) hactive hacc le_rfl
      (I128.Fits.of_bounds (by omega) (by omega))
      (by unfold U64.Fits secondsPerDay at *; omega)
    refine ⟨⟨acc, hacc⟩, ⟨⟨c.state.writeLoan b (acc.advance e.timestamp), [], ()⟩, ?_⟩,
      acc.amountDue, ?_, _, hpay, by simp [closedState]⟩
    · rw [accrueLate, if_neg (by simp [hactive]), hacc]
      rfl
    · rw [previewOwed, hacc]
      rfl

/-! ## A configuration that locks repayment -/

/-- Owner `1`, vault `2`, borrower `3`: the owner sets a grace period, scores the
borrower, offers a seven-day loan and configures the smallest late rate. -/
def lateRateSetup (grace : Word64) : List Call :=
  [(.signedBy ⟨1⟩ 1000, .setDefaultGracePeriod grace),
    (.signedBy ⟨1⟩ 1000, .setUserRisk ⟨3⟩ 600 true 0 10000000),
    (.signedBy ⟨1⟩ 1000, .setLoanOffer ⟨3⟩ 7 500 2000 10000000),
    (.signedBy ⟨1⟩ 1000, .setPremiumConfig ⟨3⟩ 0 1)]

def lateRateOffered (grace : Word64) : State :=
  ((Clocked.run? Call.time Call.exec ⟨1000, construct ⟨1⟩ ⟨2⟩⟩ (lateRateSetup grace)).getD
    ⟨1000, construct ⟨1⟩ ⟨2⟩⟩).state

/-- The same calls and the opening of a loan of ten units. -/
def lateRateCalls (grace : Word64) : List Call :=
  lateRateSetup grace ++ [(.signedBy ⟨2⟩ 1000, .openLoan ⟨3⟩ 10000000 7 500)]

def lateRateState (grace : Word64) : Clocked State :=
  (Clocked.run? Call.time Call.exec ⟨1000, construct ⟨1⟩ ⟨2⟩⟩ (lateRateCalls grace)).getD
    ⟨1000, construct ⟨1⟩ ⟨2⟩⟩

theorem lateRateState_reachable (grace : Word64) : Reachable (lateRateState grace) :=
  reachable_of_run? ⟨1⟩ ⟨2⟩ 1000 (lateRateCalls grace) rfl

/-- With a one-day grace period the condition holds a second into the second day. -/
theorem repaymentOpen_iff_graceEndFits_one_day :
    GraceEndFits (.signedBy ⟨2⟩ 87401) (lateRateState 86400).state ⟨3⟩ ∧
      RepaymentOpen (.signedBy ⟨2⟩ 87401) (lateRateState 86400).state ⟨3⟩ := by
  have hgrace : GraceEndFits (.signedBy ⟨2⟩ 87401) (lateRateState 86400).state ⟨3⟩ :=
    fun _ _ => by decide
  exact ⟨hgrace, (repaymentOpen_iff_graceEndFits (lateRateState_reachable 86400) (by decide)
    (by decide) (by decide) (by decide) (by decide)).mpr hgrace⟩

/-- With the largest grace period the setter accepts, the same loan cannot be
repaid from the second day on. -/
theorem repayment_locked_by_grace_period :
    ∃ (c : Clocked State) (e : Env) (b : Address), Reachable c ∧ c.now ≤ e.timestamp ∧
      e.timestamp < 2 ^ 62 ∧ e.auth c.state.config.vault = true ∧
      (c.state.readLoan b).active = true ∧ (c.state.readLoan b).principal < 2 ^ 100 ∧
      (c.state.readLoan b).amountDue < 2 ^ 100 ∧ ¬ RepaymentOpen e c.state b := by
  refine ⟨lateRateState (Fin.last _), .signedBy ⟨2⟩ 87401, ⟨3⟩, lateRateState_reachable _, ?_⟩
  refine ⟨by decide, by decide, by decide, by decide, by decide, by decide, ?_⟩
  intro h
  rcases h with ⟨⟨acc, hacc⟩, _⟩
  have hlive := ((lateRateState_reachable (Fin.last _)).sound.loans ⟨3⟩).live (by decide)
  rw [hlive.accruedInMemory_trap (by decide) (by decide) (by decide) (by decide) (by decide)]
    at hacc
  cases hacc

end Lendoor.LoanManager
