import Lendoor.LoanManager.Repayment

/-! # Splitting a payment

At one ledger time a payment in two parts is the payment of their sum: the first part
accrues and moves the anchor, so the second finds nothing to charge, and what it splits
into interest and principal is what the first left of both.
-/

namespace Lendoor.LoanManager

variable {e : Env} {s : State} {b : Address} {paid : Int} {acc : Loan}

theorem finishClose_eq (e : Env) (s : State) (b : Address) (l : Loan) (paid : Int) :
    finishClose e s b l paid =
      if U64.Fits (l.start + s.minHoldSecs l.tenorDays) then
        .ok ⟨closedState e s b l, [.loanclos b paid], ()⟩
      else .error .trap := by
  split
  · rename_i hfits
    exact finishClose_eq_ok.mpr ⟨hfits, rfl⟩
  · rename_i hfits
    have hnone : U64.add l.start (s.minHoldSecs l.tenorDays) = none := if_neg hfits
    rw [finishClose, hnone]
    rfl

theorem applyPayment_of_accrued (hauth : e.auth s.config.vault = true) (hpos : 0 < paid)
    (hactive : (s.readLoan b).active = true)
    (hacc : accruedInMemory e (s.readLoan b) (s.readPremium b) = .ok acc) :
    applyPayment e s b paid =
      if paid ≥ acc.amountDue then do
        let interestPaid ← orTrap (I128.sub paid acc.principal)
        let closed ← finishClose e s b (acc.advance e.timestamp) paid
        pure ⟨closed.state, closed.events, (acc.principal, interestPaid, 0)⟩
      else (do
        panicIf (acc.defaulted = true) (.loanManager .underpaid)
        let interestOut ← orTrap (I128.sub acc.amountDue acc.principal)
        let interestPaid := if paid < interestOut then paid else interestOut
        let principalPaid ← orTrap (I128.sub paid interestPaid)
        let amountDue ← orTrap (I128.sub acc.amountDue paid)
        let principal ← orTrap (I128.sub acc.principal principalPaid)
        pure ⟨s.writeLoan b
            { acc.advance e.timestamp with amountDue := amountDue, principal := principal },
          [.partpay b principalPaid interestPaid amountDue],
            (principalPaid, interestPaid, amountDue)⟩) := by
  have hnow : ¬ paid ≤ 0 := by omega
  have hadvance : (acc.advance e.timestamp).defaulted = acc.defaulted := by rw [Loan.advance_eq]
  simp only [applyPayment, Env.requireAuth, panicIf, hauth, hactive, hacc, if_neg hnow, ok_bind,
    Loan.advance_amountDue, Loan.advance_principal, hadvance, Bool.true_eq_false, if_false]

theorem applyPayment_covers (hauth : e.auth s.config.vault = true) (hpos : 0 < paid)
    (hactive : (s.readLoan b).active = true)
    (hacc : accruedInMemory e (s.readLoan b) (s.readPremium b) = .ok acc)
    (hcovers : acc.amountDue ≤ paid) (hfit : I128.Fits (paid - acc.principal)) :
    applyPayment e s b paid =
      if U64.Fits (acc.start + s.minHoldSecs acc.tenorDays) then
        .ok ⟨closedState e s b acc, [.loanclos b paid], (acc.principal, paid - acc.principal, 0)⟩
      else .error .trap := by
  rw [applyPayment_of_accrued hauth hpos hactive hacc, if_pos hcovers,
    I128.sub_eq_some.mpr ⟨rfl, hfit⟩, finishClose_eq, Loan.advance_eq]
  split <;> rfl

/-- What a payment short of the balance leaves, interest first. -/
def Loan.reduced (l : Loan) (paid : Int) : Loan :=
  { l with
    amountDue := l.amountDue - paid
    principal := l.principal - (paid - min paid (l.amountDue - l.principal)) }

theorem applyPayment_short (hauth : e.auth s.config.vault = true) (hpos : 0 < paid)
    (hactive : (s.readLoan b).active = true)
    (hacc : accruedInMemory e (s.readLoan b) (s.readPremium b) = .ok acc)
    (hshort : paid < acc.amountDue) (hhealthy : acc.defaulted = false)
    (hprincipal : 0 < acc.principal ∧ acc.principal ≤ acc.amountDue)
    (hfits : I128.Fits acc.amountDue) :
    ∃ events, applyPayment e s b paid =
      .ok ⟨s.writeLoan b ((acc.advance e.timestamp).reduced paid), events,
        (paid - min paid (acc.amountDue - acc.principal), min paid (acc.amountDue - acc.principal),
          acc.amountDue - paid)⟩ := by
  have hfit : ∀ x : Int, 0 ≤ x → x ≤ acc.amountDue → I128.Fits x :=
    fun x h0 hle => I128.Fits.of_le h0 hle hfits
  rw [applyPayment_of_accrued hauth hpos hactive hacc, if_neg (by omega), hhealthy]
  simp only [panicIf, Bool.false_eq_true, if_false, ok_bind, ← min_def_lt,
    I128.sub_eq_some.mpr ⟨rfl, hfit (acc.amountDue - acc.principal) (by omega) (by omega)⟩,
    I128.sub_eq_some.mpr ⟨rfl,
      hfit (paid - min paid (acc.amountDue - acc.principal)) (by omega) (by omega)⟩,
    I128.sub_eq_some.mpr ⟨rfl, hfit (acc.amountDue - paid) (by omega) (by omega)⟩,
    I128.sub_eq_some.mpr ⟨rfl,
      hfit (acc.principal - (paid - min paid (acc.amountDue - acc.principal)))
      (by omega) (by omega)⟩, unwrapOr_some]
  simp only [Loan.reduced, Loan.advance_amountDue, Loan.advance_principal]
  exact ⟨_, rfl⟩

/-! ## The second part -/

/-- What the first part leaves is due at the same instant, with nothing more to accrue. -/
theorem accrued_reduced (acc : Loan) (p : PremiumConfig) (paid : Int) :
    accruedInMemory e ((acc.advance e.timestamp).reduced paid) p =
      .ok ((acc.advance e.timestamp).reduced paid) :=
  accruedInMemory_of_le (le_accruedUntil_advance acc e.timestamp)

theorem advance_reduced (acc : Loan) (paid : Int) (now : Nat) :
    ((acc.advance now).reduced paid).advance now = (acc.advance now).reduced paid := by
  rw [Loan.advance_eq ((acc.advance now).reduced paid), Loan.advance_eq acc]
  simp only [Loan.reduced, max_eq_left (le_max_right acc.lastAccrued now)]

/-- Interest first, twice, is interest first. -/
theorem reduced_reduced {l : Loan} {paid more : Int} (hmore : 0 < more) :
    (l.reduced paid).reduced more = l.reduced (paid + more) := by
  simp only [Loan.reduced, Loan.mk.injEq, and_true]
  omega

theorem closedState_reduced (e : Env) (s : State) (b : Address) (acc : Loan) (paid : Int) :
    closedState e (s.writeLoan b ((acc.advance e.timestamp).reduced paid)) b
      ((acc.advance e.timestamp).reduced paid) = closedState e s b acc := by
  rw [Loan.advance_eq]
  simp only [closedState, State.writeLoan, State.writeNextBorrow, Store.set_set]
  rfl

/-- Two payments in one ledger: where they leave the contract, the principal and the
interest that they paid together, and the remaining balance. -/
def applyTwice (e : Env) (s : State) (b : Address) (paid more : Int) :
    Except Fault (State × Int × Int × Int) := do
  let first ← applyPayment e s b paid
  let second ← applyPayment e first.state b more
  pure (second.state, first.value.1 + second.value.1,
    first.value.2.1 + second.value.2.1, second.value.2.2)

/-- The record that the first part leaves. -/
def afterPart (e : Env) (acc : Loan) (paid : Int) : Loan := (acc.advance e.timestamp).reduced paid

theorem afterPart_eq (e : Env) (acc : Loan) (paid : Int) :
    afterPart e acc paid = { acc with
      lastAccrued := max acc.lastAccrued e.timestamp
      amountDue := acc.amountDue - paid
      principal := acc.principal - (paid - min paid (acc.amountDue - acc.principal)) } := by
  rw [afterPart, Loan.advance_eq]
  rfl

/-- An accrued record as a healthy loan has it. -/
structure Payable (acc : Loan) : Prop where
  active : acc.active = true
  healthy : acc.defaulted = false
  principal : 0 < acc.principal ∧ acc.principal ≤ acc.amountDue
  fits : I128.Fits acc.amountDue

/-- The first part leaves a payable record, accrued up to the instant of the second. -/
theorem Payable.afterPart (h : Payable acc) (hpaid : 0 < paid)
    (hshort : paid < acc.amountDue) (s : State) :
    let s' := s.writeLoan b (afterPart e acc paid)
    Payable (afterPart e acc paid) ∧ (s'.readLoan b).active = true ∧
      accruedInMemory e (s'.readLoan b) (s'.readPremium b) =
      .ok (LoanManager.afterPart e acc paid) := by
  intro s'
  have hread : s'.readLoan b = LoanManager.afterPart e acc paid :=
    State.readLoan_writeLoan_self _ _ _
  have hpos := h.principal.1
  have hle := h.principal.2
  have hpayable : Payable (LoanManager.afterPart e acc paid) := by
    rw [afterPart_eq]
    exact ⟨h.active, h.healthy, by simp only; omega, I128.Fits.of_le (by simp only; omega)
      (by simp only; omega) h.fits⟩
  rw [hread]
  exact ⟨hpayable, hpayable.active, accrued_reduced acc _ paid⟩

theorem applyTwice_covers {more : Int} (hauth : e.auth s.config.vault = true)
    (hactive : (s.readLoan b).active = true)
    (hacc : accruedInMemory e (s.readLoan b) (s.readPremium b) = .ok acc) (h : Payable acc)
    (hpaid : 0 < paid) (hmore : 0 < more) (hshort : paid < acc.amountDue)
    (hcovers : acc.amountDue ≤ paid + more) (hsum : I128.Fits (paid + more)) :
    applyTwice e s b paid more = (applyPayment e s b (paid + more)).map fun o =>
      (o.state, o.value) := by
  have hpos := h.principal.1
  have hle := h.principal.2
  rcases applyPayment_short hauth hpaid hactive hacc hshort h.healthy h.principal h.fits
    with ⟨events, hfirst⟩
  rcases h.afterPart (e := e) (b := b) hpaid hshort s with ⟨hleft, hactive', hacc'⟩
  have hdueLeft : (afterPart e acc paid).amountDue = acc.amountDue - paid := by rw [afterPart_eq]
  have hprincipalLeft : (afterPart e acc paid).principal =
      acc.principal - (paid - min paid (acc.amountDue - acc.principal)) := by rw [afterPart_eq]
  have hhold : (afterPart e acc paid).start +
      (s.writeLoan b (afterPart e acc paid)).minHoldSecs (afterPart e acc paid).tenorDays =
        acc.start + s.minHoldSecs acc.tenorDays := by
    rw [afterPart_eq]
    rfl
  have hclosed : closedState e (s.writeLoan b (afterPart e acc paid)) b (afterPart e acc paid) =
      closedState e s b acc := closedState_reduced e s b acc paid
  have hsecond :=
    applyPayment_covers (s := s.writeLoan b (afterPart e acc paid)) hauth hmore
      hactive' hacc' (by omega)
    (I128.Fits.of_le (by omega) (by omega) hsum)
  have hwhole := applyPayment_covers hauth (show 0 < paid + more by omega) hactive hacc hcovers
    (I128.Fits.of_le (by omega) (by omega) hsum)
  rw [hhold, hclosed] at hsecond
  rw [applyTwice, hfirst, ok_bind, hwhole]
  change (do let second ← applyPayment e (s.writeLoan b (afterPart e acc paid)) b more; _) = _
  rw [hsecond]
  split
  · refine congrArg Except.ok (Prod.ext rfl (Prod.ext ?_ (Prod.ext ?_ rfl)))
    · change paid - min paid (acc.amountDue - acc.principal) + (afterPart e acc paid).principal =
        acc.principal
      omega
    · change min paid (acc.amountDue - acc.principal) + (more - (afterPart e acc paid).principal) =
        paid + more - acc.principal
      omega
  · rfl

theorem applyTwice_short {more : Int} (hauth : e.auth s.config.vault = true)
    (hactive : (s.readLoan b).active = true)
    (hacc : accruedInMemory e (s.readLoan b) (s.readPremium b) = .ok acc) (h : Payable acc)
    (hpaid : 0 < paid) (hmore : 0 < more) (hshort : paid + more < acc.amountDue) :
    applyTwice e s b paid more = (applyPayment e s b (paid + more)).map fun o =>
      (o.state, o.value) := by
  have hshort' : paid < acc.amountDue := by omega
  rcases applyPayment_short hauth hpaid hactive hacc hshort' h.healthy h.principal h.fits
    with ⟨_, hfirst⟩
  rcases applyPayment_short hauth (show 0 < paid + more by omega) hactive hacc hshort
    h.healthy h.principal
    h.fits with ⟨_, hwhole⟩
  rcases h.afterPart (e := e) (b := b) hpaid hshort' s with ⟨hleft, hactive', hacc'⟩
  have hdueLeft : (afterPart e acc paid).amountDue = acc.amountDue - paid := by rw [afterPart_eq]
  have hprincipalLeft : (afterPart e acc paid).principal =
      acc.principal - (paid - min paid (acc.amountDue - acc.principal)) := by rw [afterPart_eq]
  rcases applyPayment_short (s := s.writeLoan b (afterPart e acc paid)) hauth hmore hactive' hacc'
    (by omega) hleft.healthy hleft.principal hleft.fits
    with ⟨_, hsecond⟩
  have hrecord : ((afterPart e acc paid).advance e.timestamp).reduced more =
      (acc.advance e.timestamp).reduced (paid + more) := by
    rw [afterPart, advance_reduced, reduced_reduced hmore]
  rw [hrecord, State.writeLoan_writeLoan] at hsecond
  rw [applyTwice, hfirst, ok_bind, hwhole]
  change (do let second ← applyPayment e (s.writeLoan b (afterPart e acc paid)) b more; _) = _
  rw [hsecond]
  refine congrArg Except.ok (Prod.ext rfl (Prod.ext ?_ (Prod.ext ?_ ?_)))
  · change paid - min paid (acc.amountDue - acc.principal) +
      (more - min more ((afterPart e acc paid).amountDue - (afterPart e acc paid).principal)) =
        paid + more - min (paid + more) (acc.amountDue - acc.principal)
    omega
  · change min paid (acc.amountDue - acc.principal) +
      min more ((afterPart e acc paid).amountDue - (afterPart e acc paid).principal) =
        min (paid + more) (acc.amountDue - acc.principal)
    omega
  · change (afterPart e acc paid).amountDue - more = acc.amountDue - (paid + more)
    omega

/-- Splitting a payment at one instant changes nothing: the two parts leave the state that
the whole leaves and pay the same, or fail with the whole. -/
theorem applyPayment_split {c : Clocked State} {e : Env} {b : Address} {paid more owed : Int}
    (hreach : Reachable c) (hactive : (c.state.readLoan b).active = true)
    (hhealthy : (c.state.readLoan b).defaulted = false) (hpaid : 0 < paid) (hmore : 0 < more)
    (howed : previewOwed e c.state b = .ok owed) (hshort : paid < owed) (hfits : I128.Fits owed)
    (hsum : I128.Fits (paid + more)) :
    applyTwice e c.state b paid more =
      (applyPayment e c.state b (paid + more)).map fun o => (o.state, o.value) := by
  have hlive := (hreach.sound.loans b).live hactive
  rcases bind_eq_ok.mp howed with ⟨acc, hacc, hdue⟩
  have howed' := pure_eq_ok.mp hdue
  subst howed'
  have hpayable : Payable acc := by
    have hpos := hlive.principal_pos
    have hbounds := hlive.accrued_bounds hacc
    rcases accruedInMemory_spec hlive.amountDue_pos.le hacc with ⟨x, -, rfl⟩
    exact ⟨hactive, hhealthy, ⟨hpos, hbounds.2⟩, hfits⟩
  by_cases hauth : e.auth c.state.config.vault = true
  · rcases lt_or_ge (paid + more) acc.amountDue with hpartial | hcovers
    · exact applyTwice_short hauth hactive hacc hpayable hpaid hmore hpartial
    · exact applyTwice_covers hauth hactive hacc hpayable hpaid hmore hshort hcovers hsum
  · have hrejected : ∀ n, applyPayment e c.state b n =
        .error (.unauthorized c.state.config.vault) := by
      intro n
      simp only [applyPayment, Env.requireAuth, panicIf,
        if_pos (Bool.eq_false_of_not_eq_true hauth)]
      rfl
    rw [applyTwice, hrejected, hrejected]
    rfl

/-- Ten units at five percent for a week, on the third day: three paid, then eight that
close the loan, are eleven paid at once. -/
theorem applyPayment_split_closing :
    applyTwice (.signedBy ⟨2⟩ 201000) (lateRateState 86400).state ⟨3⟩ 3000000 8000000 =
      (applyPayment (.signedBy ⟨2⟩ 201000) (lateRateState 86400).state ⟨3⟩ 11000000).map
        fun o => (o.state, o.value) := by
  have howed : previewOwed (.signedBy ⟨2⟩ 201000) (lateRateState 86400).state ⟨3⟩ =
      .ok 10165343 := by decide
  exact applyPayment_split (lateRateState_reachable 86400) (by decide) (by decide)
    (by decide) (by decide) howed
    (by decide) (by decide) (by decide)

end Lendoor.LoanManager
