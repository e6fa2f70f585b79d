import Lendoor.LoanManager.Repayment
import Lendoor.System.Refinement

/-! # The two settlement paths

`repay` recomputes the balance and pulls it, `repay_partial` pulls the signed
amount and refunds the excess. On an amount that covers the balance they settle
the loan alike, also when anybody accrued it first in the same ledger.
-/

namespace Lendoor.System

/-! ## Accrual within one ledger -/

/-- `accrue_late(b)` called once in each of the environments. -/
def accrueAll (b : Address) : List Env → LoanManager.State → Except Fault LoanManager.State
  | [], s => pure s
  | e :: envs, s => do
      let o ← LoanManager.accrueLate e s b
      accrueAll b envs o.state

/-- The loan manager after any number of accruals of `b`'s loan to the record
`acc` in one ledger: untouched, or with the advanced record written. -/
inductive AccruedTo (now : Nat) (s : LoanManager.State) (b : Address) (acc : LoanManager.Loan) :
    LoanManager.Loan → LoanManager.State → Prop
  | none : AccruedTo now s b acc acc s
  | some : AccruedTo now s b acc (acc.advance now) (s.writeLoan b (acc.advance now))

theorem advance_advance (l : LoanManager.Loan) (now : Nat) :
    (l.advance now).advance now = l.advance now := by
  simp only [LoanManager.Loan.advance_eq, max_assoc, max_self]

theorem advance_active (l : LoanManager.Loan) (now : Nat) : (l.advance now).active = l.active := by
  rw [LoanManager.Loan.advance_eq]

section Accrued

variable {e : Env} {s : LoanManager.State} {b : Address} {acc : LoanManager.Loan}

theorem AccruedTo.accrual {acc' : LoanManager.Loan} {s' : LoanManager.State}
    (hacc : LoanManager.accruedInMemory e (s.readLoan b) (s.readPremium b) = .ok acc)
    (h : AccruedTo e.timestamp s b acc acc' s') :
    LoanManager.accruedInMemory e (s'.readLoan b) (s'.readPremium b) = .ok acc' := by
  cases h with
  | none => exact hacc
  | some =>
      rw [LoanManager.State.readLoan_writeLoan_self]
      exact LoanManager.accruedInMemory_of_le (LoanManager.le_accruedUntil_advance acc e.timestamp)

theorem AccruedTo.active {acc' : LoanManager.Loan} {s' : LoanManager.State} {now : Nat}
    (hactive : (s.readLoan b).active = true) (hacc : acc.active = true)
    (h : AccruedTo now s b acc acc' s') : (s'.readLoan b).active = true := by
  cases h with
  | none => exact hactive
  | some => rw [LoanManager.State.readLoan_writeLoan_self, advance_active, hacc]

/-- The close forgets whether the record was accrued before. -/
theorem AccruedTo.closedState {acc' : LoanManager.Loan} {s' : LoanManager.State} {now : Nat}
    (h : AccruedTo now s b acc acc' s') :
    LoanManager.closedState e s' b acc' = LoanManager.closedState e s b acc := by
  cases h with
  | none => rfl
  | some =>
      rw [LoanManager.Loan.advance_eq]
      exact LoanManager.State.writeLoan_writeLoan
        (s.writeNextBorrow b (LoanManager.waitUntil e s acc)) b _ _

theorem accrueAll_ok (envs : List Env) (htime : ∀ e' ∈ envs, e'.timestamp = e.timestamp)
    (hactive : (s.readLoan b).active = true) (hacc_active : acc.active = true)
    (hacc : LoanManager.accruedInMemory e (s.readLoan b) (s.readPremium b) = .ok acc)
    {l : LoanManager.Loan} {s' : LoanManager.State} (h : AccruedTo e.timestamp s b acc l s') :
    ∃ l' t, accrueAll b envs s' = .ok t ∧ AccruedTo e.timestamp s b acc l' t := by
  induction envs generalizing l s' with
  | nil => exact ⟨l, s', rfl, h⟩
  | cons e' envs ih =>
      have he' : e'.timestamp = e.timestamp := htime e' (by simp)
      have haccrual : LoanManager.accruedInMemory e' (s'.readLoan b) (s'.readPremium b) =
          .ok l := by
        have := h.accrual hacc
        simpa only [LoanManager.accruedInMemory, he'] using this
      have hcall : LoanManager.accrueLate e' s' b =
          .ok ⟨s'.writeLoan b (l.advance e.timestamp), [], ()⟩ := by
        rw [LoanManager.accrueLate, if_neg (by simp [h.active hactive hacc_active]), haccrual, he']
        rfl
      have hnext : AccruedTo e.timestamp s b acc (acc.advance e.timestamp)
          (s'.writeLoan b (l.advance e.timestamp)) := by
        cases h with
        | none => exact .some
        | some =>
            rw [LoanManager.State.writeLoan_writeLoan, advance_advance]
            exact .some
      rcases ih (fun x hx => htime x (by simp [hx])) hnext with ⟨l', t, ht, hl'⟩
      exact ⟨l', t, by rw [accrueAll, hcall]; exact ht, hl'⟩

end Accrued

/-! ## Settling an accrued loan -/

/-- A state in which `payer` can settle `b`'s loan, whose accrued record is `acc`. -/
structure Ready (e : Env) (w : World) (payer b : Address) (acc : LoanManager.Loan) : Prop where
  auth : e.auth payer = true
  payer_ne : payer ≠ e.contract
  wired : w.loanManager.config.vault = e.contract
  active : (w.loanManager.readLoan b).active = true
  live : (w.loanManager.readLoan b).Live
  accrual : LoanManager.accruedInMemory e (w.loanManager.readLoan b)
    (w.loanManager.readPremium b) = .ok acc
  funded : acc.amountDue ≤ w.usdc.balance payer
  written_nonneg : 0 ≤ w.vault.readWrittenOff b
  written_le : w.vault.readWrittenOff b ≤ (w.loanManager.readLoan b).principal
  counted : (w.loanManager.readLoan b).principal - w.vault.readWrittenOff b ≤ w.vault.totalBorrows
  borrows_fit : I128.Fits w.vault.totalBorrows

/-- The two sums and products of a settlement that nothing bounds: the end of the
holding period and the scaled fee. -/
def SettlementFits (s : LoanManager.State) (acc : LoanManager.Loan) : Prop :=
  U64.Fits (acc.start + s.minHoldSecs acc.tenorDays) ∧
    I128.Fits ((acc.amountDue - acc.principal) * Vault.protocolFeeBps)

section Settles

variable {e : Env} {w : World} {payer b : Address} {acc : LoanManager.Loan}

theorem Ready.bounds (h : Ready e w payer b acc) :
    acc.principal = (w.loanManager.readLoan b).principal ∧ 0 < acc.principal ∧
      acc.principal ≤ acc.amountDue := by
  rcases h.live.accrued_bounds h.accrual with ⟨hprin, hle⟩
  exact ⟨hprin, hprin ▸ h.live.principal_pos, hle⟩

theorem Ready.requireAuth (h : Ready e w payer b acc) : e.requireAuth payer = .ok () :=
  Env.requireAuth_eq_ok.mpr h.auth

theorem Ready.preview (h : Ready e w payer b acc) :
    LoanManager.previewOwed e.subcall w.loanManager b = .ok acc.amountDue := by
  rw [LoanManager.previewOwed, LoanManager.accruedInMemory_subcall, h.accrual]
  rfl

/-- The payment of the whole balance through the loan manager closes the loan, or
traps on the end of the holding period. -/
theorem Ready.applyPayment_ok (h : Ready e w payer b acc)
    (hhold : U64.Fits (acc.start + w.loanManager.minHoldSecs acc.tenorDays)) :
    LoanManager.applyPayment e.subcall w.loanManager b acc.amountDue =
      .ok ⟨LoanManager.closedState e w.loanManager b acc, [.loanclos b acc.amountDue],
        (acc.principal, acc.amountDue - acc.principal, 0)⟩ := by
  rcases h.bounds with ⟨_, hpos, hle⟩
  have hlt := w.usdc.balance_lt payer
  have hfund := h.funded
  refine LoanManager.applyPayment_close ?_ (by omega) h.active h.accrual le_rfl
    (I128.Fits.of_bounds (by omega) (by omega)) hhold
  rw [h.wired]
  exact Env.subcall_auth_contract e

theorem Ready.applyPayment_trap (h : Ready e w payer b acc)
    (hhold : ¬ U64.Fits (acc.start + w.loanManager.minHoldSecs acc.tenorDays)) :
    LoanManager.applyPayment e.subcall w.loanManager b acc.amountDue = .error .trap := by
  rcases h.bounds with ⟨_, hpos, hle⟩
  have hlt := w.usdc.balance_lt payer
  have hfund := h.funded
  have hauth : e.subcall.requireAuth w.loanManager.config.vault = .ok () := by
    rw [h.wired]
    exact Env.requireAuth_eq_ok.mpr (Env.subcall_auth_contract e)
  have hsub : I128.sub acc.amountDue acc.principal = some (acc.amountDue - acc.principal) :=
    I128.sub_eq_some.mpr ⟨rfl, I128.Fits.of_bounds (by omega) (by omega)⟩
  have hadd : U64.add acc.start (w.loanManager.minHoldSecs acc.tenorDays) = none := if_neg hhold
  have hpaid : ¬ acc.amountDue ≤ 0 := by omega
  simp only [LoanManager.applyPayment, hauth, ok_bind, panicIf, if_neg hpaid, h.active,
    Bool.true_eq_false, if_false, LoanManager.accruedInMemory_subcall, h.accrual,
    LoanManager.Loan.advance_eq, ge_iff_le, le_refl, if_true, hsub, unwrapOr_some,
    LoanManager.finishClose, hadd, unwrapOr_none, error_bind]

theorem protocolFee_ok {interest : Int} (hnn : 0 ≤ interest)
    (hfit : I128.Fits (interest * Vault.protocolFeeBps)) :
    ∃ fee, Vault.protocolFee interest = .ok fee := by
  have hscaled : 0 ≤ interest * Vault.protocolFeeBps := mul_nonneg hnn (by decide)
  refine ⟨(interest * Vault.protocolFeeBps).tdiv Vault.bpsDenom, ?_⟩
  simp only [Vault.protocolFee, bind_eq_ok, unwrapOr_eq_ok, I128.mul_eq_some, I128.div_eq_some]
  exact ⟨_, ⟨rfl, hfit⟩, by decide, rfl, I128.Fits.tdiv hscaled (by decide) hfit⟩

theorem protocolFee_trap {interest : Int} (hfit : ¬ I128.Fits (interest * Vault.protocolFeeBps)) :
    Vault.protocolFee interest = .error .trap := by
  have hmul : I128.mul interest Vault.protocolFeeBps = none := if_neg hfit
  rw [Vault.protocolFee, hmul]
  rfl

theorem sendIfPositive_ok {usdc : Token} (target : Address) {amount : Int}
    (hfund : amount ≤ usdc.balance e.contract) :
    ∃ usdc', Vault.sendIfPositive e usdc target amount = .ok usdc' := by
  unfold Vault.sendIfPositive
  split
  · rcases Token.transfer_ok target (Env.subcall_auth_contract e) (by omega) hfund with
      ⟨usdc', h, _⟩
    exact ⟨usdc', h⟩
  · exact ⟨usdc, rfl⟩

theorem Ready.inBorrows_ok (h : Ready e w payer b acc) :
    Vault.principalInBorrows acc.principal (w.vault.readWrittenOff b) =
        .ok (acc.principal - w.vault.readWrittenOff b) ∧
      I128.sub w.vault.totalBorrows (acc.principal - w.vault.readWrittenOff b) =
        some (w.vault.totalBorrows - (acc.principal - w.vault.readWrittenOff b)) ∧
      Vault.subIfPositive w.vault.totalBorrows (acc.principal - w.vault.readWrittenOff b) =
        .ok (w.vault.totalBorrows - (acc.principal - w.vault.readWrittenOff b)) := by
  rcases h.bounds with ⟨hprin, hpos, hle⟩
  have hlt := w.usdc.balance_lt payer
  have hfund := h.funded
  have hnn := h.written_nonneg
  have hwle := h.written_le
  have hcounted := h.counted
  have hsub : I128.sub w.vault.totalBorrows (acc.principal - w.vault.readWrittenOff b) =
      some (w.vault.totalBorrows - (acc.principal - w.vault.readWrittenOff b)) :=
    I128.sub_eq_some.mpr ⟨rfl, I128.Fits.of_le (by omega) (by omega) h.borrows_fit⟩
  refine ⟨Vault.principalInBorrows_ok hnn (hprin ▸ hwle)
    (I128.Fits.of_bounds (by omega) (by omega)), hsub, ?_⟩
  · unfold Vault.subIfPositive
    split
    · rw [hsub]
      rfl
    · have hzero : acc.principal - w.vault.readWrittenOff b = 0 := by omega
      rw [hzero, sub_zero]
      rfl

/-- `repay` settles exactly when the two unbounded values fit, and traps otherwise. -/
theorem Ready.repay_ok (h : Ready e w payer b acc) (hfits : SettlementFits w.loanManager acc) :
    ∃ o, Vault.repay e w payer b = .ok o := by
  rcases h.bounds with ⟨hprin, hpos, hle⟩
  rcases Token.transfer_ok e.contract (Env.subcall_auth_of_auth h.auth)
    (show 0 ≤ acc.amountDue by omega) h.funded with ⟨usdc₁, htransfer, hbal⟩
  rcases protocolFee_ok (by omega) hfits.2 with ⟨fee, hfee⟩
  have hfee_le := (Vault.protocolFee_spec (by omega) hfee).2.2
  have hvault : fee ≤ usdc₁.balance e.contract := by
    have := w.usdc.balance_nonneg e.contract
    rw [hbal, Token.moved_target _ _ _ _ h.payer_ne]
    omega
  rcases sendIfPositive_ok w.vault.config.feeRecipient hvault with ⟨usdc₂, hsend⟩
  rcases h.inBorrows_ok with ⟨hin, hsub, _⟩
  rw [hprin] at hin hsub
  have hpaid : ¬ acc.amountDue ≤ 0 := by omega
  simp only [Vault.repay, h.requireAuth, ok_bind, panicIf, h.active,
    Bool.true_eq_false, if_false, h.preview, if_neg hpaid, htransfer, h.applyPayment_ok hfits.1,
    hfee, hsend, hin, hsub, unwrapOr_some]
  exact ⟨_, rfl⟩

theorem Ready.repay_trap (h : Ready e w payer b acc) (hfits : ¬ SettlementFits w.loanManager acc) :
    Vault.repay e w payer b = .error .trap := by
  rcases h.bounds with ⟨hprin, hpos, hle⟩
  rcases Token.transfer_ok e.contract (Env.subcall_auth_of_auth h.auth)
    (show 0 ≤ acc.amountDue by omega) h.funded with ⟨usdc₁, htransfer, _⟩
  have hpaid : ¬ acc.amountDue ≤ 0 := by omega
  simp only [Vault.repay, h.requireAuth, ok_bind, panicIf, h.active,
    Bool.true_eq_false, if_false, h.preview, if_neg hpaid, htransfer]
  by_cases hhold : U64.Fits (acc.start + w.loanManager.minHoldSecs acc.tenorDays)
  · rw [h.applyPayment_ok hhold]
    simp only [ok_bind, protocolFee_trap (fun hfee => hfits ⟨hhold, hfee⟩), error_bind]
  · rw [h.applyPayment_trap hhold]
    rfl

/-- Pulling a covering amount and refunding the excess leaves the balance with the vault. -/
theorem Ready.pull_ok (h : Ready e w payer b acc) {amount : Int} (hcovers : acc.amountDue ≤ amount)
    (hfund : amount ≤ w.usdc.balance payer) :
    ∃ usdc₁ usdc₂, w.usdc.transfer e.subcall payer e.contract amount = .ok usdc₁ ∧
      I128.sub amount acc.amountDue = some (amount - acc.amountDue) ∧
      Vault.sendIfPositive e usdc₁ payer (amount - acc.amountDue) = .ok usdc₂ ∧
      acc.amountDue ≤ usdc₂.balance e.contract := by
  rcases h.bounds with ⟨_, hpos, hle⟩
  have hlt := w.usdc.balance_lt payer
  have hcash := w.usdc.balance_nonneg e.contract
  rcases Token.transfer_ok e.contract (Env.subcall_auth_of_auth h.auth)
    (show 0 ≤ amount by omega) hfund with ⟨usdc₁, htransfer, hbal⟩
  have hrefund : amount - acc.amountDue ≤ usdc₁.balance e.contract := by
    rw [hbal, Token.moved_target _ _ _ _ h.payer_ne]
    omega
  rcases sendIfPositive_ok payer hrefund with ⟨usdc₂, hsend⟩
  refine ⟨usdc₁, usdc₂, htransfer,
    I128.sub_eq_some.mpr ⟨rfl, I128.Fits.of_bounds (by omega) (by omega)⟩, hsend, ?_⟩
  rw [Vault.sendIfPositive_spec (by omega) hsend, hbal, Token.moved_back,
    Token.moved_target _ _ _ _ h.payer_ne]
  omega

/-- So does `repay_partial` with a funded amount that covers the balance. -/
theorem Ready.repayPartial_ok (h : Ready e w payer b acc) {amount : Int}
    (hcovers : acc.amountDue ≤ amount) (hfund : amount ≤ w.usdc.balance payer)
    (hfits : SettlementFits w.loanManager acc) :
    ∃ o, Vault.repayPartial e w payer b amount = .ok o := by
  rcases h.bounds with ⟨hprin, hpos, hle⟩
  rcases h.pull_ok hcovers hfund with ⟨usdc₁, usdc₂, htransfer, hsub₁, hrefund, hcash⟩
  rcases protocolFee_ok (by omega) hfits.2 with ⟨fee, hfee⟩
  have hfee_le := (Vault.protocolFee_spec (by omega) hfee).2.2
  rcases sendIfPositive_ok w.vault.config.feeRecipient
    (show fee ≤ usdc₂.balance e.contract by omega) with ⟨usdc₃, hsend⟩
  rcases h.inBorrows_ok with ⟨hin, _, hsub⟩
  have hamount : ¬ amount ≤ 0 := by omega
  have hpay : ¬ amount < acc.amountDue := by omega
  simp only [Vault.repayPartial, h.requireAuth, ok_bind, panicIf, if_neg hamount, h.active,
    Bool.true_eq_false, if_false, htransfer, h.preview, if_neg hpay, hsub₁, unwrapOr_some, hrefund,
    h.applyPayment_ok hfits.1, hfee, hsend, hin, hsub]
  exact ⟨_, rfl⟩

theorem Ready.repayPartial_trap (h : Ready e w payer b acc) {amount : Int}
    (hcovers : acc.amountDue ≤ amount) (hfund : amount ≤ w.usdc.balance payer)
    (hfits : ¬ SettlementFits w.loanManager acc) :
    Vault.repayPartial e w payer b amount = .error .trap := by
  rcases h.bounds with ⟨hprin, hpos, hle⟩
  rcases h.pull_ok hcovers hfund with ⟨usdc₁, usdc₂, htransfer, hsub₁, hrefund, _⟩
  have hamount : ¬ amount ≤ 0 := by omega
  have hpay : ¬ amount < acc.amountDue := by omega
  simp only [Vault.repayPartial, h.requireAuth, ok_bind, panicIf, if_neg hamount, h.active,
    Bool.true_eq_false, if_false, htransfer, h.preview, if_neg hpay, hsub₁, unwrapOr_some, hrefund]
  by_cases hhold : U64.Fits (acc.start + w.loanManager.minHoldSecs acc.tenorDays)
  · rw [h.applyPayment_ok hhold]
    simp only [ok_bind, protocolFee_trap (fun hfee => hfits ⟨hhold, hfee⟩), error_bind]
  · rw [h.applyPayment_trap hhold]
    rfl

/-- The outcome of a settlement of `b`'s loan, from the accrued record alone. -/
structure Settled (e : Env) (w : World) (payer b : Address) (acc : LoanManager.Loan)
    (r : World × Vault.Payment) : Prop where
  payment : r.2 = ⟨acc.amountDue, acc.principal, acc.amountDue - acc.principal, 0,
    (acc.amountDue - acc.principal) * Vault.protocolFeeBps / Vault.bpsDenom⟩
  usdc : r.1.usdc.balance = Vault.paidBalance e w payer r.2
  vault : r.1.vault = w.vault.settled b acc.principal
  loanManager : r.1.loanManager = LoanManager.closedState e w.loanManager b acc

theorem Settled.unique {r r' : World × Vault.Payment} (h : Settled e w payer b acc r)
    (h' : Settled e w payer b acc r') : r = r' := by
  have hpay : r.2 = r'.2 := h.payment.trans h'.payment.symm
  have husdc : r.1.usdc = r'.1.usdc := by
    ext1 a
    rw [h.usdc, h'.usdc, hpay]
  have hvault := h.vault.trans h'.vault.symm
  have hlm := h.loanManager.trans h'.loanManager.symm
  rcases r with ⟨⟨_, _, _⟩, _⟩
  rcases r' with ⟨⟨_, _, _⟩, _⟩
  simp only at hpay husdc hvault hlm
  subst hpay husdc hvault hlm
  rfl

theorem Ready.settled_of_effect (h : Ready e w payer b acc) {r : Vault.Payment} {w' : World}
    (heffect : Vault.PaymentEffect e w payer b r w') (hclosed : r.remaining = 0) :
    Settled e w payer b acc (w', r) := by
  cases heffect with
  | closed hfee husdc hvault hlm hacc =>
      rw [h.accrual] at hacc
      cases hacc
      subst hfee
      exact ⟨rfl, husdc, hvault, hlm⟩
  | reduced _ hshort _ _ _ _ _ _ hacc =>
      simp only at hclosed
      omega

end Settles

/-! ## Both paths from any reachable state -/

/-- Accruals of `b`'s loan in the given environments, then `repay`. -/
def settleByRepay (envs : List Env) (e : Env) (w : World) (payer b : Address) :
    Except Fault (World × Vault.Payment) := do
  let s ← accrueAll b envs w.loanManager
  let o ← Vault.repay e { w with loanManager := s } payer b
  pure (o.state, o.value)

/-- Accruals of `b`'s loan in the given environments, then `repay_partial`. -/
def settleByPartial (envs : List Env) (e : Env) (w : World) (payer b : Address) (amount : Int) :
    Except Fault (World × Vault.Payment) := do
  let s ← accrueAll b envs w.loanManager
  let o ← Vault.repayPartial e { w with loanManager := s } payer b amount
  pure (o.state, o.value)

section Paths

variable {e : Env} {w : World} {payer b : Address} {acc : LoanManager.Loan}

theorem Ready.accrued (h : Ready e w payer b acc) {l : LoanManager.Loan} {s : LoanManager.State}
    (hs : AccruedTo e.timestamp w.loanManager b acc l s) :
    Ready e { w with loanManager := s } payer b l := by
  have haccrual := hs.accrual h.accrual
  cases hs with
  | none => exact h
  | some =>
      rcases LoanManager.accruedInMemory_spec h.live.amountDue_pos.le h.accrual with ⟨x, hx, rfl⟩
      have hlive := h.live.accrue hx e.timestamp
      have hread := LoanManager.State.readLoan_writeLoan_self w.loanManager b
        (LoanManager.Loan.advance
          { w.loanManager.readLoan b with amountDue := (w.loanManager.readLoan b).amountDue + x }
          e.timestamp)
      refine ⟨h.auth, h.payer_ne, h.wired, ?_, hread.symm ▸ hlive, haccrual, ?_, h.written_nonneg,
        ?_, ?_, h.borrows_fit⟩
      · simp only [hread, advance_active]
        exact h.active
      · simpa only [LoanManager.Loan.advance_amountDue] using h.funded
      · simpa only [hread, LoanManager.Loan.advance_principal] using h.written_le
      · simpa only [hread, LoanManager.Loan.advance_principal] using h.counted

theorem AccruedTo.settlementFits {now : Nat} {s s' : LoanManager.State} {l : LoanManager.Loan}
    (h : AccruedTo now s b acc l s') : SettlementFits s' l ↔ SettlementFits s acc := by
  cases h with
  | none => exact Iff.rfl
  | some =>
      rw [LoanManager.Loan.advance_eq]
      exact Iff.rfl

theorem Settled.of_accrued {l : LoanManager.Loan} {s : LoanManager.State}
    {r : World × Vault.Payment} (hs : AccruedTo e.timestamp w.loanManager b acc l s)
    (h : Settled e { w with loanManager := s } payer b l r) : Settled e w payer b acc r := by
  have hclosed := h.loanManager.trans (hs.closedState (e := e))
  cases hs with
  | none => exact h
  | some =>
      have hpayment := h.payment
      have hvault := h.vault
      rw [LoanManager.Loan.advance_eq] at hpayment hvault
      exact ⟨hpayment, h.usdc, hvault, hclosed⟩

theorem Ready.settleByRepay_eq (h : Ready e w payer b acc) {envs : List Env}
    (htime : ∀ e' ∈ envs, e'.timestamp = e.timestamp) (hacc : acc.active = true) :
    (SettlementFits w.loanManager acc →
        ∃ r, settleByRepay envs e w payer b = .ok r ∧ Settled e w payer b acc r) ∧
      (¬ SettlementFits w.loanManager acc → settleByRepay envs e w payer b = .error .trap) := by
  rcases accrueAll_ok envs htime h.active hacc h.accrual .none with ⟨l, s, hs, hl⟩
  have hready := h.accrued hl
  constructor
  · intro hfits
    rcases hready.repay_ok (hl.settlementFits.mpr hfits) with ⟨o, ho⟩
    rcases Vault.repay_spec (fun _ => hready.live) ho with ⟨_, _, _, _, hclosed, heffect⟩
    refine ⟨(o.state, o.value), ?_, (hready.settled_of_effect heffect hclosed).of_accrued hl⟩
    simp only [settleByRepay, hs, ho, ok_bind]
    rfl
  · intro hfits
    simp only [settleByRepay, hs, ok_bind,
      hready.repay_trap (fun hf => hfits (hl.settlementFits.mp hf)), error_bind]

theorem Ready.settleByPartial_eq (h : Ready e w payer b acc) {envs : List Env}
    (htime : ∀ e' ∈ envs, e'.timestamp = e.timestamp) (hacc : acc.active = true) {amount : Int}
    (hcovers : acc.amountDue ≤ amount) (hfund : amount ≤ w.usdc.balance payer) :
    (SettlementFits w.loanManager acc →
        ∃ r, settleByPartial envs e w payer b amount = .ok r ∧ Settled e w payer b acc r) ∧
      (¬ SettlementFits w.loanManager acc →
        settleByPartial envs e w payer b amount = .error .trap) := by
  rcases accrueAll_ok envs htime h.active hacc h.accrual .none with ⟨l, s, hs, hl⟩
  have hready := h.accrued hl
  have hdue : l.amountDue ≤ amount := by
    cases hl with
    | none => exact hcovers
    | some => simpa only [LoanManager.Loan.advance_amountDue] using hcovers
  constructor
  · intro hfits
    rcases hready.repayPartial_ok hdue hfund (hl.settlementFits.mpr hfits) with ⟨o, ho⟩
    rcases Vault.repayPartial_spec (fun _ => hready.live) ho with ⟨_, _, _, _, _, hclosed, heffect⟩
    have hzero := hclosed.mpr ⟨l, hready.accrual, hdue⟩
    refine ⟨(o.state, o.value), ?_, (hready.settled_of_effect heffect hzero).of_accrued hl⟩
    simp only [settleByPartial, hs, ho, ok_bind]
    rfl
  · intro hfits
    simp only [settleByPartial, hs, ok_bind,
      hready.repayPartial_trap hdue hfund (fun hf => hfits (hl.settlementFits.mp hf)), error_bind]

end Paths

/-- From every reachable state, for every active loan and every payer other than
the vault that can fund an amount covering the previewed balance, the two paths
return the same result, whatever accruals of the loan come first in the same
ledger: the same state of the token, the vault and the loan manager, and the same
split of the payment. The balance paid is the previewed one, the write-off is
gone and the record zeroed. They return it whenever the end of the holding period
and the scaled fee are representable, and otherwise both trap. -/
theorem settlement_paths_agree {v : Address} {c : Clocked World} {e : Env} {payer b : Address}
    {amount owed : Int} {envs₁ envs₂ : List Env} (h : Reachable v c) (hv : e.contract = v)
    (hactive : (c.state.loanManager.readLoan b).active = true) (hauth : e.auth payer = true)
    (hpayer : payer ≠ v) (howed : LoanManager.previewOwed e c.state.loanManager b = .ok owed)
    (hcovers : owed ≤ amount) (hfund : amount ≤ c.state.usdc.balance payer)
    (htime₁ : ∀ e' ∈ envs₁, e'.timestamp = e.timestamp)
    (htime₂ : ∀ e' ∈ envs₂, e'.timestamp = e.timestamp) :
    settleByRepay envs₁ e c.state payer b = settleByPartial envs₂ e c.state payer b amount ∧
      (∀ w r, settleByRepay envs₁ e c.state payer b = .ok (w, r) →
        r.pay = owed ∧
          r.fee = (owed - (c.state.loanManager.readLoan b).principal) * 500 / 10000 ∧
          w.usdc.balance = Vault.paidBalance e c.state payer r ∧
          w.vault.totalShares = c.state.vault.totalShares ∧
          w.vault.sharesOf = c.state.vault.sharesOf ∧ w.vault.readWrittenOff b = 0 ∧
          w.loanManager.readLoan b = LoanManager.Loan.zeroed) ∧
      (U64.Fits ((c.state.loanManager.readLoan b).start +
          c.state.loanManager.minHoldSecs (c.state.loanManager.readLoan b).tenorDays) →
        I128.Fits ((owed - (c.state.loanManager.readLoan b).principal) * 500) →
        ∃ r, settleByRepay envs₁ e c.state payer b = .ok r) := by
  subst hv
  have hsound := h.sound
  have hbooks := hsound.books
  have hlive := (hsound.loanManager.loans b).live hactive
  simp only [LoanManager.previewOwed, bind_eq_ok, pure_eq_ok] at howed
  rcases howed with ⟨acc, hacc, rfl⟩
  rcases LoanManager.accruedInMemory_spec hlive.amountDue_pos.le hacc with ⟨x, hx, hacc_eq⟩
  have hacc_active : acc.active = true := by rw [hacc_eq]; exact hactive
  have hready : Ready e c.state payer b acc :=
    ⟨hauth, hpayer, hsound.wired, hactive, hlive, hacc, hcovers.trans hfund,
      hbooks.writtenOff_nonneg b, hbooks.writtenOff_le b, hbooks.outstanding_le_lent b,
      hsound.borrows_fit⟩
  have hprin : acc.principal = (c.state.loanManager.readLoan b).principal := hready.bounds.1
  have hrepay := hready.settleByRepay_eq htime₁ hacc_active
  have hpartial := hready.settleByPartial_eq htime₂ hacc_active hcovers hfund
  refine ⟨?_, ?_, ?_⟩
  · by_cases hfits : SettlementFits c.state.loanManager acc
    · rcases hrepay.1 hfits with ⟨r, hr, hset⟩
      rcases hpartial.1 hfits with ⟨r', hr', hset'⟩
      rw [hr, hr', hset.unique hset']
    · rw [hrepay.2 hfits, hpartial.2 hfits]
  · intro w r hr
    by_cases hfits : SettlementFits c.state.loanManager acc
    · rcases hrepay.1 hfits with ⟨r', hr', hset⟩
      rw [hr] at hr'
      cases hr'
      have hpay := hset.payment
      simp only at hpay
      refine ⟨by rw [hpay], by rw [hpay, ← hprin]; rfl, hset.usdc, ?_, ?_, ?_, ?_⟩
      · rw [hset.vault]
        rfl
      · rw [hset.vault]
        rfl
      · rw [hset.vault, Vault.State.settled, readWrittenOff_setWrittenOff, Function.update_self]
      · rw [hset.loanManager, LoanManager.closedState, LoanManager.State.readLoan_writeLoan_self]
    · rw [hrepay.2 hfits] at hr
      cases hr
  · intro hhold hfee
    have hstart : acc.start = (c.state.loanManager.readLoan b).start := by rw [hacc_eq]
    have htenor : acc.tenorDays = (c.state.loanManager.readLoan b).tenorDays := by rw [hacc_eq]
    rw [← hprin] at hfee
    rw [← hstart, ← htenor] at hhold
    rcases hrepay.1 ⟨hhold, hfee⟩ with ⟨r, hr, _⟩
    exact ⟨r, hr⟩

/-- A defaulted, partly written-off loan, settled by the provider with twice the
balance after two accruals by strangers. -/
theorem settlement_paths_agree_after_loss :
    ∃ c, Reachable ⟨1⟩ c ∧ c.state.vault.readWrittenOff ⟨5⟩ = 60000000 ∧
      settleByRepay [] ⟨2000000, ⟨1⟩, fun a => a = ⟨4⟩⟩ c.state ⟨4⟩ ⟨5⟩ =
        settleByPartial [.signedBy ⟨7⟩ 2000000, .signedBy ⟨8⟩ 2000000]
          ⟨2000000, ⟨1⟩, fun a => a = ⟨4⟩⟩ c.state ⟨4⟩ ⟨5⟩ 210000000 ∧
      ∃ r, settleByRepay [] ⟨2000000, ⟨1⟩, fun a => a = ⟨4⟩⟩ c.state ⟨4⟩ ⟨5⟩ = .ok r ∧
        r.2.pay = 105000000 := by
  have hrun : ∃ c, Clocked.run? Call.timestamp (Call.exec ⟨1⟩) launch lossCalls = some c ∧
      c.state.vault.readWrittenOff ⟨5⟩ = 60000000 ∧
      (c.state.loanManager.readLoan ⟨5⟩).active = true ∧
      210000000 ≤ c.state.usdc.balance ⟨4⟩ ∧
      (∃ owed, LoanManager.previewOwed ⟨2000000, ⟨1⟩, fun a => a = ⟨4⟩⟩ c.state.loanManager ⟨5⟩ =
        .ok owed ∧ owed ≤ 210000000) ∧
      ∃ r, settleByRepay [] ⟨2000000, ⟨1⟩, fun a => a = ⟨4⟩⟩ c.state ⟨4⟩ ⟨5⟩ = .ok r ∧
        r.2.pay = 105000000 := by decide
  rcases hrun with ⟨c, hc, hwo, hactive, hfund, ⟨owed, howed, hcovers⟩, hr⟩
  have hreach : Reachable ⟨1⟩ c := reachable_of_run? hc (by decide)
  exact ⟨c, hreach, hwo, (settlement_paths_agree hreach rfl hactive (by decide) (by decide) howed
    hcovers hfund (by simp) (by simp [Env.signedBy])).1, hr⟩

end Lendoor.System
