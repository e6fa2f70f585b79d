import Lendoor.Core.Pool
import Lendoor.LoanManager.Invariant
import Lendoor.Vault.Contract

/-! # What a successful vault call does

The books of the vault as an abstract pool, the conversions as rounded exchanges
at its price, and one lemma for each entry point with everything the call checked
and wrote. Both repayment paths end in the same `PaymentEffect`.
-/

namespace Lendoor

/-- The books of the vault at address `v`: its token balance is the cash, and the
loan manager's records are the borrowed principals. -/
def World.pool (v : Address) (w : World) : Pool Address where
  cash := w.usdc.balance v
  lent := w.vault.totalBorrows
  supply := w.vault.totalShares
  shares := w.vault.sharesOf
  principal := fun b => (w.loanManager.readLoan b).principal
  writtenOff := w.vault.readWrittenOff
  impaired := fun b => (w.loanManager.readLoan b).defaulted

/-- The exact value of `total_assets`. -/
def World.totalAssets (v : Address) (w : World) : Int := w.usdc.balance v + w.vault.totalBorrows

/-- The exact value of `to_assets(balance_of(a))`; the function returns it whenever
its arithmetic fits (`Vault.toAssets_sharesOf`). -/
def World.redeemable (v : Address) (w : World) (a : Address) : Int :=
  w.vault.sharesOf a * (w.totalAssets v + 1) / (w.vault.totalShares + 1)

namespace Vault

/-! ## Conversions -/

section Conversions

variable {e : Env} {w : World} (hsound : (w.pool e.contract).Sound)

include hsound

/-- `to_assets` returns exactly when its sums and its product fit, and then it is
the value of the shares at the pool's price. -/
theorem toAssets_eq_ok {shares assets : Int} (hshares : 0 ≤ shares) :
    toAssets e w shares = .ok assets ↔
      I128.Fits (w.pool e.contract).assets ∧ I128.Fits ((w.pool e.contract).assets + 1) ∧
        I128.Fits (shares * ((w.pool e.contract).assets + 1)) ∧
        I128.Fits ((w.pool e.contract).supply + 1) ∧
        assets = SharePool.value (w.pool e.contract).assets (w.pool e.contract).supply shares := by
  have hassets := hsound.assets_nonneg
  have hsupply := hsound.supply_nonneg
  have hnum : 0 ≤ shares * ((w.pool e.contract).assets + 1) := by positivity
  simp only [toAssets, totalAssets, cash, bind_eq_ok, unwrapOr_eq_ok, I128.add_eq_some,
    I128.mul_eq_some, I128.div_eq_some]
  change (∃ _, (_ = _ ∧ I128.Fits (w.pool e.contract).assets) ∧ _) ↔ _
  constructor
  · intro h
    rcases h with ⟨_, ⟨rfl, hta⟩, _, ⟨rfl, ha⟩, _, ⟨rfl, hprod⟩, _, ⟨rfl, hs⟩, -, hdiv, -⟩
    refine ⟨hta, ha, hprod, hs, ?_⟩
    rw [← hdiv]
    exact Int.tdiv_eq_ediv_of_nonneg hnum
  · intro h
    rcases h with ⟨hta, ha, hprod, hs, rfl⟩
    refine ⟨_, ⟨rfl, hta⟩, _, ⟨rfl, ha⟩, _, ⟨rfl, hprod⟩, _, ⟨rfl, hs⟩, ?_, ?_, ?_⟩
    · show (w.pool e.contract).supply + 1 ≠ 0
      omega
    · exact Int.tdiv_eq_ediv_of_nonneg hnum
    · exact I128.Fits.tdiv hnum (show 0 < (w.pool e.contract).supply + 1 by omega) hprod

theorem toAssets_sharesOf {a : Address} {assets : Int}
    (h : toAssets e w (w.vault.sharesOf a) = .ok assets) : assets = w.redeemable e.contract a :=
  ((toAssets_eq_ok hsound (hsound.shares_nonneg a)).mp h).2.2.2.2

theorem toShares_spec {assets shares : Int} (hpos : 0 ≤ assets)
    (h : toShares e w assets = .ok shares) :
    shares = assets * ((w.pool e.contract).supply + 1) / ((w.pool e.contract).assets + 1) := by
  have hsupply := hsound.supply_nonneg
  have hnum : 0 ≤ assets * ((w.pool e.contract).supply + 1) := by positivity
  simp only [toShares, totalAssets, cash, bind_eq_ok, unwrapOr_eq_ok, I128.add_eq_some,
    I128.mul_eq_some, I128.div_eq_some] at h
  rcases h with ⟨_, ⟨rfl, _⟩, _, ⟨rfl, _⟩, _, ⟨rfl, _⟩, _, ⟨rfl, _⟩, -, rfl, -⟩
  exact Int.tdiv_eq_ediv_of_nonneg hnum

/-- `to_shares_ceil` returns exactly when its sums and its product fit, and then it is
the price of the assets, rounded up. -/
theorem toSharesCeil_eq_ok {assets shares : Int} (hpos : 0 ≤ assets) :
    toSharesCeil e w assets = .ok shares ↔
      I128.Fits (w.pool e.contract).assets ∧ I128.Fits ((w.pool e.contract).supply + 1) ∧
        I128.Fits (assets * ((w.pool e.contract).supply + 1)) ∧
        I128.Fits (assets * ((w.pool e.contract).supply + 1) + (w.pool e.contract).assets) ∧
        I128.Fits ((w.pool e.contract).assets + 1) ∧
        shares = (assets * ((w.pool e.contract).supply + 1) + (w.pool e.contract).assets) /
          ((w.pool e.contract).assets + 1) := by
  have hsupply := hsound.supply_nonneg
  have hassets := hsound.assets_nonneg
  have hnum : 0 ≤ assets * ((w.pool e.contract).supply + 1) + (w.pool e.contract).assets := by
    positivity
  simp only [toSharesCeil, totalAssets, cash, bind_eq_ok, unwrapOr_eq_ok, I128.add_eq_some,
    I128.mul_eq_some, I128.div_eq_some]
  change (∃ _, (_ = _ ∧ I128.Fits (w.pool e.contract).assets) ∧ _) ↔ _
  constructor
  · intro h
    rcases h with ⟨_, ⟨rfl, hta⟩, _, ⟨rfl, hs⟩, _, ⟨rfl, hprod⟩, _, ⟨rfl, hsum⟩, _,
      ⟨rfl, ha⟩, -, hdiv, -⟩
    refine ⟨hta, hs, hprod, hsum, ha, ?_⟩
    rw [← hdiv]
    exact Int.tdiv_eq_ediv_of_nonneg hnum
  · intro h
    rcases h with ⟨hta, hs, hprod, hsum, ha, rfl⟩
    refine ⟨_, ⟨rfl, hta⟩, _, ⟨rfl, hs⟩, _, ⟨rfl, hprod⟩, _, ⟨rfl, hsum⟩, _, ⟨rfl, ha⟩, ?_, ?_, ?_⟩
    · show (w.pool e.contract).assets + 1 ≠ 0
      omega
    · exact Int.tdiv_eq_ediv_of_nonneg hnum
    · exact I128.Fits.tdiv hnum (show 0 < (w.pool e.contract).assets + 1 by omega) hsum

theorem toSharesCeil_spec {assets shares : Int} (hpos : 0 ≤ assets)
    (h : toSharesCeil e w assets = .ok shares) :
    shares = (assets * ((w.pool e.contract).supply + 1) + (w.pool e.contract).assets) /
      ((w.pool e.contract).assets + 1) :=
  ((toSharesCeil_eq_ok hsound hpos).mp h).2.2.2.2.2

end Conversions

/-! ## Deposits and exits -/

/-- The vault's records after `shares` were minted to `holder`; burns mint a
negative number. -/
def State.credited (v : State) (holder : Address) (shares : Int) : State :=
  { v.setSharesOf holder (v.sharesOf holder + shares) with totalShares := v.totalShares + shares }

theorem State.credited_sharesOf (v : State) (holder : Address) (shares : Int) :
    (v.credited holder shares).sharesOf =
      Function.update v.sharesOf holder (v.sharesOf holder + shares) := by
  funext a
  simp [credited, sharesOf, setSharesOf, Store.getD_set, Function.update_apply]

theorem mintFor_spec {e : Env} {w w' : World} {payer beneficiary : Address} {assets shares : Int}
    (h : mintFor e w payer beneficiary assets = .ok (w', shares)) :
    toShares e w assets = .ok shares ∧ 0 < shares ∧ assets ≤ w.usdc.balance payer ∧
      w'.usdc.balance = Token.moved w.usdc.balance payer e.contract assets ∧
      w'.vault = w.vault.credited beneficiary shares ∧ w'.loanManager = w.loanManager := by
  simp only [mintFor, bind_eq_ok, panicIf_eq_ok, unwrapOr_eq_ok, I128.add_eq_some,
    Token.transfer_eq_ok, pure_eq_ok, Prod.mk.injEq] at h
  rcases h with
    ⟨_, hshares, _, hpos, usdc, ⟨_, _, hfund, hmoved⟩, _, ⟨rfl, _⟩, _, ⟨rfl, _⟩, rfl, rfl⟩
  exact ⟨hshares, by omega, hfund, hmoved, rfl, rfl⟩

theorem deposit_spec {e : Env} {w : World} {source : Address} {assets : Int}
    {o : Outcome World Int} (h : deposit e w source assets = .ok o) :
    e.auth source = true ∧ 0 < assets ∧
      mintFor e w source source assets = .ok (o.state, o.value) := by
  simp only [deposit, bind_eq_ok, panicIf_eq_ok, Env.requireAuth_eq_ok, pure_eq_ok] at h
  rcases h with ⟨_, hauth, _, hpos, ⟨w', shares⟩, hmint, rfl⟩
  exact ⟨hauth, by omega, hmint⟩

theorem depositFrom_spec {e : Env} {w : World} {payer beneficiary : Address} {assets : Int}
    {o : Outcome World Int} (h : depositFrom e w payer beneficiary assets = .ok o) :
    e.auth payer = true ∧ 0 < assets ∧ beneficiary ≠ e.contract ∧
      mintFor e w payer beneficiary assets = .ok (o.state, o.value) := by
  simp only [depositFrom, bind_eq_ok, panicIf_eq_ok, Env.requireAuth_eq_ok, pure_eq_ok] at h
  rcases h with ⟨_, hauth, _, hpos, _, hben, ⟨w', shares⟩, hmint, rfl⟩
  exact ⟨hauth, by omega, hben, hmint⟩

theorem burnFor_eq_ok {e : Env} {w w' : World} {holder : Address} {shares assets : Int} :
    burnFor e w holder shares assets = .ok w' ↔
      I128.Fits (w.vault.sharesOf holder - shares) ∧ I128.Fits (w.vault.totalShares - shares) ∧
        0 ≤ assets ∧ assets ≤ cash e w ∧
        w'.usdc.balance = Token.moved w.usdc.balance e.contract holder assets ∧
        w'.vault = w.vault.credited holder (-shares) ∧ w'.loanManager = w.loanManager := by
  simp only [burnFor, bind_eq_ok, unwrapOr_eq_ok, I128.sub_eq_some, Token.transfer_eq_ok,
    Env.subcall_auth_contract, true_and, pure_eq_ok]
  constructor
  · intro h
    rcases h with ⟨_, ⟨rfl, hbal⟩, _, ⟨rfl, htotal⟩, usdc, ⟨hnn, hcash, hmoved⟩, rfl⟩
    exact ⟨hbal, htotal, hnn, hcash, hmoved, rfl, rfl⟩
  · intro h
    rcases h with ⟨hbal, htotal, hnn, hcash, hmoved, hvault, hlm⟩
    refine ⟨_, ⟨rfl, hbal⟩, _, ⟨rfl, htotal⟩, w'.usdc, ⟨hnn, hcash, hmoved⟩, ?_⟩
    cases w'
    simp only at hvault hlm
    subst hvault hlm
    rfl

/-- A withdrawal succeeds exactly when it is authorized, positive and held in cash, its
conversion returns, the holder has the shares, and the vault can pay it. -/
theorem withdraw_eq_ok {e : Env} {w : World} {source : Address} {assets : Int}
    {o : Outcome World Int} :
    withdraw e w source assets = .ok o ↔
      e.auth source = true ∧ 0 < assets ∧ assets ≤ cash e w ∧
        toSharesCeil e w assets = .ok o.value ∧
        o.value ≤ w.vault.sharesOf source ∧ burnFor e w source o.value assets = .ok o.state ∧
        o.events = [.withdraw source assets o.value] := by
  simp only [withdraw, bind_eq_ok, panicIf_eq_ok, Env.requireAuth_eq_ok, pure_eq_ok]
  constructor
  · intro h
    rcases h with ⟨_, hauth, _, hpos, _, hcash, shares, hshares, _, hbal, w', hburn, rfl⟩
    exact ⟨hauth, by omega, by simpa using hcash, hshares, by simpa using hbal, hburn, rfl⟩
  · intro h
    rcases h with ⟨hauth, hpos, hcash, hshares, hbal, hburn, hevents⟩
    refine ⟨(), hauth, (), by omega, (), by omega, _, hshares, (), by omega, _, hburn, ?_⟩
    cases o
    simp only at hevents
    subst hevents
    rfl

theorem withdraw_spec {e : Env} {w : World} {source : Address} {assets : Int}
    {o : Outcome World Int} (h : withdraw e w source assets = .ok o) :
    e.auth source = true ∧ 0 < assets ∧ toSharesCeil e w assets = .ok o.value ∧
      o.value ≤ w.vault.sharesOf source ∧ burnFor e w source o.value assets = .ok o.state := by
  rcases withdraw_eq_ok.mp h with ⟨hauth, hpos, _, hshares, hbal, hburn, _⟩
  exact ⟨hauth, hpos, hshares, hbal, hburn⟩

theorem redeem_eq_ok {e : Env} {w : World} {source : Address} {shares : Int}
    {o : Outcome World Int} :
    redeem e w source shares = .ok o ↔
      e.auth source = true ∧ 0 < shares ∧ shares ≤ w.vault.sharesOf source ∧
        toAssets e w shares = .ok o.value ∧ o.value ≤ cash e w ∧
        burnFor e w source shares o.value = .ok o.state ∧
        o.events = [.redeem source o.value shares] := by
  simp only [redeem, bind_eq_ok, panicIf_eq_ok, Env.requireAuth_eq_ok, pure_eq_ok]
  constructor
  · intro h
    rcases h with ⟨_, hauth, _, hpos, _, hbal, assets, hassets, _, hcash, w', hburn, rfl⟩
    exact ⟨hauth, by omega, by omega, hassets, by simpa using hcash, hburn, rfl⟩
  · intro h
    rcases h with ⟨hauth, hpos, hbal, hassets, hcash, hburn, hevents⟩
    refine ⟨(), hauth, (), by omega, (), by omega, _, hassets, (), by omega, _, hburn, ?_⟩
    cases o
    simp only at hevents
    subst hevents
    rfl

/-! ## Borrowing -/

theorem borrowWithTerm_spec {e : Env} {w : World} {borrower : Address} {amount : Int}
    {tenorDays feeBps : Nat} {o : Outcome World Int}
    (h : borrowWithTerm e w borrower amount tenorDays feeBps = .ok o) :
    e.auth borrower = true ∧ 0 < amount ∧ amount ≤ cash e w ∧
      I128.Fits (w.vault.totalBorrows + amount) ∧
      o.state.usdc.balance = Token.moved w.usdc.balance e.contract borrower amount ∧
      o.state.vault = { w.vault with totalBorrows := w.vault.totalBorrows + amount } ∧
      ∃ opened, LoanManager.openLoan e.subcall w.loanManager borrower amount tenorDays feeBps =
        .ok opened ∧ o.state.loanManager = opened.state := by
  simp only [borrowWithTerm, bind_eq_ok, panicIf_eq_ok, Env.requireAuth_eq_ok, unwrapOr_eq_ok,
    I128.add_eq_some, Token.transfer_eq_ok, pure_eq_ok] at h
  obtain ⟨_, hauth, _, hpos, _, _, _, hcash, usdc, ⟨_, _, _, hmoved⟩, _, ⟨rfl, hfits⟩, opened,
    hopen, rfl⟩ := h
  exact ⟨hauth, by omega, by simpa using hcash, hfits, hmoved, rfl, opened, hopen, rfl⟩

/-! ## Repayment -/

/-- The fee of a nonnegative interest is a floor, and never more than the interest. -/
theorem protocolFee_spec {interest fee : Int} (hnn : 0 ≤ interest)
    (h : protocolFee interest = .ok fee) :
    fee = interest * protocolFeeBps / bpsDenom ∧ 0 ≤ fee ∧ fee ≤ interest := by
  have hscaled : 0 ≤ interest * protocolFeeBps := mul_nonneg hnn (by decide)
  simp only [protocolFee, bind_eq_ok, unwrapOr_eq_ok, I128.mul_eq_some, I128.div_eq_some] at h
  rcases h with ⟨_, ⟨rfl, _⟩, -, rfl, -⟩
  rw [Int.tdiv_eq_ediv_of_nonneg hscaled]
  refine ⟨rfl, Int.ediv_nonneg hscaled (by decide), ?_⟩
  unfold protocolFeeBps bpsDenom
  omega

/-- A conditional transfer of a nonnegative amount moves it, the zero amount included. -/
theorem sendIfPositive_spec {e : Env} {usdc usdc' : Token} {target : Address} {amount : Int}
    (hnn : 0 ≤ amount) (h : sendIfPositive e usdc target amount = .ok usdc') :
    usdc'.balance = Token.moved usdc.balance e.contract target amount := by
  simp only [sendIfPositive, ite_eq_ok, Token.transfer_eq_ok, pure_eq_ok] at h
  rcases h with ⟨_, _, _, _, hmoved⟩ | ⟨hzero, rfl⟩
  · exact hmoved
  · have : amount = 0 := by omega
    simp [this]

theorem principalInBorrows_eq_ok {principal writtenOff r : Int} :
    principalInBorrows principal writtenOff = .ok r → r = max 0 (principal - writtenOff) := by
  simp only [principalInBorrows, ite_eq_ok, unwrapOr_eq_ok, I128.sub_eq_some, pure_eq_ok]
  intro h
  rcases h with ⟨hgt, rfl, _⟩ | ⟨hle, rfl⟩
  · omega
  · omega

/-- What is written off of a principal leaves a counted part that fits. -/
theorem principalInBorrows_ok {principal writtenOff : Int} (hnn : 0 ≤ writtenOff)
    (hle : writtenOff ≤ principal) (hfits : I128.Fits principal) :
    principalInBorrows principal writtenOff = .ok (principal - writtenOff) := by
  simp only [principalInBorrows, ite_eq_ok, unwrapOr_eq_ok, I128.sub_eq_some, pure_eq_ok]
  by_cases hgt : principal > writtenOff
  · exact .inl ⟨hgt, trivial, hfits.of_le (by omega) (by omega)⟩
  · exact .inr ⟨hgt, by omega⟩

theorem subIfPositive_eq_ok {total inBorrows r : Int} (hnn : 0 ≤ inBorrows) :
    subIfPositive total inBorrows = .ok r → r = total - inBorrows ∧
      (I128.Fits total → I128.Fits r) := by
  simp only [subIfPositive, ite_eq_ok, unwrapOr_eq_ok, I128.sub_eq_some, pure_eq_ok]
  intro h
  rcases h with ⟨_, rfl, hfits⟩ | ⟨hle, rfl⟩
  · exact ⟨rfl, fun _ => hfits⟩
  · exact ⟨by omega, id⟩

/-- Balances after a payment: the payer funds the vault, and the fee leaves it. -/
def paidBalance (e : Env) (w : World) (payer : Address) (r : Payment) : Address → Int :=
  Token.moved (Token.moved w.usdc.balance payer e.contract r.pay) e.contract
    w.vault.config.feeRecipient r.fee

/-- The vault's records with `amount` taken off the outstanding borrows. -/
def State.lowered (v : State) (amount : Int) : State :=
  { v with totalBorrows := v.totalBorrows - amount }

/-- The vault's records after the loan of `b` was settled: what was still counted
of its principal leaves the borrows, and its write-off is forgotten. -/
def State.settled (v : State) (b : Address) (principal : Int) : State :=
  (v.lowered (max 0 (principal - v.readWrittenOff b))).setWrittenOff b 0

/-- What a successful payment on `b`'s loan does: a covering one closes the loan,
a short one on a healthy loan reduces it. -/
inductive PaymentEffect (e : Env) (w : World) (payer b : Address) : Payment → World → Prop
  | closed {acc : LoanManager.Loan} {fee : Int} {w' : World}
      (fee_eq : fee = (acc.amountDue - acc.principal) * protocolFeeBps / bpsDenom)
      (usdc : w'.usdc.balance = paidBalance e w payer
        ⟨acc.amountDue, acc.principal, acc.amountDue - acc.principal, 0, fee⟩)
      (vault : w'.vault = w.vault.settled b acc.principal)
      (loanManager : w'.loanManager = LoanManager.closedState e w.loanManager b acc)
      (accrual : LoanManager.accruedInMemory e (w.loanManager.readLoan b)
        (w.loanManager.readPremium b) = .ok acc) :
      PaymentEffect e w payer b
        ⟨acc.amountDue, acc.principal, acc.amountDue - acc.principal, 0, fee⟩ w'
  | reduced {acc : LoanManager.Loan} {paid interest fee : Int} {w' : World}
      (positive : 0 < paid) (short : paid < acc.amountDue) (healthy : acc.defaulted = false)
      (split : interest = min paid (acc.amountDue - acc.principal))
      (fee_eq : fee = interest * protocolFeeBps / bpsDenom)
      (usdc : w'.usdc.balance = paidBalance e w payer
        ⟨paid, paid - interest, interest, acc.amountDue - paid, fee⟩)
      (vault : w'.vault = w.vault.lowered (max 0 (paid - interest - w.vault.readWrittenOff b)))
      (loanManager : w'.loanManager = w.loanManager.writeLoan b { acc.advance e.timestamp with
        amountDue := acc.amountDue - paid
        principal := acc.principal - (paid - interest) })
      (accrual : LoanManager.accruedInMemory e (w.loanManager.readLoan b)
        (w.loanManager.readPremium b) = .ok acc) :
      PaymentEffect e w payer b
        ⟨paid, paid - interest, interest, acc.amountDue - paid, fee⟩ w'

/-- Both repayment paths call the loan manager once, with the amount they keep. -/
def PaysThrough (e : Env) (w : World) (b : Address) (paid : Int) (w' : World) : Prop :=
  ∃ o, LoanManager.applyPayment e.subcall w.loanManager b paid = .ok o ∧
    o.state = w'.loanManager

theorem repay_spec {e : Env} {w : World} {payer b : Address} {o : Outcome World Payment}
    (hlive : (w.loanManager.readLoan b).active = true → (w.loanManager.readLoan b).Live)
    (h : repay e w payer b = .ok o) :
    e.auth payer = true ∧ (w.loanManager.readLoan b).active = true ∧
      I128.Fits o.state.vault.totalBorrows ∧ PaysThrough e w b o.value.pay o.state ∧
      o.value.remaining = 0 ∧ PaymentEffect e w payer b o.value o.state := by
  simp only [repay, LoanManager.previewOwed, bind_eq_ok, panicIf_eq_ok, Env.requireAuth_eq_ok,
    unwrapOr_eq_ok, I128.sub_eq_some, Token.transfer_eq_ok, pure_eq_ok,
    LoanManager.accruedInMemory_subcall] at h
  obtain ⟨_, hauth, _, hactive, _, ⟨acc, hacc, rfl⟩, _, _, usdc₁,
    ⟨_, _, _, husdc₁⟩, paid, hpaid, fee, hfee, usdc₂, husdc₂, inBorrows, hin, _,
    ⟨rfl, hfits⟩, rfl⟩ := h
  have hactive : (w.loanManager.readLoan b).active = true := by simpa using hactive
  obtain ⟨hprin, hle⟩ := (hlive hactive).accrued_bounds hacc
  obtain ⟨_, _, _, acc', hacc', hbranch⟩ := LoanManager.applyPayment_spec hpaid
  rw [LoanManager.accruedInMemory_subcall, hacc] at hacc'
  cases hacc'
  obtain ⟨-, -, rfl⟩ | ⟨hshort, -⟩ := hbranch
  · simp only at hfee
    obtain ⟨hfee_eq, hfee_nn, -⟩ := protocolFee_spec (by omega) hfee
    have hborrows := principalInBorrows_eq_ok hin
    refine ⟨hauth, hactive, ?_, ⟨_, hpaid, rfl⟩, rfl, .closed hfee_eq ?_ ?_ rfl hacc⟩
    · simpa [State.setWrittenOff] using hfits
    · rw [sendIfPositive_spec hfee_nn husdc₂, husdc₁]
      rfl
    · rw [hborrows, ← hprin]
      rfl
  · exact absurd hshort (lt_irrefl _)

theorem repayPartial_spec {e : Env} {w : World} {payer b : Address} {amount : Int}
    {o : Outcome World Payment}
    (hlive : (w.loanManager.readLoan b).active = true → (w.loanManager.readLoan b).Live)
    (h : repayPartial e w payer b amount = .ok o) :
    e.auth payer = true ∧ 0 < amount ∧ (w.loanManager.readLoan b).active = true ∧
      (I128.Fits w.vault.totalBorrows → I128.Fits o.state.vault.totalBorrows) ∧
      PaysThrough e w b o.value.pay o.state ∧
      (o.value.remaining = 0 ↔ ∃ acc, LoanManager.accruedInMemory e (w.loanManager.readLoan b)
        (w.loanManager.readPremium b) = .ok acc ∧ acc.amountDue ≤ amount) ∧
      PaymentEffect e w payer b o.value o.state := by
  simp only [repayPartial, LoanManager.previewOwed, bind_eq_ok, panicIf_eq_ok,
    Env.requireAuth_eq_ok, unwrapOr_eq_ok, I128.sub_eq_some, Token.transfer_eq_ok, pure_eq_ok,
    LoanManager.accruedInMemory_subcall] at h
  obtain ⟨_, hauth, _, hpos, _, hactive, usdc₁, ⟨_, _, _, husdc₁⟩, _, ⟨acc, hacc, rfl⟩, _,
    ⟨rfl, _⟩, usdc₂, husdc₂, paid, hpaid, fee, hfee, usdc₃, husdc₃, inBorrows, hin, borrows, hsub,
    rfl⟩ := h
  have hactive : (w.loanManager.readLoan b).active = true := by simpa using hactive
  have hprin_pos := (hlive hactive).principal_pos
  obtain ⟨hprin, hle⟩ := (hlive hactive).accrued_bounds hacc
  rw [← min_def_lt] at husdc₂ hpaid ⊢
  -- the refund leaves exactly the kept amount moved
  have hmoved : usdc₂.balance =
      Token.moved w.usdc.balance payer e.contract (min amount acc.amountDue) := by
    rw [sendIfPositive_spec (by omega) husdc₂, husdc₁, Token.moved_back, sub_sub_cancel]
  have hborrows := principalInBorrows_eq_ok hin
  obtain ⟨rfl, hborrows_fit⟩ := subIfPositive_eq_ok (by omega) hsub
  obtain ⟨_, hpaid_pos, _, acc', hacc', hbranch⟩ := LoanManager.applyPayment_spec hpaid
  rw [LoanManager.accruedInMemory_subcall, hacc] at hacc'
  cases hacc'
  obtain ⟨hcovers, -, rfl⟩ | ⟨hshort, hhealthy, interest, hsplit, rfl⟩ := hbranch
  · have hpay : min amount acc.amountDue = acc.amountDue := by omega
    simp only [hpay] at hfee hmoved hpaid ⊢
    obtain ⟨hfee_eq, hfee_nn, -⟩ := protocolFee_spec (by omega) hfee
    refine ⟨hauth, by omega, hactive, ?_, ⟨_, hpaid, rfl⟩, ?_, .closed hfee_eq ?_ ?_ rfl hacc⟩
    · simpa [State.setWrittenOff] using hborrows_fit
    · exact ⟨fun _ => ⟨acc, hacc, by omega⟩, fun _ => trivial⟩
    · rw [sendIfPositive_spec hfee_nn husdc₃, hmoved]
      rfl
    · rw [hborrows]
      rfl
  · have hpay : min amount acc.amountDue = amount := by omega
    simp only [hpay] at hfee hmoved hpaid hshort hsplit hpaid_pos ⊢
    obtain ⟨hfee_eq, hfee_nn, -⟩ := protocolFee_spec (by omega) hfee
    have hremaining : acc.amountDue - amount ≠ 0 := by omega
    refine ⟨hauth, by omega, hactive, ?_, ⟨_, hpaid, rfl⟩, ?_,
      .reduced hpaid_pos hshort hhealthy hsplit hfee_eq ?_ ?_ rfl hacc⟩
    · simpa [hremaining] using hborrows_fit
    · refine ⟨fun hzero => absurd hzero hremaining, fun ⟨acc', hacc', hcov⟩ => ?_⟩
      rw [hacc] at hacc'
      cases hacc'
      omega
    · rw [sendIfPositive_spec hfee_nn husdc₃, hmoved]
      rfl
    · rw [hborrows]
      simp only [hpay, if_neg hremaining]
      rfl

/-! ## Write-off -/

/-- A write-off recognises at most what is still counted, on a defaulted loan only. -/
theorem manualWriteOff_spec {e : Env} {w : World} {b : Address} {amount : Int}
    {o : Outcome World Unit} (h : manualWriteOff e w b amount = .ok o) :
    (w.loanManager.readLoan b).defaulted = true ∧
      ∃ amt, amt = min amount
          (max 0 ((w.loanManager.readLoan b).principal - w.vault.readWrittenOff b)) ∧
        ((amt ≤ 0 ∧ o.state = w) ∨
          (0 < amt ∧ I128.Fits (w.vault.totalBorrows - amt) ∧
            o.state = ⟨w.usdc, (w.vault.lowered amt).setWrittenOff b
              (w.vault.readWrittenOff b + amt), w.loanManager⟩)) := by
  simp only [manualWriteOff, bind_eq_ok, panicIf_eq_ok, ite_eq_ok,
    unwrapOr_eq_ok, I128.sub_eq_some, I128.add_eq_some, pure_eq_ok, ← min_def_lt] at h
  rcases h with ⟨_, _, _, hdef, owed, howed, h⟩
  refine ⟨by simpa [LoanManager.isDefaulted] using hdef, min amount owed,
    by rw [principalInBorrows_eq_ok howed], ?_⟩
  rcases h with ⟨hle, rfl⟩ | ⟨hpos, _, ⟨rfl, hfits⟩, _, ⟨rfl, _⟩, rfl⟩
  · exact .inl ⟨hle, rfl⟩
  · exact .inr ⟨by omega, hfits, rfl⟩

end Vault

end Lendoor
