import Lendoor.Soroban.Token
import Lendoor.LoanManager.Contract

/-! # The vault contract

Share accounting over a virtual-offset conversion, the only borrow and repay
entry points, and the write-off of defaulted loans. The vault reads its cash
from the token and calls the loan manager, so its functions act on the three
states together; a cross-contract call runs in the environment of a direct
invoker.
-/

namespace Lendoor

namespace Vault

def bpsDenom : Int := 10000

/-- Five percent of the interest portion. -/
def protocolFeeBps : Int := 500

structure Config where
  owner : Address
  feeRecipient : Address

structure State where
  config : Config
  totalShares : Int
  totalBorrows : Int
  shares : Store Address Int
  writtenOff : Store Address Int

namespace State

def sharesOf (v : State) (a : Address) : Int := v.shares.getD a 0

def setSharesOf (v : State) (a : Address) (shares : Int) : State :=
  { v with shares := v.shares.set a shares }

def readWrittenOff (v : State) (a : Address) : Int := v.writtenOff.getD a 0

/-- A zero entry is removed rather than stored. -/
def setWrittenOff (v : State) (a : Address) (amount : Int) : State :=
  if amount = 0 then { v with writtenOff := v.writtenOff.remove a }
  else { v with writtenOff := v.writtenOff.set a amount }

end State

/-- The constructor. -/
def construct (owner feeRecipient : Address) : State :=
  ⟨⟨owner, feeRecipient⟩, 0, 0, Store.empty, Store.empty⟩

end Vault

/-- The token and the two contracts' states. -/
structure World where
  usdc : Token
  vault : Vault.State
  loanManager : LoanManager.State

namespace Vault

/-! ## Share conversions -/

def cash (e : Env) (w : World) : Int := w.usdc.balance e.contract

def totalAssets (e : Env) (w : World) : Except Fault Int :=
  orTrap (I128.add (cash e w) w.vault.totalBorrows)

/-- Shares for `assets`, rounded down. -/
def toShares (e : Env) (w : World) (assets : Int) : Except Fault Int := do
  let ta ← totalAssets e w
  let s ← orTrap (I128.add w.vault.totalShares 1)
  let num ← orTrap (I128.mul assets s)
  let denom ← orTrap (I128.add ta 1)
  orTrap (I128.div num denom)

/-- Assets for `shares`, rounded down. -/
def toAssets (e : Env) (w : World) (shares : Int) : Except Fault Int := do
  let ta ← totalAssets e w
  let a ← orTrap (I128.add ta 1)
  let num ← orTrap (I128.mul shares a)
  let denom ← orTrap (I128.add w.vault.totalShares 1)
  orTrap (I128.div num denom)

/-- Shares to burn for an exact `assets` withdrawal, rounded up. -/
def toSharesCeil (e : Env) (w : World) (assets : Int) : Except Fault Int := do
  let ta ← totalAssets e w
  let s ← orTrap (I128.add w.vault.totalShares 1)
  let prod ← orTrap (I128.mul assets s)
  let num ← orTrap (I128.add prod ta)
  let denom ← orTrap (I128.add ta 1)
  orTrap (I128.div num denom)

/-! ## Deposits and exits -/

/-- Common body of the two deposits: convert, refuse zero shares, pull the assets
from `payer`, then mint to `beneficiary`. -/
def mintFor (e : Env) (w : World) (payer beneficiary : Address) (assets : Int) :
    Except Fault (World × Int) := do
  let shares ← toShares e w assets
  panicIf (shares ≤ 0) (.vault .zeroShares)
  let usdc ← w.usdc.transfer e.subcall payer e.contract assets
  let balance ← orTrap (I128.add (w.vault.sharesOf beneficiary) shares)
  let total ← orTrap (I128.add w.vault.totalShares shares)
  let vault := { w.vault.setSharesOf beneficiary balance with totalShares := total }
  pure ({ w with usdc := usdc, vault := vault }, shares)

def deposit (e : Env) (w : World) (source : Address) (assets : Int) :
    Except Fault (Outcome World Int) := do
  e.requireAuth source
  panicIf (assets ≤ 0) (.vault .zeroAmount)
  let (w, shares) ← mintFor e w source source assets
  pure ⟨w, [.deposit source assets shares], shares⟩

/-- `payer` funds the deposit, `beneficiary` receives the shares. -/
def depositFrom (e : Env) (w : World) (payer beneficiary : Address) (assets : Int) :
    Except Fault (Outcome World Int) := do
  e.requireAuth payer
  panicIf (assets ≤ 0) (.vault .zeroAmount)
  panicIf (beneficiary = e.contract) (.vault .invalidBeneficiary)
  let (w, shares) ← mintFor e w payer beneficiary assets
  pure ⟨w, [.deposit beneficiary assets shares, .depFrom payer beneficiary assets shares], shares⟩

/-- Common tail of the two exits: burn the shares, then pay the assets out. -/
def burnFor (e : Env) (w : World) (holder : Address) (shares assets : Int) :
    Except Fault World := do
  let balance ← orTrap (I128.sub (w.vault.sharesOf holder) shares)
  let total ← orTrap (I128.sub w.vault.totalShares shares)
  let usdc ← w.usdc.transfer e.subcall e.contract holder assets
  let vault := { w.vault.setSharesOf holder balance with totalShares := total }
  pure { w with usdc := usdc, vault := vault }

def withdraw (e : Env) (w : World) (source : Address) (assets : Int) :
    Except Fault (Outcome World Int) := do
  e.requireAuth source
  panicIf (assets ≤ 0) (.vault .zeroAmount)
  panicIf (assets > cash e w) (.vault .insufficientCash)
  let shares ← toSharesCeil e w assets
  panicIf (shares > w.vault.sharesOf source) (.vault .insufficientShares)
  let w ← burnFor e w source shares assets
  pure ⟨w, [.withdraw source assets shares], shares⟩

def redeem (e : Env) (w : World) (source : Address) (shares : Int) :
    Except Fault (Outcome World Int) := do
  e.requireAuth source
  panicIf (shares ≤ 0) (.vault .zeroAmount)
  panicIf (shares > w.vault.sharesOf source) (.vault .insufficientShares)
  let assets ← toAssets e w shares
  panicIf (assets > cash e w) (.vault .insufficientCash)
  let w ← burnFor e w source shares assets
  pure ⟨w, [.redeem source assets shares], assets⟩

/-! ## Borrowing -/

def borrowWithTerm (e : Env) (w : World) (borrower : Address) (amount : Int)
    (tenorDays feeBps : Nat) : Except Fault (Outcome World Int) := do
  e.requireAuth borrower
  panicIf (amount ≤ 0) (.vault .zeroAmount)
  panicIf (amount > LoanManager.creditLimit e.subcall w.loanManager borrower)
    (.vault .overCreditLimit)
  panicIf (amount > cash e w) (.vault .insufficientCash)
  let usdc ← w.usdc.transfer e.subcall e.contract borrower amount
  let borrows ← orTrap (I128.add w.vault.totalBorrows amount)
  let opened ← LoanManager.openLoan e.subcall w.loanManager borrower amount tenorDays feeBps
  pure ⟨⟨usdc, { w.vault with totalBorrows := borrows }, opened.state⟩,
    opened.events ++ [.borrow borrower amount tenorDays feeBps], amount⟩

/-! ## Repayment -/

/-- How a payment was split. `repay` returns `pay` and `repay_partial` returns
`remaining`; the other fields are the locals both functions compute. -/
structure Payment where
  pay : Int
  principalPaid : Int
  interestPaid : Int
  remaining : Int
  fee : Int
  deriving DecidableEq, Repr

def protocolFee (interestPaid : Int) : Except Fault Int := do
  let scaled ← orTrap (I128.mul interestPaid protocolFeeBps)
  orTrap (I128.div scaled bpsDenom)

/-- `if amount > 0 { transfer(vault, target, amount) }` -/
def sendIfPositive (e : Env) (usdc : Token) (target : Address) (amount : Int) :
    Except Fault Token :=
  if amount > 0 then usdc.transfer e.subcall e.contract target amount else pure usdc

/-- The part of a repaid principal still counted in the outstanding borrows. -/
def principalInBorrows (principal writtenOff : Int) : Except Fault Int :=
  if principal > writtenOff then orTrap (I128.sub principal writtenOff) else pure 0

/-- `if in_borrows > 0 { set_total_borrows(total - in_borrows) }` -/
def subIfPositive (total inBorrows : Int) : Except Fault Int :=
  if inBorrows > 0 then orTrap (I128.sub total inBorrows) else pure total

def repay (e : Env) (w : World) (payer borrower : Address) :
    Except Fault (Outcome World Payment) := do
  e.requireAuth payer
  let loan := w.loanManager.readLoan borrower
  panicIf (loan.active = false) (.vault .noActiveLoan)
  let pay ← LoanManager.previewOwed e.subcall w.loanManager borrower
  panicIf (pay ≤ 0) (.vault .noActiveLoan)
  let usdc ← w.usdc.transfer e.subcall payer e.contract pay
  let paid ← LoanManager.applyPayment e.subcall w.loanManager borrower pay
  let (principalPaid, interestPaid, remaining) := paid.value
  let fee ← protocolFee interestPaid
  let usdc ← sendIfPositive e usdc w.vault.config.feeRecipient fee
  let inBorrows ← principalInBorrows loan.principal (w.vault.readWrittenOff borrower)
  let borrows ← orTrap (I128.sub w.vault.totalBorrows inBorrows)
  let vault := { w.vault with totalBorrows := borrows }.setWrittenOff borrower 0
  pure ⟨⟨usdc, vault, paid.state⟩, paid.events ++ [.repay borrower pay fee],
    ⟨pay, principalPaid, interestPaid, remaining, fee⟩⟩

/-- The whole `amount` is pulled as signed, and what exceeds the live balance is
sent back in the same call. -/
def repayPartial (e : Env) (w : World) (payer borrower : Address) (amount : Int) :
    Except Fault (Outcome World Payment) := do
  e.requireAuth payer
  panicIf (amount ≤ 0) (.vault .zeroAmount)
  panicIf ((w.loanManager.readLoan borrower).active = false) (.vault .noActiveLoan)
  let usdc ← w.usdc.transfer e.subcall payer e.contract amount
  let owed ← LoanManager.previewOwed e.subcall w.loanManager borrower
  let pay := if amount < owed then amount else owed
  let refund ← orTrap (I128.sub amount pay)
  let usdc ← sendIfPositive e usdc payer refund
  let paid ← LoanManager.applyPayment e.subcall w.loanManager borrower pay
  let (principalPaid, interestPaid, remaining) := paid.value
  let fee ← protocolFee interestPaid
  let usdc ← sendIfPositive e usdc w.vault.config.feeRecipient fee
  let inBorrows ← principalInBorrows principalPaid (w.vault.readWrittenOff borrower)
  let borrows ← subIfPositive w.vault.totalBorrows inBorrows
  let vault := { w.vault with totalBorrows := borrows }
  let vault := if remaining = 0 then vault.setWrittenOff borrower 0 else vault
  let closing := if remaining = 0 then [Event.repay borrower pay fee] else []
  pure ⟨⟨usdc, vault, paid.state⟩,
    paid.events ++ closing ++ [.partrepay borrower pay fee remaining],
    ⟨pay, principalPaid, interestPaid, remaining, fee⟩⟩

/-! ## Write-off and governance -/

def manualWriteOff (e : Env) (w : World) (borrower : Address) (amount : Int) :
    Except Fault (Outcome World Unit) := do
  e.requireAuth w.vault.config.owner
  panicIf (LoanManager.isDefaulted w.loanManager borrower = false) (.vault .notDefaulted)
  let already := w.vault.readWrittenOff borrower
  let owedPrincipal ← principalInBorrows (w.loanManager.readLoan borrower).principal already
  let amt := if amount < owedPrincipal then amount else owedPrincipal
  if amt ≤ 0 then pure ⟨w, [], ()⟩
  else do
    let borrows ← orTrap (I128.sub w.vault.totalBorrows amt)
    let total ← orTrap (I128.add already amt)
    let vault := { w.vault with totalBorrows := borrows }.setWrittenOff borrower total
    pure ⟨{ w with vault := vault }, [.writeoff borrower amt], ()⟩

def setFeeRecipient (e : Env) (w : World) (recipient : Address) :
    Except Fault (Outcome World Unit) := do
  e.requireAuth w.vault.config.owner
  let config := { w.vault.config with feeRecipient := recipient }
  pure ⟨{ w with vault := { w.vault with config := config } }, [], ()⟩

end Vault

end Lendoor
