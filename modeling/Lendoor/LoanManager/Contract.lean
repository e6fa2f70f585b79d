import Lendoor.Core.Storage
import Lendoor.Core.Runs
import Lendoor.Soroban.Host

/-! # The loan manager contract

Credit limits, one-shot offers, the loan lifecycle, accrual and default, as the
contract computes them. Unsigned fields are naturals and `i128` fields integers;
every operator the source leaves unchecked goes through the checked arithmetic
and traps out of range, every `checked_*` call yields an option.
-/

namespace Lendoor.LoanManager

def secondsPerDay : Nat := 86400

/-- Fixed-point base of the late rate, `1e18`. -/
def wad : Int := 1000000000000000000

def bpsDenom : Int := 10000

/-! ## Records -/

structure UserRisk where
  score : Nat
  kycOk : Bool
  validUntil : Nat
  lastUpdate : Nat
  limit : Int
  deriving DecidableEq, Repr

structure LoanOffer where
  tenorDays : Nat
  feeBps : Nat
  validUntil : Nat
  maxAmount : Int
  deriving DecidableEq, Repr

structure Loan where
  principal : Int
  amountDue : Int
  start : Nat
  due : Nat
  feeBps : Nat
  gracePeriod : Nat
  tenorDays : Nat
  active : Bool
  defaulted : Bool
  lastAccrued : Nat
  deriving DecidableEq, Repr

/-- The record of an account without a loan, also written when a loan closes. -/
def Loan.zeroed : Loan := ⟨0, 0, 0, 0, 0, 0, 0, false, false, 0⟩

structure PremiumConfig where
  premiumRatePerSecWad : Int
  lateRatePerSecWad : Int
  deriving DecidableEq, Repr

structure Config where
  vault : Address
  defaultGracePeriod : Nat
  defaultLatePeriod : Nat

/-- Instance and persistent entries of the contract. -/
structure State where
  owner : Address
  config : Config
  minHold : Store Nat Nat
  risk : Store Address UserRisk
  offer : Store Address LoanOffer
  loan : Store Address Loan
  premium : Store Address PremiumConfig
  nextBorrow : Store Address Nat

namespace State

def readLoan (s : State) (a : Address) : Loan := s.loan.getD a Loan.zeroed

def writeLoan (s : State) (a : Address) (l : Loan) : State := { s with loan := s.loan.set a l }

def readPremium (s : State) (a : Address) : PremiumConfig := s.premium.getD a ⟨0, 0⟩

def readNextBorrow (s : State) (a : Address) : Nat := s.nextBorrow.getD a 0

def writeNextBorrow (s : State) (a : Address) (ts : Nat) : State :=
  { s with nextBorrow := s.nextBorrow.set a ts }

def minHoldSecs (s : State) (tenorDays : Nat) : Nat := s.minHold.getD tenorDays 0

end State

/-- The constructor: one day of grace, fifteen days before default, and the
default holding periods of the five offered tenors. -/
def construct (owner vault : Address) : State where
  owner := owner
  config := ⟨vault, secondsPerDay, 15 * secondsPerDay⟩
  minHold := ((((Store.empty.set 3 (4 * secondsPerDay)).set 7 (4 * secondsPerDay)).set 14
    (7 * secondsPerDay)).set 21 (7 * secondsPerDay)).set 30 (7 * secondsPerDay)
  risk := Store.empty
  offer := Store.empty
  loan := Store.empty
  premium := Store.empty
  nextBorrow := Store.empty

/-! ## Administration, risk profile and offers -/

def setOwner (e : Env) (s : State) (newOwner : Address) : Except Fault (Outcome State Unit) := do
  e.requireAuth s.owner
  pure ⟨{ s with owner := newOwner }, [.ownerset newOwner], ()⟩

def setVault (e : Env) (s : State) (vault : Address) : Except Fault (Outcome State Unit) := do
  e.requireAuth s.owner
  pure ⟨{ s with config := { s.config with vault := vault } }, [.vaultset vault], ()⟩

def setDefaultGracePeriod (e : Env) (s : State) (secs : Nat) :
    Except Fault (Outcome State Unit) := do
  e.requireAuth s.owner
  pure ⟨{ s with config := { s.config with defaultGracePeriod := secs } }, [], ()⟩

def setMinHoldForTenor (e : Env) (s : State) (tenorDays minHoldDays : Nat) :
    Except Fault (Outcome State Unit) := do
  e.requireAuth s.owner
  let hold ← orTrap (U64.mul minHoldDays secondsPerDay)
  pure ⟨{ s with minHold := s.minHold.set tenorDays hold }, [], ()⟩

def setUserRisk (e : Env) (s : State) (account : Address) (score : Nat) (kycOk : Bool)
    (validUntil : Nat) (limit : Int) : Except Fault (Outcome State Unit) := do
  e.requireAuth s.owner
  panicIf (limit < 0) (.loanManager .invalidParam)
  let risk : UserRisk := ⟨score, kycOk, validUntil, e.timestamp, limit⟩
  pure ⟨{ s with risk := s.risk.set account risk }, [.riskset account limit], ()⟩

/-- Effective credit limit: zero without KYC or after expiry. -/
def creditLimit (e : Env) (s : State) (account : Address) : Int :=
  match s.risk.get? account with
  | none => 0
  | some u =>
      if u.kycOk = false then 0
      else if u.validUntil ≠ 0 ∧ e.timestamp > u.validUntil then 0
      else u.limit

/-- The stored profile, zeroed for an account that was never scored. -/
def getUserRisk (s : State) (account : Address) : UserRisk :=
  s.risk.getD account ⟨0, false, 0, 0, 0⟩

def setLoanOffer (e : Env) (s : State) (borrower : Address) (tenorDays feeBps validUntil : Nat)
    (maxAmount : Int) : Except Fault (Outcome State Unit) := do
  e.requireAuth s.owner
  panicIf (tenorDays = 0 ∨ feeBps = 0 ∨ maxAmount ≤ 0) (.loanManager .invalidParam)
  panicIf (validUntil ≤ e.timestamp) (.loanManager .offerExpired)
  let offer : LoanOffer := ⟨tenorDays, feeBps, validUntil, maxAmount⟩
  pure ⟨{ s with offer := s.offer.set borrower offer },
    [.offerset borrower tenorDays feeBps maxAmount], ()⟩

def setPremiumConfig (e : Env) (s : State) (borrower : Address)
    (premiumRatePerSecWad lateRatePerSecWad : Int) : Except Fault (Outcome State Unit) := do
  e.requireAuth s.owner
  panicIf (premiumRatePerSecWad < 0 ∨ lateRatePerSecWad < 0) (.loanManager .invalidParam)
  pure ⟨{ s with premium := s.premium.set borrower ⟨premiumRatePerSecWad, lateRatePerSecWad⟩ },
    [.premium borrower lateRatePerSecWad], ()⟩

/-! ## Opening -/

/-- The record `open_loan` writes: principal plus the first day's interest, or the
whole fee when a day of it rounds to zero, with the accrual anchor past what was
already charged. -/
def openedLoan (now gracePeriod : Nat) (principal : Int) (tenorDays feeBps : Nat) :
    Except Fault Loan := do
  let scaled ← orTrap (I128.mul principal feeBps)
  let fullFee ← orTrap (I128.div scaled bpsDenom)
  let f ← orTrap (I128.div fullFee tenorDays)
  let oneDayFloor := if 0 < f then f else fullFee
  let tenorSecs ← orTrap (U64.mul tenorDays secondsPerDay)
  let dueTs ← orTrap (U64.add now tenorSecs)
  let anchor ← if 0 < f then do
      let a ← orTrap (U64.add now secondsPerDay)
      pure (if a < dueTs then a else dueTs)
    else pure dueTs
  let amountDue ← orTrap (I128.add principal oneDayFloor)
  pure ⟨principal, amountDue, now, dueTs, feeBps, gracePeriod, tenorDays, true, false, anchor⟩

/-- Register a loan for the vault, consuming the borrower's offer. -/
def openLoan (e : Env) (s : State) (borrower : Address) (principal : Int)
    (tenorDays feeBps : Nat) : Except Fault (Outcome State Unit) := do
  e.requireAuth s.config.vault
  panicIf (principal ≤ 0) (.loanManager .zeroPrincipal)
  let now := e.timestamp
  let allowedSince := s.readNextBorrow borrower
  panicIf (allowedSince ≠ 0 ∧ now < allowedSince) (.loanManager .cooldown)
  panicIf ((s.readLoan borrower).active = true) (.loanManager .loanActive)
  panicIf (principal > creditLimit e s borrower) (.loanManager .overCreditLimit)
  let o ← unwrapOr (.loanManager .noOffer) (s.offer.get? borrower)
  panicIf (now > o.validUntil) (.loanManager .offerExpired)
  panicIf (tenorDays ≠ o.tenorDays) (.loanManager .badTenor)
  panicIf (feeBps ≠ o.feeBps) (.loanManager .badFee)
  panicIf (principal > o.maxAmount) (.loanManager .overOffer)
  let l ← openedLoan now s.config.defaultGracePeriod principal tenorDays feeBps
  let s := { s with offer := s.offer.remove borrower }
  pure ⟨s.writeLoan borrower l, [.loanopen borrower principal l.amountDue l.due], ()⟩

/-! ## Accrual -/

/-- Cumulative interest `floor(principal * fee * elapsed / (10000 * tenor))` from
the start of the loan to `ts`, capped at the due time. The products are checked
and give up with `none`; the elapsed time and the divisor trap. -/
def cum (l : Loan) (tenorSecs : Int) (ts : Nat) : Except Fault (Option Int) := do
  let capped := if ts < l.due then ts else l.due
  let el ← orTrap (U64.sub capped l.start)
  match (I128.mul l.principal l.feeBps).bind (fun x => I128.mul x el) with
  | none => pure none
  | some n => do
      let d ← orTrap (I128.mul bpsDenom tenorSecs)
      pure (I128.div n d)

/-- First phase of the accrual: pro-rata interest up to the due time, as a
difference of cumulative amounts. -/
def accrueInterest (now since : Nat) (l : Loan) : Except Fault Loan := do
  let tenorSecs ← orTrap (I128.mul l.tenorDays secondsPerDay)
  let intTo := if now < l.due then now else l.due
  if intTo > since ∧ tenorSecs > 0 then do
    let hi? ← cum l tenorSecs intTo
    let lo? ← cum l tenorSecs since
    match hi?, lo? with
    | some hi, some lo => do
        let delta ← orTrap (I128.sub hi lo)
        if delta > 0 then do
          let amountDue ← orTrap (I128.add l.amountDue delta)
          pure { l with amountDue := amountDue }
        else pure l
    | _, _ => pure l
  else pure l

/-- Second phase: the linear late fee on the whole balance past due and grace.
The fee product is checked and skipped when it does not fit; the start of the
late period is a plain addition. -/
def accrueLateFee (now since : Nat) (l : Loan) (p : PremiumConfig) : Except Fault Loan :=
  if p.lateRatePerSecWad > 0 then do
    let lateStart ← orTrap (U64.add l.due l.gracePeriod)
    let accrualFrom := if since > lateStart then since else lateStart
    if now > accrualFrom then do
      let tLate ← orTrap (U64.sub now accrualFrom)
      match (I128.mul p.lateRatePerSecWad tLate).bind (fun x => I128.mul x l.amountDue) with
      | some x => do
          let amountDue ← orTrap (I128.add l.amountDue (x.tdiv wad))
          pure { l with amountDue := amountDue }
      | none => pure l
    else pure l
  else pure l

/-- Where accrual resumes: the stored anchor, or the start of a loan without one. -/
def Loan.accruedUntil (l : Loan) : Nat := if l.lastAccrued = 0 then l.start else l.lastAccrued

def accruedInMemory (e : Env) (l : Loan) (p : PremiumConfig) : Except Fault Loan :=
  if l.active = false then pure l
  else if e.timestamp ≤ l.accruedUntil then pure l
  else do
    let charged ← accrueInterest e.timestamp l.accruedUntil l
    accrueLateFee e.timestamp l.accruedUntil charged p

/-- The anchor only moves forward. -/
def Loan.advance (l : Loan) (now : Nat) : Loan :=
  if now > l.lastAccrued then { l with lastAccrued := now } else l

def previewOwed (e : Env) (s : State) (borrower : Address) : Except Fault Int := do
  let acc ← accruedInMemory e (s.readLoan borrower) (s.readPremium borrower)
  pure acc.amountDue

def accrueLate (e : Env) (s : State) (borrower : Address) : Except Fault (Outcome State Unit) :=
  if (s.readLoan borrower).active = false then pure ⟨s, [], ()⟩
  else do
    let acc ← accruedInMemory e (s.readLoan borrower) (s.readPremium borrower)
    pure ⟨s.writeLoan borrower (acc.advance e.timestamp), [], ()⟩

/-! ## Payment, closing and default -/

/-- Common effects of a close: the cooldown of the holding period and the zeroed record. -/
def finishClose (e : Env) (s : State) (borrower : Address) (l : Loan) (paid : Int) :
    Except Fault (Outcome State Unit) := do
  let now := e.timestamp
  let minFromStart ← orTrap (U64.add l.start (s.minHoldSecs l.tenorDays))
  let waitUntil := if now ≥ minFromStart then now else minFromStart
  let s := s.writeNextBorrow borrower waitUntil
  pure ⟨s.writeLoan borrower Loan.zeroed, [.loanclos borrower paid], ()⟩

def closeLoan (e : Env) (s : State) (borrower : Address) (paid : Int) :
    Except Fault (Outcome State Unit) := do
  e.requireAuth s.config.vault
  let l := s.readLoan borrower
  panicIf (l.active = false) (.loanManager .noActiveLoan)
  let acc ← accruedInMemory e l (s.readPremium borrower)
  panicIf (paid < acc.amountDue) (.loanManager .underpaid)
  finishClose e s borrower acc paid

/-- Apply a payment for the vault, interest first. Returns the principal paid, the
interest paid and the remaining balance; a covering payment closes the loan, and
a defaulted loan takes nothing less. -/
def applyPayment (e : Env) (s : State) (borrower : Address) (paid : Int) :
    Except Fault (Outcome State (Int × Int × Int)) := do
  e.requireAuth s.config.vault
  panicIf (paid ≤ 0) (.loanManager .invalidParam)
  panicIf ((s.readLoan borrower).active = false) (.loanManager .noActiveLoan)
  let acc ← accruedInMemory e (s.readLoan borrower) (s.readPremium borrower)
  let l := acc.advance e.timestamp
  if paid ≥ l.amountDue then do
    let interestPaid ← orTrap (I128.sub paid l.principal)
    let closed ← finishClose e s borrower l paid
    pure ⟨closed.state, closed.events, (l.principal, interestPaid, 0)⟩
  else do
    panicIf (l.defaulted = true) (.loanManager .underpaid)
    let interestOut ← orTrap (I128.sub l.amountDue l.principal)
    let interestPaid := if paid < interestOut then paid else interestOut
    let principalPaid ← orTrap (I128.sub paid interestPaid)
    let amountDue ← orTrap (I128.sub l.amountDue paid)
    let principal ← orTrap (I128.sub l.principal principalPaid)
    pure ⟨s.writeLoan borrower { l with amountDue := amountDue, principal := principal },
      [.partpay borrower principalPaid interestPaid amountDue],
      (principalPaid, interestPaid, amountDue)⟩

def isDefaulted (s : State) (borrower : Address) : Bool := (s.readLoan borrower).defaulted

/-- `if let Some(mut r) = read_risk(..) { r.limit = 0; .. }` -/
def zeroLimit (risk : Store Address UserRisk) (borrower : Address) : Store Address UserRisk :=
  match risk.get? borrower with
  | some r => risk.set borrower { r with limit := 0 }
  | none => risk

def markDefault (e : Env) (s : State) (borrower : Address) : Except Fault (Outcome State Unit) := do
  e.requireAuth s.owner
  let l := s.readLoan borrower
  panicIf (l.active = false) (.loanManager .noActiveLoan)
  panicIf (l.defaulted = true) (.loanManager .alreadyDefaulted)
  let graceEnd ← orTrap (U64.add l.due l.gracePeriod)
  let limitTs ← orTrap (U64.add graceEnd s.config.defaultLatePeriod)
  panicIf (e.timestamp ≤ limitTs) (.loanManager .tooEarlyToDefault)
  let s := s.writeLoan borrower { l with defaulted := true }
  let s := { s with risk := zeroLimit s.risk borrower }
  let cooldown ← orTrap (U64.add e.timestamp (30 * secondsPerDay))
  pure ⟨s.writeNextBorrow borrower cooldown, [.default borrower e.timestamp], ()⟩

/-! ## The contract as a transition system -/

/-- State-changing entry points with their machine-typed arguments. -/
inductive Op
  | setOwner (newOwner : Address)
  | setVault (vault : Address)
  | setDefaultGracePeriod (secs : Word64)
  | setMinHoldForTenor (tenorDays minHoldDays : Word32)
  | setUserRisk (account : Address) (score : Word32) (kycOk : Bool) (validUntil : Word64)
      (limit : Int)
  | setLoanOffer (borrower : Address) (tenorDays feeBps : Word32) (validUntil : Word64)
      (maxAmount : Int)
  | setPremiumConfig (borrower : Address) (premiumRatePerSecWad lateRatePerSecWad : Int)
  | openLoan (borrower : Address) (principal : Int) (tenorDays feeBps : Word32)
  | closeLoan (borrower : Address) (paid : Int)
  | markDefault (borrower : Address)
  | accrueLate (borrower : Address)
  | applyPayment (borrower : Address) (paid : Int)
  deriving DecidableEq

/-- Return values: only `apply_payment` returns anything. -/
inductive Ret
  | unit
  | payment (principalPaid interestPaid remaining : Int)
  deriving DecidableEq, Repr

def exec (e : Env) (s : State) : Op → Except Fault (Outcome State Ret)
  | .setOwner a => (setOwner e s a).map (·.as fun _ => .unit)
  | .setVault a => (setVault e s a).map (·.as fun _ => .unit)
  | .setDefaultGracePeriod secs => (setDefaultGracePeriod e s secs).map (·.as fun _ => .unit)
  | .setMinHoldForTenor t h => (setMinHoldForTenor e s t h).map (·.as fun _ => .unit)
  | .setUserRisk a sc k v lim => (setUserRisk e s a sc k v lim).map (·.as fun _ => .unit)
  | .setLoanOffer b t f v m => (setLoanOffer e s b t f v m).map (·.as fun _ => .unit)
  | .setPremiumConfig b pr lr => (setPremiumConfig e s b pr lr).map (·.as fun _ => .unit)
  | .openLoan b p t f => (openLoan e s b p t f).map (·.as fun _ => .unit)
  | .closeLoan b paid => (closeLoan e s b paid).map (·.as fun _ => .unit)
  | .markDefault b => (markDefault e s b).map (·.as fun _ => .unit)
  | .accrueLate b => (accrueLate e s b).map (·.as fun _ => .unit)
  | .applyPayment b paid =>
      (applyPayment e s b paid).map (·.as fun r => .payment r.1 r.2.1 r.2.2)

/-- One call: its environment, and the entry point with its arguments. -/
abbrev Call := Env × Op

def Call.time (c : Call) : Nat := c.1.timestamp

def Call.exec (c : Call) (s : State) : Except Fault (State × (List Event × Ret)) :=
  (LoanManager.exec c.1 s c.2).map Outcome.split

/-- One successful call of the contract by any caller, in a ledger no earlier than
the previous one. -/
abbrev Step : Clocked State → Call × (List Event × Ret) → Clocked State → Prop :=
  Clocked.Step Call.time Call.exec

/-- States some sequence of calls reaches after deployment. -/
def Reachable (s : Clocked State) : Prop :=
  ∃ owner vault now labels, Run Step ⟨now, construct owner vault⟩ labels s

theorem reachable_of_run? (owner vault : Address) (now : Nat) (calls : List Call)
    {s : Clocked State}
    (h : Clocked.run? Call.time Call.exec ⟨now, construct owner vault⟩ calls = some s) :
    Reachable s := by
  rcases Clocked.run?_run h with ⟨labels, run, _⟩
  exact ⟨owner, vault, now, labels, run⟩

end Lendoor.LoanManager
