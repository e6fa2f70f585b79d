import Lendoor.Core.Parallel
import Lendoor.Core.Service
import Lendoor.Cctp.Transfer
import Lendoor.Backend.CreditPolicy
import Lendoor.Backend.Http
import Lendoor.Backend.LoanRows

/-! # The loan book

How loans reach the tables and leave them: `inform-open` and `inform-repayment` from the
borrower's client, the sync and the scanner from the chain. The decimal parser is a
parameter; a database transaction is one call.
-/

namespace Lendoor.Backend

open Cctp (Text falsy)
open Async (call caught lift forEach settled settleEach allSettled Exchange)

namespace LoanBook

structure LoanSdk where
  decimal : Text → Option ℚ

/-- The columns of a user that the loan book reads and writes. -/
structure User where
  id : Nat
  walletAddress : Text
  score : Option Nat
  creditLimit : Option ℚ
  xp : Nat
  hadDefaultEver : Bool
  deriving DecidableEq

structure InformLoanDto where
  walletAddress : Text
  amountHuman : Text
  tenorDays : Int
  txHash : Text
  deriving DecidableEq

structure InformRepaymentDto where
  walletAddress : Text
  amountPaidHuman : Text
  txHash : Option Text
  deriving DecidableEq

/-- What the gateway makes of a transaction that should have closed a loan. -/
inductive RepayCheck
  | verified (paidUnits : Int)
  | noReceipt
  | reverted
  | noMatch
  | rpcError
  deriving DecidableEq

/-- What the transaction of `informLoanOpened` writes. -/
structure Opening where
  userId : Nat
  wallet : Text
  principalDec : ℚ
  tenor : Nat
  feeBps : Int
  txHash : Text
  deriving DecidableEq

/-- What the transaction of `processRepayment` writes. -/
structure Repayment where
  user : User
  chainPaidUnits : Option Int
  amountPaidHuman : Text
  txHash : Option Text
  deriving DecidableEq

/-- What the transaction of `processRepayment` returns. -/
structure Repaid where
  loan : Loan
  repaidOnTime : Bool
  isPostDefault : Bool
  deriving DecidableEq

/-- What a call awaits. `schedule` is the order in which calls side by side go on;
`findBorrower` is the scanner's look-up of the user of an event. The flag of `saveCursor`
tells the jump of an empty cursor from the advance over a range. -/
inductive Ask
  | schedule
  | findUser (walletAddress : Text)
  | findBorrower (event : ChainLoanOpenedEvent)
  | findUserById (id : Nat)
  | saveUser (user : User)
  | countOnTime (userId : Nat)
  | giveCreditScoreAndLimit (wallet : Text) (score : Nat) (limit : Int)
  | verifyLoanOpened (txHash wallet : Text)
  | verifyRepay (txHash wallet : Text)
  | readLoanOnChain (wallet : Text)
  | previewLoanWithLate (wallet : Text)
  | findByOpenTx (txHash : Text)
  | findByCloseTx (txHash : Text)
  | feeBpsForTerm (userId : Nat) (tenor : Int)
  | openTransaction (opening : Opening)
  | repayTransaction (repayment : Repayment)
  | findUnsettled
  | latestLedger
  | readLoanFull (wallet : Text)
  | findLoanClosed (borrower : Text) (loanStartAt : Int) (currentLedger : Nat)
  | reconcileTransaction (loanId : Nat) (event : Option ChainLoanClosedEvent)
  | findCursor
  | saveCursor (block : Nat) (bootstrap : Bool)
  | loanOpenedEvents (fromLedger toLedger : Nat)
  | insertMissing (userId : Nat) (event : ChainLoanOpenedEvent)
  deriving DecidableEq

/-- The slot of a borrower on chain: whether it is active, and the start of its loan. -/
structure OnChainLoan where
  active : Bool
  start : Int
  deriving DecidableEq

@[reducible] def Answer : Ask → Type
  | .schedule => List Nat
  | .findUser _ => Option User
  | .findBorrower _ => Option User
  | .findUserById _ => Option User
  | .saveUser _ => Unit
  | .countOnTime _ => Nat
  | .giveCreditScoreAndLimit _ _ _ => Nat
  | .verifyLoanOpened _ _ => Bool
  | .verifyRepay _ _ => RepayCheck
  | .readLoanOnChain _ => Option OnChainLoan
  | .previewLoanWithLate _ => Option Int
  | .findByOpenTx _ => Option Loan
  | .findByCloseTx _ => Option Loan
  | .feeBpsForTerm _ _ => Int
  | .openTransaction _ => Loan
  | .repayTransaction _ => Repaid
  | .findUnsettled => List (Loan × Option User)
  | .latestLedger => Nat
  | .readLoanFull _ => Option OnChainLoan
  | .findLoanClosed _ _ _ => Option ChainLoanClosedEvent
  | .reconcileTransaction _ _ => Option (Loan × Bool)
  | .findCursor => Option Nat
  | .saveCursor _ _ => Unit
  | .loanOpenedEvents _ _ => List ChainLoanOpenedEvent
  | .insertMissing _ _ => Option Nat

abbrev Program := Async Ask Answer HttpError

abbrev Asked := Exchange Ask Answer HttpError

def badRequest (message : String) : HttpError := ⟨.badRequest, message⟩

def notFound (message : String) : HttpError := ⟨.notFound, message⟩

def unavailable (message : String) : HttpError := ⟨.serviceUnavailable, message⟩

variable (sdk : LoanSdk)

def parseAmountHuman (amount : Text) : Except HttpError ℚ :=
  let cleaned := trim (amount.filter fun c => c ≠ ',')
  if cleaned = [] then .error (badRequest "Amount is required")
  else match sdk.decimal cleaned with
    | none => .error (badRequest "Invalid amount")
    | some dec => if dec ≤ 0 then .error (badRequest "Amount must be greater than 0") else .ok dec

/-! ## `informLoanOpened` -/

/-- The id of the row of the loan. -/
def informLoanOpened (dto : InformLoanDto) : Program Nat := do
  let wallet ← lift (normalizeWallet dto.walletAddress)
  let found : Option User ← call (Ask.findUser wallet)
  match found with
  | none => .throw (notFound "User not found")
  | some user =>
      if dto.tenorDays ≤ 0 then .throw (badRequest "Invalid tenorDays")
      else if dto.tenorDays ∉ [7, 14, 21] then .throw (badRequest
        ("Invalid tenorDays: " ++ toString dto.tenorDays ++ ". Allowed values: 7, 14, 21"))
      else do
        let existing : Option Loan ← call (Ask.findByOpenTx dto.txHash)
        match existing with
        | some row => pure row.id
        | none => do
            let matched : Bool ← call (Ask.verifyLoanOpened dto.txHash wallet)
            if matched = false then
              .throw (badRequest "txHash is not a LoanOpened event for this wallet")
            else do
              let principalDec ← lift (parseAmountHuman sdk dto.amountHuman)
              let feeBps : Int ← call (Ask.feeBpsForTerm user.id dto.tenorDays)
              let row : Loan ← call (Ask.openTransaction
                ⟨user.id, wallet, principalDec, dto.tenorDays.toNat, feeBps, dto.txHash⟩)
              pure row.id

/-! ## `processRepayment` -/

/-- `DEFAULT_CREDIT_LIMIT_USDC` as a number. -/
def defaultLimit : ℚ := defaultCreditLimit

def limitUnits (step : CreditLadderStep) : ℚ := toUnits step.limitUsdc

/-- `BigInt` of a number throws on a fraction. -/
def bigInt (x : ℚ) : Except HttpError Int :=
  if x.den = 1 then .ok x.num else .error ⟨.rejected, "RangeError"⟩

/-- Whether the repayment was verified by the hash, and then what the chain says was paid. -/
def verifyByTxHash (wallet : Text) : Option Text → Program (Option Int)
  | none => pure none
  | some txHash =>
      if txHash = [] then pure none
      else do
        let check : RepayCheck ← call (Ask.verifyRepay txHash wallet)
        match check with
        | .verified paidUnits => pure (some paidUnits)
        | .reverted => .throw (badRequest "Repay transaction reverted on-chain.")
        | .noMatch => .throw (badRequest "txHash does not match a repay for this wallet.")
        | .noReceipt | .rpcError => pure none

/-- Without a verified hash the slot on chain must be free. -/
def assertInactive (wallet : Text) : Program Unit := do
  let read : Except HttpError (Option OnChainLoan) ← caught (Ask.readLoanOnChain wallet)
  match read with
  | .error _ => .throw (unavailable "Could not verify on-chain loan state. Please try again.")
  | .ok onChain =>
      if (onChain.map OnChainLoan.active).getD true = true then .throw (unavailable
        "Your repayment transaction has not been confirmed on-chain yet. Please wait a moment and try again.")
      else pure ()

/-- Before anything is recorded: the hash is verified, or the slot is free. -/
def verifyRepaid (wallet : Text) (txHash : Option Text) : Program (Option Int) := do
  let chainPaidUnits ← verifyByTxHash wallet txHash
  if chainPaidUnits = none then do
    let _ ← assertInactive wallet
    pure chainPaidUnits
  else pure chainPaidUnits

/-- The row that this hash has closed already. -/
def findProcessed : Option Text → Program (Option Loan)
  | none => pure none
  | some txHash => if txHash = [] then pure none else call (Ask.findByCloseTx txHash)

/-- `userRepo.save` once the chain has taken the score and the limit. -/
def giveAndSave (wallet : Text) (user : User) (score : Nat) (limit : ℚ) : Program Unit := do
  let limitUnits ← lift (bigInt limit)
  let result : Nat ← call (Ask.giveCreditScoreAndLimit wallet score limitUnits)
  if result = 200 then
    call (Ask.saveUser { user with score := some score, creditLimit := some limit })
  else pure ()

/-- The score and the limit after an on-time repayment: one step up at most. -/
def upgraded (user : User) (onTimeLoanCount : Nat) : Nat × ℚ :=
  let ladderStep := getStepForOnTimeLoans onTimeLoanCount
  let currentScore := user.score.getD 1
  let newScore := if currentScore + 1 < ladderStep.score then currentScore + 1 else ladderStep.score
  (newScore, max (user.creditLimit.getD defaultLimit) (limitUnits (getStepForScore newScore)))

/-- The score and the limit after a repayment past the default: two steps down. -/
def penalized (user : User) : Nat × ℚ :=
  let newScore := max 1 (user.score.getD 1 - 2)
  (newScore, limitUnits (getStepForScore newScore))

/-- What a late payer's offer is renewed with. -/
def renewed (user : User) : Nat × ℚ :=
  let newScore := user.score.getD 1
  (newScore, max (user.creditLimit.getD defaultLimit) (limitUnits (getStepForScore newScore)))

def raiseXp (user : User) (onTimeLoanCount : Nat) : User :=
  { user with xp := max user.xp (getStepForOnTimeLoans onTimeLoanCount).xpBase }

/-- The `try` block of each of the three cases. -/
def applyCredit (wallet : Text) (user : User) (repaid : Repaid) (onTimeLoanCount : Nat) :
    Program Unit :=
  if repaid.repaidOnTime = true then
    giveAndSave wallet (raiseXp user onTimeLoanCount) (upgraded user onTimeLoanCount).1
      (upgraded user onTimeLoanCount).2
  else if repaid.isPostDefault = true then
    giveAndSave wallet user (penalized user).1 (penalized user).2
  else do
    let limitUnits ← lift (bigInt (renewed user).2)
    let _ ← call (Ask.giveCreditScoreAndLimit wallet (renewed user).1 limitUnits)
    pure ()

/-- The loan and whether it was repaid on time, from the transaction on. -/
def recordRepayment (wallet : Text) (user : User) (chainPaidUnits : Option Int)
    (dto : InformRepaymentDto) :
    Program (Loan × Bool) := do
  let repaid : Repaid ←
    call (Ask.repayTransaction ⟨user, chainPaidUnits, dto.amountPaidHuman, dto.txHash⟩)
  let user := { user with hadDefaultEver := user.hadDefaultEver || repaid.isPostDefault }
  let onTimeLoanCount : Nat ← call (Ask.countOnTime user.id)
  let _ ← settled (applyCredit wallet user repaid onTimeLoanCount)
  let _ ← call (Ask.findUserById user.id)
  pure (repaid.loan, repaid.repaidOnTime)

def processRepayment (dto : InformRepaymentDto) : Program (Loan × Bool) := do
  let wallet ← lift (normalizeWallet dto.walletAddress)
  let found : Option User ← call (Ask.findUser wallet)
  match found with
  | none => .throw (notFound "User not found")
  | some user => do
      let chainPaidUnits ← verifyRepaid wallet dto.txHash
      let _ ← caught (Ask.previewLoanWithLate wallet)
      let existing ← findProcessed dto.txHash
      match existing with
      | some loan => pure (loan, loan.repaidOnTime)
      | none => recordRepayment wallet user chainPaidUnits dto

/-! ## `syncLoansWithChain` -/

/-- The stored limit, where there is one that is not zero. -/
def storedLimit (user : User) : ℚ :=
  match user.creditLimit with
  | none => defaultLimit
  | some limit => if limit = 0 then defaultLimit else limit

/-- The `try` block of `updateCreditScore`. -/
def updateCreditScore (borrowerAddress : Text) (userId : Nat) (repaidOnTime : Bool) :
    Program Unit := do
  let found : Option User ← call (Ask.findUserById userId)
  match found with
  | none => pure ()
  | some user =>
      if repaidOnTime = true then do
        let onTimeLoans : Nat ← call (Ask.countOnTime userId)
        let ladderStep := getStepForOnTimeLoans onTimeLoans
        giveAndSave borrowerAddress (raiseXp user onTimeLoans) ladderStep.score
          (max (storedLimit user) (limitUnits ladderStep))
      else giveAndSave borrowerAddress user (user.score.getD 1) (storedLimit user)

def reconcileLoan (loan : Loan) (user : User) (currentLedger : Nat) : Program Bool := do
  let eventData : Option ChainLoanClosedEvent ←
    call (Ask.findLoanClosed loan.borrowerAddress loan.startAt currentLedger)
  let result : Option (Loan × Bool) ← call (Ask.reconcileTransaction loan.id eventData)
  match result with
  | none => pure false
  | some (_, repaidOnTime) => do
      let _ ← settled (updateCreditScore loan.borrowerAddress user.id repaidOnTime)
      pure true

/-- A ghost's error does not stop the others. -/
def reconcileGhost (currentLedger : Nat) : Loan × Option User → Program Unit
  | (_, none) => pure ()
  | (ghost, some user) => do
      let _ ← settled (reconcileLoan ghost user currentLedger)
      pure ()

def reconcileStale (currentLedger : Nat) : Loan × Option User → Program Unit
  | (_, none) => pure ()
  | (loan, some user) => do
      let _ ← reconcileLoan loan user currentLedger
      pure ()

/-- `LOAN_START_MATCH_TOLERANCE_SEC` -/
def loanStartMatchTolerance : Int := 60

def isChainCurrent (onChain : OnChainLoan) (latest : Loan) : Bool :=
  |onChain.start - latest.startAt / 1000| ≤ loanStartMatchTolerance

/-- The unsettled rows of one address, the newest first. -/
def syncAddress (currentLedger : Nat) : List (Loan × Option User) → Program Unit
  | [] => pure ()
  | (_, none) :: _ => pure ()
  | (latest, some user) :: older => do
      let read : Option OnChainLoan ← call (Ask.readLoanFull latest.borrowerAddress)
      match read with
      | none => .throw ⟨.rejected,
          "Could not read on-chain loan for " ++ String.ofList latest.borrowerAddress⟩
      | some onChain =>
          if onChain.active = true then
            forEach (if isChainCurrent onChain latest = true then
              older else (latest, some user) :: older)
              (reconcileGhost currentLedger)
          else forEach ((latest, some user) :: older) (reconcileStale currentLedger)

def loansByAddress (rows : List (Loan × Option User)) : List (List (Loan × Option User)) :=
  ((rows.map fun row => row.1.borrowerAddress).eraseDups).map fun address =>
    rows.filter fun row => row.1.borrowerAddress = address

def syncBatch (currentLedger : Nat) (batch : List (List (Loan × Option User))) : Program Unit := do
  let order : List Nat ← call Ask.schedule
  let _ ← allSettled order (batch.map (syncAddress currentLedger))
  pure ()

/-- Its errors are logged: a run of the sync never throws. -/
def syncLoansWithChain : Program Unit := do
  let _ ← settled (do
    let unsettledLoans : List (Loan × Option User) ← call Ask.findUnsettled
    if unsettledLoans = [] then pure ()
    else do
      let currentLedger : Nat ← call Ask.latestLedger
      forEach ((loansByAddress unsettledLoans).toChunks 5) (syncBatch currentLedger))
  pure ()

/-! ## `scanLoanOpenedEvents` -/

def maxBlockRange : Nat := 10000

/-- How far behind the chain an empty cursor starts. -/
def bootstrapRange : Nat := 100000

/-- Whether the row was inserted. -/
def insertMissingLoan (event : ChainLoanOpenedEvent) : Program Bool := do
  let existing : Option Loan ← call (Ask.findByOpenTx event.txHash)
  match existing with
  | some _ => pure false
  | none => do
      let found : Option User ← call (Ask.findBorrower event)
      match found with
      | none => pure false
      | some user => do
          let insertedId : Option Nat ← call (Ask.insertMissing user.id event)
          pure insertedId.isSome

structure ScanResult where
  scanned : Nat := 0
  inserted : Nat := 0
  skipped : Nat := 0
  errors : Nat := 0
  deriving DecidableEq, Repr

def countInserts (results : List (Except HttpError Bool)) : ScanResult where
  scanned := results.length
  inserted := results.countP fun r => r.toOption = some true
  skipped := results.countP fun r => r.toOption = some false
  errors := results.countP fun r => r.toOption = none

/-- The walk from a cursor to the end of its range. -/
def scanRange (fromBlock currentBlock : Nat) : Program ScanResult :=
  if currentBlock ≤ fromBlock then pure {}
  else do
    let toBlock := min (fromBlock + maxBlockRange) currentBlock
    let events : List ChainLoanOpenedEvent ← call (Ask.loanOpenedEvents (fromBlock + 1) toBlock)
    let results ← settleEach (events.map insertMissingLoan)
    let _ ← call (Ask.saveCursor toBlock false)
    pure (countInserts results)

/-- The `try` block of `scanLoanOpenedEvents`: an empty cursor jumps to the present. -/
def scan : Program ScanResult := do
  let cursor : Option Nat ← call Ask.findCursor
  let currentBlock : Nat ← call Ask.latestLedger
  if cursor.getD 0 = 0 then do
    let _ ← call (Ask.saveCursor (currentBlock - bootstrapRange) true)
    scanRange (currentBlock - bootstrapRange) currentBlock
  else scanRange (cursor.getD 0) currentBlock

def scanLoanOpenedEvents : Program ScanResult := do
  let result ← settled scan
  pure (match result with
    | .ok counts => counts
    | .error _ => { errors := 1 })

end LoanBook

end Lendoor.Backend
