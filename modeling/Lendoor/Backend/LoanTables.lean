import Lendoor.Backend.LoanBook
import Mathlib.Data.List.Sort
import Mathlib.Data.Prod.Lex

/-! # The loan book's tables and the chain

The tables that the loan book's calls read and write, beside the loans that the chain has
seen. A wallet has one loan at a time on chain, so its closings follow its openings.
-/

namespace Lendoor.Backend

open Cctp (Text falsy)

namespace LoanBook

/-- A loan on chain: its opening, and its closing once it is repaid. -/
structure ChainLoan where
  opened : ChainLoanOpenedEvent
  closed : Option ChainLoanClosedEvent
  deriving DecidableEq

/-- The tables, the server's clock and the chain up to its latest ledger. -/
structure Book where
  now : Int
  ledger : Nat
  history : List ChainLoan
  loans : List Loan
  users : List User
  cursor : Option Nat
  nextId : Nat

def updateById (rows : List Loan) (row : Loan) : List Loan :=
  rows.map fun loan => if loan.id = row.id then row else loan

namespace Book

variable (s : Book)

/-! ## The chain -/

def loansOf (wallet : Text) : List ChainLoan :=
  s.history.filter fun loan => loan.opened.borrower = wallet

/-- The slot of a wallet: its last loan, until that is closed. -/
def isActive (wallet : Text) : Bool :=
  match (s.loansOf wallet).getLast? with
  | none => false
  | some loan => loan.closed.isNone

/-- The slot as it is read: the start of a loan that is over says nothing. -/
def ShowsSlot (wallet : Text) (slot : OnChainLoan) : Prop :=
  slot.active = s.isActive wallet ∧
    (slot.active = true → (s.loansOf wallet).getLast?.map (fun loan => loan.opened.timestamp) =
      some slot.start)

def closings (borrower : Text) : List ChainLoanClosedEvent :=
  (s.loansOf borrower).filterMap ChainLoan.closed

/-- `findLoanClosedEvent`, where the server reports every closing of the borrower in the
last 100000 ledgers: the latest one from the second of the start on. -/
def lastClosing (borrower : Text) (loanStartAt : Int) (currentLedger : Nat) :
    Option ChainLoanClosedEvent :=
  ((s.closings borrower).filter fun event =>
    currentLedger - 100000 ≤ event.ledger ∧ event.ledger ≤ currentLedger ∧
      loanStartAt / 1000 ≤ event.timestamp).maxOn?
        fun event => toLex (event.timestamp, event.ledger)

def openedBetween (fromLedger toLedger : Nat) : List ChainLoanOpenedEvent :=
  (s.history.map ChainLoan.opened).filter fun event =>
    fromLedger ≤ event.ledger ∧ event.ledger ≤ toLedger

/-! ## The tables -/

def userOf (wallet : Text) : Option User := s.users.find? fun user => user.walletAddress = wallet

def userById (id : Nat) : Option User := s.users.find? fun user => user.id = id

def rowById (id : Nat) : Option Loan := s.loans.find? fun loan => loan.id = id

def byOpenTx (txHash : Text) : Option Loan :=
  s.loans.find? fun loan => loan.openTxHash = some txHash

def byCloseTx (txHash : Text) : Option Loan :=
  s.loans.find? fun loan => loan.closeTxHash = some txHash

def onTimeLoans (userId : Nat) : Nat :=
  s.loans.countP fun loan => loan.userId = userId ∧ loan.repaidOnTime = true

/-- The rows that the sync works on, the newest first. -/
def unsettledLoans : List (Loan × Option User) :=
  ((s.loans.filter fun loan => loan.closeTxHash = none).insertionSort fun a b =>
    b.startAt ≤ a.startAt).map
    fun loan => (loan, s.userById loan.userId)

def saveUser (user : User) : Book :=
  { s with users := s.users.map fun other => if other.id = user.id then user else other }

def saveLoan (row : Loan) : Book := { s with loans := updateById s.loans row }

/-- A row for a new loan. -/
def insert (row : Loan) : Book := { s with loans := s.loans ++ [row], nextId := s.nextId + 1 }

/-! ### The transactions -/

/-- A defaulted row that nobody closed is closed with a hash of its own. -/
def autoClose (now : Int) (userId : Nat) (loan : Loan) : Loan :=
  if loan.userId = userId ∧ (loan.status = .defaulted ∨ loan.status = .defaultedInGrace) ∧
      loan.closedAt = none ∧ loan.closeTxHash = none then
    { loan with
      status := .repaidLate
      repaidOnTime := false
      closedAt := some now
      closeTxHash := some ("SYNTHETIC_ORPHAN_AUTOCLOSE_".toList ++ (Nat.repr loan.id).toList) }
  else loan

/-- The transaction of `informLoanOpened`. -/
def openTransaction (opening : Opening) : Loan × Book :=
  match s.loans.find? fun loan => loan.userId = opening.userId ∧ loan.status = .open ∧
    loan.closedAt = none with
  | some existingOpen => (existingOpen, s)
  | none =>
      match s.byOpenTx opening.txHash with
      | some existingByTx => (existingByTx, s)
      | none =>
          let row :=
            informedLoan s.nextId opening.userId opening.wallet opening.principalDec opening.tenor
            opening.feeBps opening.txHash s.now
          (row, insert { s with loans := s.loans.map (autoClose s.now opening.userId) } row)

/-- `REPAID_ON_TIME_GRACE_MS` -/
def repaidOnTimeGrace : Int := 24 * 60 * 60 * 1000

/-- `DEFAULT_LATE_PERIOD_MS` -/
def defaultLatePeriod : Int := repaidOnTimeGrace + 15 * 24 * 60 * 60 * 1000

/-- A repayment at a time is on time within a day of the due date. -/
def onTime (dueAt time : Int) : Bool := time - dueAt ≤ repaidOnTimeGrace

def postDefault (dueAt time : Int) : Bool := defaultLatePeriod < time - dueAt

/-- The row that a repayment may close: the newest one that is not settled. -/
def repayable (userId : Nat) : Option Loan :=
  (s.loans.filter fun loan => loan.userId = userId ∧
    (loan.status = .open ∨ loan.status = .defaulted ∨ loan.status = .defaultedInGrace) ∧
      loan.closeTxHash = none).maxOn? Loan.startAt

/-- `toFixed(6)` of the units that the chain reports, or the request's amount. -/
def amountPaid (repayment : Repayment) (amountPaidDec : ℚ) : ℚ :=
  match repayment.chainPaidUnits with
  | some units => ⌊fromUnits units * 10 ^ 6 + 1 / 2⌋ / 10 ^ 6
  | none => formatAmount amountPaidDec

def repaidRow (loan : Loan) (amount : ℚ) (txHash : Option Text) (now : Int) : Loan :=
  { loan with
    amountPaid := amount
    closedAt := some now
    status := if onTime loan.dueAt now = true then .repaidOnTime else .repaidLate
    repaidOnTime := onTime loan.dueAt now
    closeTxHash := txHash }

/-- The hash of a repayment is on a row: the unique index refuses another. -/
def hashTaken (txHash : Option Text) : Bool :=
  match txHash with
  | none => false
  | some txHash => (s.byCloseTx txHash).isSome

/-- The transaction of `processRepayment`, where it goes through. -/
def repayTransaction (sdk : LoanSdk) (repayment : Repayment) : Option (Repaid × Book) :=
  match s.repayable repayment.user.id, parseAmountHuman sdk repayment.amountPaidHuman with
  | some loan, .ok amountPaidDec =>
      if s.hashTaken repayment.txHash = true then none
      else
        let row := repaidRow loan (amountPaid repayment amountPaidDec) repayment.txHash s.now
        let closed := s.saveLoan row
        some (⟨row, row.repaidOnTime, postDefault loan.dueAt s.now⟩,
          if postDefault loan.dueAt s.now = true ∧ repayment.user.hadDefaultEver = false then
            closed.saveUser { repayment.user with hadDefaultEver := true }
          else closed)
  | _, _ => none

/-- The row once the sync has reconciled it with an event. -/
def reconciledRow (loan : Loan) (event : ChainLoanClosedEvent) : Loan :=
  let amountPaid := fromUnits event.amountPaid
  let repaidOnTime := onTime loan.dueAt (event.timestamp * 1000)
  let paidExtra := amountPaid - loan.amountDueAtOpen
  { loan with
    amountPaid := amountPaid
    closeTxHash := some event.txHash
    closedAt := some (event.timestamp * 1000)
    repaidOnTime := repaidOnTime
    status := if repaidOnTime = true then .repaidOnTime else .repaidLate
    syncedByChain := true
    lateFeesCollectedUsd := some (if repaidOnTime = false ∧
        repaidOnTimeGrace < event.timestamp * 1000 - loan.dueAt ∧ 0 < paidExtra then paidExtra
        else 0) }

/-- Another row of the wallet began after this one and no later than the event. -/
def closerLoan (loan : Loan) (event : ChainLoanClosedEvent) : Option Loan :=
  (s.loans.filter fun other => other.borrowerAddress = loan.borrowerAddress ∧
    loan.startAt + 1 ≤ other.startAt ∧ other.startAt ≤ event.timestamp * 1000).maxOn? Loan.startAt

/-- The sync leaves a row alone that has its receipt, or whose event is another row's. -/
def leavesAlone (loan : Loan) (event : ChainLoanClosedEvent) : Bool :=
  falsy loan.closeTxHash = false ||
    (s.closerLoan loan event).any (fun closer => closer.id ≠ loan.id) ||
      (s.byCloseTx event.txHash).any fun other => other.id ≠ loan.id

/-- The transaction of `reconcileLoan`. -/
def reconcileTransaction (loanId : Nat) (eventData : Option ChainLoanClosedEvent) :
    Option (Loan × Bool) × Book :=
  match s.rowById loanId, eventData with
  | some freshLoan, some event =>
      if s.leavesAlone freshLoan event = true then (none, s)
      else
        let row := reconciledRow freshLoan event
        (some (row, row.repaidOnTime), s.saveLoan row)
  | _, _ => (none, s)

/-- The insert of `insertMissingLoan`, which the unique index may ignore. -/
def insertMissing (userId : Nat) (event : ChainLoanOpenedEvent) : Option Nat × Book :=
  match s.byOpenTx event.txHash with
  | some _ => (none, s)
  | none => (some s.nextId, s.insert (missingLoan s.nextId userId event))

/-! ## What the calls meet -/

/-- `verifyRepayByTxHash`: a transaction that the server has is told by its events. -/
def Checks (txHash wallet : Text) : RepayCheck → Prop
  | .verified paidUnits => ∃ event ∈ s.closings wallet, event.txHash = txHash ∧
      event.amountPaid = paidUnits
  | .reverted | .noMatch => ∀ event ∈ s.closings wallet, event.txHash ≠ txHash
  | .noReceipt | .rpcError => True

/-- A call that goes through: its answer, and the book it leaves. -/
def Does (sdk : LoanSdk) : (ask : Ask) → Answer ask → Book → Prop
  | .schedule, _, s' => s' = s
  | .findUser wallet, user, s' => user = s.userOf wallet ∧ s' = s
  | .findBorrower event, user, s' => user = s.userOf event.borrower ∧ s' = s
  | .findUserById id, user, s' => user = s.userById id ∧ s' = s
  | .saveUser user, _, s' => s' = s.saveUser user
  | .countOnTime userId, n, s' => n = s.onTimeLoans userId ∧ s' = s
  | .giveCreditScoreAndLimit _ _ _, _, s' => s' = s
  | .verifyLoanOpened txHash wallet, matched, s' =>
      (matched = true → ∃ loan ∈ s.loansOf wallet, loan.opened.txHash = txHash) ∧ s' = s
  | .verifyRepay txHash wallet, check, s' => s.Checks txHash wallet check ∧ s' = s
  | .readLoanOnChain wallet, slot, s' => (∀ shown, slot = some shown → s.ShowsSlot wallet shown) ∧
      s' = s
  | .previewLoanWithLate _, _, s' => s' = s
  | .findByOpenTx txHash, row, s' => row = s.byOpenTx txHash ∧ s' = s
  | .findByCloseTx txHash, row, s' => row = s.byCloseTx txHash ∧ s' = s
  | .feeBpsForTerm _ _, _, s' => s' = s
  | .openTransaction opening, row, s' => (row, s') = s.openTransaction opening
  | .repayTransaction repayment, repaid, s' => s.repayTransaction sdk repayment = some (repaid, s')
  | .findUnsettled, rows, s' => rows = s.unsettledLoans ∧ s' = s
  | .latestLedger, n, s' => n = s.ledger ∧ s' = s
  | .readLoanFull wallet, slot, s' => (∀ shown, slot = some shown → s.ShowsSlot wallet shown) ∧
      s' = s
  | .findLoanClosed borrower loanStartAt currentLedger, event, s' =>
      event = s.lastClosing borrower loanStartAt currentLedger ∧ s' = s
  | .reconcileTransaction loanId eventData, result, s' =>
      (result, s') = s.reconcileTransaction loanId eventData
  | .findCursor, cursor, s' => cursor = s.cursor ∧ s' = s
  | .saveCursor block _, _, s' => s' = { s with cursor := some block }
  | .loanOpenedEvents fromLedger toLedger, events, s' =>
      events = s.openedBetween fromLedger toLedger ∧ s' = s
  | .insertMissing userId event, insertedId, s' => (insertedId, s') = s.insertMissing userId event

end Book

/-- A call goes through, or it throws and changes nothing. -/
def Responds (sdk : LoanSdk) (s : Book) : Asked → Book → Prop
  | ⟨_, .error _⟩, s' => s' = s
  | ⟨ask, .ok answer⟩, s' => s.Does sdk ask answer s'

variable {sdk : LoanSdk} {s s' : Book}

theorem Responds.error {ask : Ask} {error : HttpError} (h : Responds sdk s ⟨ask, .error error⟩ s') :
    s' = s := h

theorem Responds.ok {ask : Ask} {answer : Answer ask} (h : Responds sdk s ⟨ask, .ok answer⟩ s') :
    s.Does sdk ask answer s' := h

/-! ## What the transactions leave -/

/-- The transaction of `informLoanOpened` writes a row, or nothing. -/
theorem openTransaction_inv {opening : Opening} {row : Loan}
    (h : (row, s') = s.openTransaction opening) :
    s' = s ∨ s.byOpenTx opening.txHash = none ∧
      s' = Book.insert { s with loans := s.loans.map (Book.autoClose s.now opening.userId) }
        (informedLoan s.nextId opening.userId opening.wallet opening.principalDec
          opening.tenor opening.feeBps
          opening.txHash s.now) := by
  unfold Book.openTransaction at h
  split at h
  · cases h
    exact .inl rfl
  · split at h
    · cases h
      exact .inl rfl
    · rename_i hnone
      cases h
      exact .inr ⟨hnone, rfl⟩

/-- The transaction of `processRepayment` closes the row that can be repaid. -/
theorem repayTransaction_inv {repayment : Repayment} {repaid : Repaid}
    (h : s.repayTransaction sdk repayment = some (repaid, s')) :
    ∃ loan amount, s.repayable repayment.user.id = some loan ∧
      repaid = ⟨Book.repaidRow loan amount repayment.txHash s.now, Book.onTime loan.dueAt s.now,
        Book.postDefault loan.dueAt s.now⟩ ∧
      (s' = s.saveLoan (Book.repaidRow loan amount repayment.txHash s.now) ∨
        s' = (s.saveLoan (Book.repaidRow loan amount repayment.txHash s.now)).saveUser
          { repayment.user with hadDefaultEver := true }) := by
  unfold Book.repayTransaction at h
  split at h
  · rename_i loan amountPaidDec hnewest hamount
    split at h
    · cases h
    · dsimp only at h
      cases h
      refine ⟨loan, _, hnewest, rfl, ?_⟩
      split
      · exact .inr rfl
      · exact .inl rfl
  · cases h

/-- The transaction of `reconcileLoan` closes the row with the event, or leaves it alone. -/
theorem reconcileTransaction_inv {loanId : Nat} {eventData : Option ChainLoanClosedEvent}
    {result : Option (Loan × Bool)}
    (h : (result, s') = s.reconcileTransaction loanId eventData) :
    s' = s ∨ ∃ row event, s.rowById loanId = some row ∧ eventData = some event ∧
      s.leavesAlone row event = false ∧
      s' = s.saveLoan (Book.reconciledRow row event) := by
  unfold Book.reconcileTransaction at h
  split at h
  · rename_i row event hrow
    split at h
    · cases h
      exact .inl rfl
    · rename_i halone
      cases h
      exact .inr ⟨row, event, hrow, rfl, by simpa using halone, rfl⟩
  · cases h
    exact .inl rfl

theorem insertMissing_inv {userId : Nat} {event : ChainLoanOpenedEvent} {insertedId : Option Nat}
    (h : (insertedId, s') = s.insertMissing userId event) :
    (s.byOpenTx event.txHash ≠ none ∧ s' = s) ∨
      s.byOpenTx event.txHash = none ∧ s' = s.insert (missingLoan s.nextId userId event) := by
  unfold Book.insertMissing at h
  split at h
  · rename_i row hrow
    cases h
    exact .inl ⟨by simp [hrow], rfl⟩
  · rename_i hnone
    cases h
    exact .inr ⟨hnone, rfl⟩

/-! ## A world where nothing fails -/

/-- The first closing of the wallet in a transaction. -/
def Book.checkRepay (s : Book) (txHash wallet : Text) : RepayCheck :=
  match (s.closings wallet).find? fun event => event.txHash = txHash with
  | some event => .verified event.amountPaid
  | none => .noMatch

def Book.readSlot (s : Book) (wallet : Text) : OnChainLoan :=
  ⟨s.isActive wallet, ((s.loansOf wallet).getLast?.map fun loan => loan.opened.timestamp).getD 0⟩

/-- Every call goes through, with the fee of the standard product, and writes to the chain
succeed. -/
def smoothWorld (sdk : LoanSdk) (s : Book) : (ask : Ask) → Except HttpError (Answer ask) × Book
  | .schedule => (.ok [], s)
  | .findUser wallet => (.ok (s.userOf wallet), s)
  | .findBorrower event => (.ok (s.userOf event.borrower), s)
  | .findUserById id => (.ok (s.userById id), s)
  | .saveUser user => (.ok (), s.saveUser user)
  | .countOnTime userId => (.ok (s.onTimeLoans userId), s)
  | .giveCreditScoreAndLimit _ _ _ => (.ok 200, s)
  | .verifyLoanOpened txHash wallet =>
      (.ok ((s.loansOf wallet).any fun loan => loan.opened.txHash = txHash), s)
  | .verifyRepay txHash wallet => (.ok (s.checkRepay txHash wallet), s)
  | .readLoanOnChain wallet => (.ok (some (s.readSlot wallet)), s)
  | .previewLoanWithLate _ => (.ok none, s)
  | .findByOpenTx txHash => (.ok (s.byOpenTx txHash), s)
  | .findByCloseTx txHash => (.ok (s.byCloseTx txHash), s)
  | .feeBpsForTerm _ _ => (.ok 1500, s)
  | .openTransaction opening => (.ok (s.openTransaction opening).1, (s.openTransaction opening).2)
  | .repayTransaction repayment =>
      match s.repayTransaction sdk repayment with
      | some (repaid, s') => (.ok repaid, s')
      | none => (.error (notFound "No active loan found to repay"), s)
  | .findUnsettled => (.ok s.unsettledLoans, s)
  | .latestLedger => (.ok s.ledger, s)
  | .readLoanFull wallet => (.ok (some (s.readSlot wallet)), s)
  | .findLoanClosed borrower loanStartAt currentLedger =>
      (.ok (s.lastClosing borrower loanStartAt currentLedger), s)
  | .reconcileTransaction loanId eventData =>
      (.ok (s.reconcileTransaction loanId eventData).1, (s.reconcileTransaction loanId eventData).2)
  | .findCursor => (.ok s.cursor, s)
  | .saveCursor block _ => (.ok (), { s with cursor := some block })
  | .loanOpenedEvents fromLedger toLedger => (.ok (s.openedBetween fromLedger toLedger), s)
  | .insertMissing userId event =>
      (.ok (s.insertMissing userId event).1, (s.insertMissing userId event).2)

theorem Book.checkRepay_checks (s : Book) (txHash wallet : Text) :
    s.Checks txHash wallet (s.checkRepay txHash wallet) := by
  unfold Book.checkRepay
  cases hfound : (s.closings wallet).find? fun event => event.txHash = txHash with
  | some event =>
      exact ⟨event, List.mem_of_find?_eq_some hfound, by simpa using List.find?_some hfound, rfl⟩
  | none =>
      intro event hevent
      simpa using List.find?_eq_none.mp hfound event hevent

theorem Book.readSlot_shows (s : Book) (wallet : Text) :
    s.ShowsSlot wallet (s.readSlot wallet) := by
  refine ⟨rfl, fun hactive => ?_⟩
  unfold Book.readSlot Book.isActive at *
  cases hlast : (s.loansOf wallet).getLast? with
  | none => simp [hlast] at hactive
  | some loan => simp

theorem smoothWorld_responds (sdk : LoanSdk) (s : Book) (ask : Ask) :
    Responds sdk s ⟨ask, (smoothWorld sdk s ask).1⟩ (smoothWorld sdk s ask).2 := by
  cases ask with
  | verifyLoanOpened txHash wallet =>
      exact ⟨fun hmatched => by simpa [smoothWorld] using hmatched, rfl⟩
  | verifyRepay txHash wallet => exact ⟨s.checkRepay_checks txHash wallet, rfl⟩
  | readLoanOnChain wallet | readLoanFull wallet =>
      refine ⟨fun shown hshown => ?_, rfl⟩
      cases hshown
      exact s.readSlot_shows wallet
  | repayTransaction repayment =>
      cases hrepay : s.repayTransaction sdk repayment with
      | none => simp [smoothWorld, hrepay, Responds]
      | some done => simp [smoothWorld, hrepay, Responds, Book.Does]
  | schedule | saveUser | giveCreditScoreAndLimit | previewLoanWithLate | feeBpsForTerm
  | openTransaction | reconcileTransaction | saveCursor | insertMissing => rfl
  | _ => exact ⟨rfl, rfl⟩

end LoanBook

end Lendoor.Backend
