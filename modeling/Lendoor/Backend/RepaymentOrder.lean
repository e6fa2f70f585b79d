import Lendoor.Backend.LoanTables

/-! # Who records a repayment first

A repayment is recorded by `inform-repayment` at the server's time, or by the sync at the
time of the closing. Whichever comes second leaves what the first has written; whether the
two write the same depends on the user and on the times.
-/

namespace Lendoor.Backend

open Cctp (Text falsy)
open Async (call caught lift settled Exchange)

namespace LoanBook

open Book (onTime postDefault repaidRow reconciledRow)

variable (sdk : LoanSdk)

/-- Writes to the chain succeed, and a hash that is checked is verified. -/
def expected : (ask : Ask) → Answer ask → Bool
  | .giveCreditScoreAndLimit _ _ _, status => status = 200
  | .verifyRepay _ _, .verified _ => true
  | .verifyRepay _ _, _ => false
  | _, _ => true

def isSmooth : Asked → Bool
  | ⟨_, .error _⟩ => false
  | ⟨ask, .ok answer⟩ => expected ask answer

/-- Nothing throws, and everything is as expected. -/
def Smooth (s : Book) (x : Asked) (s' : Book) : Prop := Responds sdk s x s' ∧ isSmooth x = true

/-- The score and the limit of a user. -/
def credit (s : Book) (userId : Nat) : Option (Option Nat × Option ℚ) :=
  (s.userById userId).map fun user => (user.score, user.creditLimit)

/-- What a row says of its repayment. -/
def receipt (s : Book) (loanId : Nat) : Option (LoanStatus × Bool × Option Text) :=
  (s.rowById loanId).map fun loan => (loan.status, loan.repaidOnTime, loan.closeTxHash)

/-- A closing that either path can record: the row is the one the request closes, the event
is the one the sync finds for it, and nobody has its hash. -/
structure Recordable (s : Book) (user : User) (loan : Loan) (event : ChainLoanClosedEvent)
    (currentLedger : Nat)
    (dto : InformRepaymentDto) : Prop where
  wallet : normalizeWallet dto.walletAddress = .ok user.walletAddress
  hash : dto.txHash = some event.txHash
  hash_ne : event.txHash ≠ []
  known : s.userOf user.walletAddress = some user
  keyed : s.userById user.id = some user
  stored : s.rowById loan.id = some loan
  newest : s.repayable user.id = some loan
  closing : s.lastClosing loan.borrowerAddress loan.startAt currentLedger = some event
  closest : (s.closerLoan loan event).any (fun closer => closer.id ≠ loan.id) = false
  fresh : s.byCloseTx event.txHash = none

variable {sdk} {s s' : Book} {asked : List Asked} {user : User} {loan : Loan}

theorem Smooth.call_bind {α : Type} {ask : Ask} {f : Answer ask → Program α}
    {out : Except HttpError α}
    (h : Exec (Smooth sdk) s (call ask >>= f) asked out s') :
    ∃ a t rest, Smooth sdk s ⟨ask, .ok a⟩ t ∧ Exec (Smooth sdk) t (f a) rest out s' := by
  rcases h.call_bind_inv with ⟨error, -, hsmooth, -⟩ | ⟨a, t, rest, -, hsmooth, hrest⟩
  · cases hsmooth.2
  · exact ⟨a, t, rest, hsmooth, hrest⟩

theorem smooth_of_exec {α : Type} {p : Program α} {out : Except HttpError α}
    (h : Exec (Responds sdk) s p asked out s')
    (hall : asked.all isSmooth = true) : Exec (Smooth sdk) s p asked out s' := by
  induction h with
  | pure _ a => exact .pure _ a
  | throw _ error => exact .throw _ error
  | await hrespond _ ih =>
      rw [List.all_cons, Bool.and_eq_true] at hall
      exact .await ⟨hrespond, hall.1⟩ (ih hall.2)

/-! ## The tables after a save -/

/-- The first row of a key, after an update that keeps the keys. -/
theorem find?_map_key {β : Type} {rows : List β} {key : β → Nat} {update : β → β}
    (hkey : ∀ row, key (update row) = key row)
    (id : Nat) : (rows.map update).find? (fun row => key row = id) =
      (rows.find? fun row => key row = id).map update := by
  rw [List.find?_map]
  have hsame : (fun row => decide (key row = id)) ∘ update = fun row => decide (key row = id) :=
    funext fun row => by rw [Function.comp_apply, hkey]
  rw [hsame]

theorem userById_saveUser (id : Nat) :
    (s.saveUser user).userById id = (s.userById id).map fun other =>
      if other.id = user.id then user else other := by
  refine find?_map_key (fun other => ?_) id
  split
  · rename_i heq
    exact heq.symm
  · rfl

theorem rowById_saveLoan (id : Nat) :
    (s.saveLoan loan).rowById id = (s.rowById id).map fun row =>
      if row.id = loan.id then loan else row := by
  refine find?_map_key (fun row => ?_) id
  split
  · rename_i heq
    exact heq.symm
  · rfl

theorem userById_id {id : Nat} (h : s.userById id = some user) : user.id = id := by
  simpa using List.find?_some h

theorem rowById_id {id : Nat} (h : s.rowById id = some loan) : loan.id = id := by
  simpa using List.find?_some h

/-- A save of the user is what is read of them then. -/
theorem credit_saveUser {stored : User} (hstored : s.userById user.id = some stored) :
    credit (s.saveUser user) user.id = some (user.score, user.creditLimit) := by
  rw [credit, userById_saveUser, hstored, Option.map_some,
    if_pos (userById_id hstored), Option.map_some]

/-- The count of on-time loans sees of a saved row only whose it is and whether it was on
time. -/
theorem onTimeLoans_saveLoan {row row' : Loan} (hid : row.id = row'.id)
    (huser : row.userId = row'.userId)
    (hontime : row.repaidOnTime = row'.repaidOnTime) (userId : Nat) :
    (s.saveLoan row).onTimeLoans userId = (s.saveLoan row').onTimeLoans userId := by
  simp only [Book.onTimeLoans, Book.saveLoan, updateById, List.countP_map]
  refine List.countP_congr fun other _ => ?_
  simp only [Function.comp_apply, hid]
  split
  · rw [huser, hontime]
  · rfl

/-! ## What each path writes -/

/-- A score and a limit are saved where the limit is a whole number of units. -/
def saveCredit (s : Book) (user : User) (score : Nat) (limit : ℚ) : Book :=
  if limit.den = 1 then s.saveUser { user with score := some score, creditLimit := some limit }
  else s

theorem giveAndSave_exec {wallet : Text} {score : Nat} {limit : ℚ} {out : Except HttpError Unit}
    (h : Exec (Smooth sdk) s (giveAndSave wallet user score limit) asked out s') :
    s' = saveCredit s user score limit := by
  unfold saveCredit
  rcases h.lift_bind_inv with ⟨error, hunits, -, -, rfl⟩ | ⟨units, hunits, h⟩
  · unfold bigInt at hunits
    split at hunits
    · cases hunits
    · rename_i hfraction
      rw [if_neg hfraction]
  · unfold bigInt at hunits
    split at hunits
    · rename_i hwhole
      rw [if_pos hwhole]
      rcases Smooth.call_bind h with ⟨status, t, rest, ⟨hgiven, hstatus⟩, h⟩
      cases hgiven.ok
      rw [if_pos (of_decide_eq_true hstatus)] at h
      rcases h.call_inv with ⟨-, hsaved, hok⟩
      rcases out with error | saved
      · cases hok
      · exact hsaved.ok
    · cases hunits

theorem applyCredit_exec {wallet : Text} {repaid : Repaid} {onTimeLoanCount : Nat}
    {out : Except HttpError Unit}
    (h : Exec (Smooth sdk) s (applyCredit wallet user repaid onTimeLoanCount) asked out s') :
    s' = if repaid.repaidOnTime = true then
        saveCredit s (raiseXp user onTimeLoanCount)
        (upgraded user onTimeLoanCount).1 (upgraded user onTimeLoanCount).2
      else if repaid.isPostDefault = true then
        saveCredit s user (penalized user).1 (penalized user).2
      else s := by
  unfold applyCredit at h
  split at h
  · rename_i hontime
    rw [if_pos hontime]
    exact giveAndSave_exec h
  rename_i hlate
  rw [if_neg hlate]
  split at h
  · rename_i hpost
    rw [if_pos hpost]
    exact giveAndSave_exec h
  rename_i hgrace
  rw [if_neg hgrace]
  rcases h.lift_bind_inv with ⟨error, -, -, -, rfl⟩ | ⟨units, -, h⟩
  · rfl
  · rcases Smooth.call_bind h with ⟨status, t, rest, ⟨hgiven, -⟩, h⟩
    cases hgiven.ok
    exact (Exec.pure_iff.mp h).2.2

theorem updateCreditScore_exec {wallet : Text} {userId : Nat} {repaidOnTime : Bool}
    {out : Except HttpError Unit}
    (hkeyed : s.userById userId = some user)
    (h : Exec (Smooth sdk) s (updateCreditScore wallet userId repaidOnTime) asked out s') :
    s' = if repaidOnTime = true then
        saveCredit s (raiseXp user (s.onTimeLoans userId))
        (getStepForOnTimeLoans (s.onTimeLoans userId)).score
          (max (storedLimit user) (limitUnits (getStepForOnTimeLoans (s.onTimeLoans userId))))
      else saveCredit s user (user.score.getD 1) (storedLimit user) := by
  rcases Smooth.call_bind h with ⟨found, t, rest, ⟨hfound, -⟩, h⟩
  rcases hfound.ok with ⟨rfl, rfl⟩
  rw [hkeyed] at h
  dsimp only at h
  split at h
  · rename_i hontime
    rcases Smooth.call_bind h with ⟨n, t, rest, ⟨hcount, -⟩, h⟩
    rcases hcount.ok with ⟨rfl, rfl⟩
    rw [if_pos hontime]
    exact giveAndSave_exec h
  · rename_i hlate
    rw [if_neg hlate]
    exact giveAndSave_exec h

/-- A row that has its hash is left alone. -/
theorem reconcileLoan_settled {row : Loan} {hash : Text} {currentLedger : Nat}
    {out : Except HttpError Bool}
    (hrow : s.rowById loan.id = some row) (hhash : row.closeTxHash = some hash) (hne : hash ≠ [])
    (h : Exec (Smooth sdk) s (reconcileLoan loan user currentLedger) asked out s') : s' = s := by
  rcases Smooth.call_bind h with ⟨event, t, rest, ⟨hevent, -⟩, h⟩
  rw [hevent.ok.2] at h
  rcases Smooth.call_bind h with ⟨result, u, rest, ⟨hresult, -⟩, h⟩
  have hdone : (result, u) = s.reconcileTransaction loan.id event := hresult.ok
  have hnone : s.reconcileTransaction loan.id event = (none, s) := by
    have hsettled : falsy row.closeTxHash = false := by
      rw [hhash]
      cases hash with
      | nil => exact absurd rfl hne
      | cons => rfl
    unfold Book.reconcileTransaction
    rw [hrow]
    cases event with
    | none => rfl
    | some event => exact if_pos (by simp [Book.leavesAlone, hsettled])
  rw [hnone] at hdone
  cases hdone
  exact (Exec.pure_iff.mp h).2.2

theorem reconcileLoan_exec {event : ChainLoanClosedEvent} {currentLedger : Nat}
    {dto : InformRepaymentDto}
    {out : Except HttpError Bool} (hready : Recordable s user loan event currentLedger dto)
    (hopen : loan.closeTxHash = none)
    (h : Exec (Smooth sdk) s (reconcileLoan loan user currentLedger) asked out s') :
    ∃ t, t = s.saveLoan (reconciledRow loan event) ∧
      s' = if onTime loan.dueAt (event.timestamp * 1000) = true then
          saveCredit t (raiseXp user (t.onTimeLoans user.id))
          (getStepForOnTimeLoans (t.onTimeLoans user.id)).score
            (max (storedLimit user) (limitUnits (getStepForOnTimeLoans (t.onTimeLoans user.id))))
        else saveCredit t user (user.score.getD 1) (storedLimit user) := by
  rcases Smooth.call_bind h with ⟨found, t, rest, ⟨hfound, -⟩, h⟩
  rw [hfound.ok.1, hfound.ok.2, hready.closing] at h
  rcases Smooth.call_bind h with ⟨result, u, rest, ⟨hresult, -⟩, h⟩
  have hdone : (result, u) = s.reconcileTransaction loan.id (some event) := hresult.ok
  have halone : s.leavesAlone loan event = false := by
    rw [Book.leavesAlone, hopen, hready.closest, hready.fresh]
    rfl
  unfold Book.reconcileTransaction at hdone
  rw [hready.stored] at hdone
  simp only [halone, Bool.false_eq_true, if_false] at hdone
  cases hdone
  refine ⟨_, rfl, ?_⟩
  dsimp only at h
  rcases h.bind_inv with ⟨error, hupdate, -⟩ | ⟨_, v, before, after, -, hupdate, hend⟩
  · rcases Exec.settled_inv hupdate with ⟨r, hout, -⟩
    cases hout
  · rcases Exec.settled_inv hupdate with ⟨r, -, hupdate⟩
    rw [(Exec.pure_iff.mp hend).2.2]
    exact updateCreditScore_exec hready.keyed hupdate

/-- A hash checks out. -/
theorem verifyByTxHash_exec {wallet hash : Text} {out : Except HttpError (Option Int)}
    (hne : hash ≠ [])
    (h : Exec (Smooth sdk) s (verifyByTxHash wallet (some hash)) asked out s') :
    (∃ paid, out = .ok (some paid)) ∧ s' = s := by
  unfold verifyByTxHash at h
  dsimp only at h
  rw [if_neg hne] at h
  rcases Smooth.call_bind h with ⟨check, t, rest, ⟨hcheck, hverified⟩, h⟩
  rw [hcheck.ok.2] at h
  cases check with
  | verified paid =>
      rcases Exec.pure_iff.mp h with ⟨-, rfl, rfl⟩
      exact ⟨⟨paid, rfl⟩, rfl⟩
  | noReceipt | reverted | noMatch | rpcError => cases hverified

theorem verifyRepaid_exec {wallet hash : Text} {out : Except HttpError (Option Int)}
    (hne : hash ≠ [])
    (h : Exec (Smooth sdk) s (verifyRepaid wallet (some hash)) asked out s') :
    (∃ paid, out = .ok (some paid)) ∧ s' = s := by
  rcases h.bind_inv with ⟨error, hverify, -⟩ | ⟨chainPaid, t, before, rest, -, hverify, h⟩
  · rcases (verifyByTxHash_exec hne hverify).1 with ⟨paid, hout⟩
    cases hout
  · rcases verifyByTxHash_exec hne hverify with ⟨⟨paid, hout⟩, rfl⟩
    cases hout
    rcases Exec.pure_iff.mp h with ⟨-, rfl, rfl⟩
    exact ⟨⟨paid, rfl⟩, rfl⟩

/-- A request with a hash gets to the rows of the hash. -/
theorem processRepayment_checked {dto : InformRepaymentDto} {wallet hash : Text}
    {out : Except HttpError (Loan × Bool)}
    (hwallet : normalizeWallet dto.walletAddress = .ok wallet)
    (hhash : dto.txHash = some hash) (hne : hash ≠ [])
    (h : Exec (Smooth sdk) s (processRepayment dto) asked out s') :
    (s.userOf wallet = none ∧ s' = s) ∨ ∃ user paid rest, s.userOf wallet = some user ∧
      Exec (Smooth sdk) s (match s.byCloseTx hash with
        | some loan => pure (loan, loan.repaidOnTime)
        | none => recordRepayment wallet user (some paid) dto) rest out s' := by
  unfold processRepayment at h
  rw [hwallet] at h
  rcases Smooth.call_bind h with ⟨found, t, rest, ⟨hfound, -⟩, h⟩
  rw [hfound.ok.1, hfound.ok.2] at h
  cases huser : s.userOf wallet with
  | none =>
      rw [huser] at h
      exact .inl ⟨rfl, (Exec.throw_iff.mp h).2.2⟩
  | some user =>
      rw [huser] at h
      dsimp only at h
      rw [hhash] at h
      rcases h.bind_inv with ⟨error, hverify, -⟩ | ⟨chainPaid, t, before, rest, -, hverify, h⟩
      · rcases (verifyRepaid_exec hne hverify).1 with ⟨paid, hout⟩
        cases hout
      rcases verifyRepaid_exec hne hverify with ⟨⟨paid, hout⟩, rfl⟩
      cases hout
      rcases h.caught_bind_inv with ⟨preview, v, rest, -, ⟨hpreview, -⟩, h⟩
      have hv : v = t := by
        cases preview with
        | error error => exact hpreview
        | ok answer => exact hpreview
      rw [hv] at h
      unfold findProcessed at h
      dsimp only at h
      rw [if_neg hne] at h
      rcases Smooth.call_bind h with ⟨existing, w, rest, ⟨hexisting, -⟩, h⟩
      rw [hexisting.ok.1, hexisting.ok.2] at h
      exact .inr ⟨user, paid, rest, rfl, h⟩

/-- A hash that a row has is answered from the row. -/
theorem processRepayment_settled {dto : InformRepaymentDto} {wallet hash : Text}
    {out : Except HttpError (Loan × Bool)}
    (hwallet : normalizeWallet dto.walletAddress = .ok wallet)
    (hhash : dto.txHash = some hash) (hne : hash ≠ [])
    (hrecorded : s.byCloseTx hash ≠ none)
    (h : Exec (Smooth sdk) s (processRepayment dto) asked out s') : s' = s := by
  rcases processRepayment_checked hwallet hhash hne h with ⟨-, hs⟩ | ⟨user, paid, rest, -, h⟩
  · exact hs
  · rcases Option.ne_none_iff_exists'.mp hrecorded with ⟨row, hrow⟩
    rw [hrow] at h
    exact (Exec.pure_iff.mp h).2.2

/-! ## The score and the limit -/

/-- The score and the limit after a save that goes through for whole limits only. -/
def creditAfter (user : User) (score : Nat) (limit : ℚ) : Option Nat × Option ℚ :=
  if limit.den = 1 then (some score, some limit) else (user.score, user.creditLimit)

/-- What `inform-repayment` leaves. -/
def informedCredit (user : User) (onTimeLoans : Nat) (dueAt now : Int) : Option Nat × Option ℚ :=
  if onTime dueAt now = true then
    creditAfter user (upgraded user onTimeLoans).1 (upgraded user onTimeLoans).2
  else if postDefault dueAt now = true then creditAfter user (penalized user).1 (penalized user).2
  else (user.score, user.creditLimit)

/-- What the sync leaves. -/
def syncedCredit (user : User) (onTimeLoans : Nat) (dueAt closedAt : Int) : Option Nat × Option ℚ :=
  if onTime dueAt closedAt = true then
    creditAfter user (getStepForOnTimeLoans onTimeLoans).score
      (max (storedLimit user) (limitUnits (getStepForOnTimeLoans onTimeLoans)))
  else creditAfter user (user.score.getD 1) (storedLimit user)

/-- The loans repaid on time, this one among them. -/
def onTimeWith (s : Book) (loan : Loan) : Nat :=
  (s.saveLoan { loan with repaidOnTime := true }).onTimeLoans loan.userId

theorem credit_saveCredit {score : Nat} {limit : ℚ}
    (h : credit s user.id = some (user.score, user.creditLimit)) :
    credit (saveCredit s user score limit) user.id = some (creditAfter user score limit) := by
  unfold saveCredit creditAfter
  split
  · rcases Option.map_eq_some_iff.mp h with ⟨stored, hstored, -⟩
    exact credit_saveUser hstored
  · exact h

theorem saveCredit_loans {score : Nat} {limit : ℚ} :
    (saveCredit s user score limit).loans = s.loans := by
  unfold saveCredit
  split <;> rfl

theorem credit_of_users {t : Book} (h : t.users = s.users) (userId : Nat) :
    credit t userId = credit s userId := by
  rw [credit, credit, Book.userById, Book.userById, h]

theorem credit_keyed (hkeyed : s.userById user.id = some user) :
    credit s user.id = some (user.score, user.creditLimit) := by
  rw [credit, hkeyed, Option.map_some]

theorem repayable_userId (h : s.repayable user.id = some loan) :
    loan.userId = user.id ∧ loan.closeTxHash = none := by
  have hmem := List.maxOn?_mem h
  simp only [List.mem_filter, decide_eq_true_eq] at hmem
  exact ⟨hmem.2.1, hmem.2.2.2⟩

theorem repayTransaction_some {repayment : Repayment} {repaid : Repaid} {t : Book}
    (hnewest : s.repayable repayment.user.id = some loan)
    (h : s.repayTransaction sdk repayment = some (repaid, t)) :
    ∃ amount, repaid = ⟨repaidRow loan amount repayment.txHash s.now, onTime loan.dueAt s.now,
      postDefault loan.dueAt s.now⟩ ∧
      t.loans = (s.saveLoan (repaidRow loan amount repayment.txHash s.now)).loans ∧
      (t.users = s.users ∨
        t.users = (s.saveUser { repayment.user with hadDefaultEver := true }).users) := by
  rcases repayTransaction_inv h with ⟨row, amount, hrow, hrepaid, ht⟩
  cases hnewest.symm.trans hrow
  refine ⟨amount, hrepaid, ?_⟩
  rcases ht with rfl | rfl
  · exact ⟨rfl, .inl rfl⟩
  · exact ⟨rfl, .inr rfl⟩

/-- A repayment that the request records. -/
theorem processRepayment_exec {event : ChainLoanClosedEvent} {currentLedger : Nat}
    {dto : InformRepaymentDto}
    {out : Except HttpError (Loan × Bool)} (hready : Recordable s user loan event currentLedger dto)
    (h : Exec (Smooth sdk) s (processRepayment dto) asked out s') :
    (∃ amount, s'.loans = (s.saveLoan (repaidRow loan amount (some event.txHash) s.now)).loans) ∧
      credit s' user.id = some (informedCredit user (onTimeWith s loan) loan.dueAt s.now) := by
  rcases processRepayment_checked hready.wallet hready.hash hready.hash_ne h with ⟨hnone, -⟩ |
    ⟨found, paid, rest, hfound, h⟩
  · rw [hready.known] at hnone
    cases hnone
  rw [hready.known] at hfound
  cases hfound
  rw [hready.fresh] at h
  rcases Smooth.call_bind h with ⟨repaid, t, rest, ⟨hrepaid, -⟩, h⟩
  have hdone : s.repayTransaction sdk ⟨user, some paid, dto.amountPaidHuman, dto.txHash⟩ =
      some (repaid, t) := hrepaid.ok
  rcases repayTransaction_some hready.newest hdone with ⟨amount, rfl, hloans, husers⟩
  rw [hready.hash] at hloans h
  have hcredit : credit t user.id = some (user.score, user.creditLimit) := by
    rcases husers with husers | husers
    · rw [credit_of_users husers, credit_keyed hready.keyed]
    · have hkeyed : s.userById ({ user with hadDefaultEver := true } : User).id = some user :=
        hready.keyed
      rw [credit_of_users husers]
      exact credit_saveUser hkeyed
  rcases Smooth.call_bind h with ⟨n, u, rest, ⟨hcount, -⟩, h⟩
  rw [hcount.ok.1, hcount.ok.2] at h
  rcases h.bind_inv with ⟨error, hcaught, -⟩ | ⟨_, v, before, rest, -, hcaught, h⟩
  · rcases Exec.settled_inv hcaught with ⟨r, hout, -⟩
    cases hout
  rcases Exec.settled_inv hcaught with ⟨r, -, happlied⟩
  rcases Smooth.call_bind h with ⟨fresh, w, rest, ⟨hfresh, -⟩, h⟩
  rw [(Exec.pure_iff.mp h).2.2, hfresh.ok.2, applyCredit_exec happlied]
  have hcounted : onTime loan.dueAt s.now = true → t.onTimeLoans user.id = onTimeWith s loan := by
    intro hontime
    have hrow : (repaidRow loan amount (some event.txHash) s.now).repaidOnTime = true := hontime
    have hsame : t.onTimeLoans user.id =
        (s.saveLoan (repaidRow loan amount (some event.txHash) s.now)).onTimeLoans user.id := by
      rw [Book.onTimeLoans, hloans]
      rfl
    rw [hsame, onTimeWith, ← (repayable_userId hready.newest).1]
    refine onTimeLoans_saveLoan ?_ ?_ ?_ loan.userId
    · rfl
    · rfl
    · exact hrow
  have hkept : ∀ t' : Book, t'.loans = t.loans →
      ∃ amount, t'.loans = (s.saveLoan (repaidRow loan amount (some event.txHash) s.now)).loans :=
    fun t' ht' => ⟨amount, ht'.trans hloans⟩
  unfold informedCredit
  dsimp only
  split
  · rename_i hontime
    rw [hcounted hontime]
    exact ⟨hkept _ saveCredit_loans, credit_saveCredit hcredit⟩
  split
  · exact ⟨hkept _ saveCredit_loans, credit_saveCredit hcredit⟩
  · exact ⟨hkept t rfl, hcredit⟩

/-- A repayment that the sync records. -/
theorem reconcileLoan_records {event : ChainLoanClosedEvent} {currentLedger : Nat}
    {dto : InformRepaymentDto}
    {out : Except HttpError Bool} (hready : Recordable s user loan event currentLedger dto)
    (h : Exec (Smooth sdk) s (reconcileLoan loan user currentLedger) asked out s') :
    s'.loans = (s.saveLoan (reconciledRow loan event)).loans ∧
      credit s' user.id =
        some (syncedCredit user (onTimeWith s loan) loan.dueAt (event.timestamp * 1000)) := by
  rcases repayable_userId hready.newest with ⟨huser, hopen⟩
  rcases reconcileLoan_exec hready hopen h with ⟨t, rfl, hs'⟩
  have hcredit : credit (s.saveLoan (reconciledRow loan event)) user.id =
      some (user.score, user.creditLimit) :=
    (credit_of_users rfl user.id).trans (credit_keyed hready.keyed)
  rw [hs']
  unfold syncedCredit
  split
  · rename_i hontime
    have hrow : (reconciledRow loan event).repaidOnTime = true := hontime
    have hcounted : (s.saveLoan (reconciledRow loan event)).onTimeLoans user.id =
        onTimeWith s loan := by
      rw [onTimeWith, ← huser]
      refine onTimeLoans_saveLoan ?_ ?_ ?_ loan.userId
      · rfl
      · rfl
      · exact hrow
    rw [hcounted]
    exact ⟨saveCredit_loans, credit_saveCredit hcredit⟩
  · exact ⟨saveCredit_loans, credit_saveCredit hcredit⟩

/-! ## When the order does not matter -/

/-- The limit that is raised on, as `inform-repayment` reads it. -/
def currentLimit (user : User) : ℚ := user.creditLimit.getD defaultLimit

/-- The two paths agree on a user and the times. -/
def OrderFree (user : User) (onTimeLoans : Nat) (dueAt now closedAt : Int) : Prop :=
  onTime dueAt now = onTime dueAt closedAt ∧
    if onTime dueAt now = true then
      (getStepForOnTimeLoans onTimeLoans).score ≤ user.score.getD 1 + 1 ∨
        ((currentLimit user).den ≠ 1 ∧
          limitUnits (getStepForOnTimeLoans onTimeLoans) < currentLimit user)
    else if postDefault dueAt now = true then user.score.getD 1 = 1 ∧
      storedLimit user = defaultLimit
    else (storedLimit user).den ≠ 1 ∨
      (user.score ≠ none ∧ user.creditLimit = some (storedLimit user))

theorem limitUnits_den (step : CreditLadderStep) : (limitUnits step).den = 1 := Rat.den_natCast _

theorem defaultLimit_le (onTimeLoans : Nat) :
    defaultLimit ≤ limitUnits (getStepForOnTimeLoans onTimeLoans) := by
  have hall : (creditLadder.all fun step => defaultCreditLimit ≤ toUnits step.limitUsdc) =
      true := by decide
  have hle := of_decide_eq_true (List.all_eq_true.mp hall _ (getStepForOnTimeLoans_mem onTimeLoans))
  exact Nat.cast_le.mpr hle

/-- Above the default the two readings of the limit are one. -/
theorem max_storedLimit (user : User) {limit : ℚ} (hle : defaultLimit ≤ limit) :
    max (storedLimit user) limit = max (currentLimit user) limit := by
  unfold storedLimit currentLimit
  cases user.creditLimit with
  | none => rfl
  | some stored =>
      dsimp only [Option.getD_some]
      split
      · rename_i hzero
        have hnonneg : (0 : ℚ) ≤ limit := le_trans (Nat.cast_nonneg _) hle
        rw [hzero, max_eq_right hle, max_eq_right hnonneg]
      · rfl

theorem den_max {a b : ℚ} (hb : b.den = 1) : (max a b).den = 1 ↔ ¬(a.den ≠ 1 ∧ b < a) := by
  rcases lt_or_ge b a with hlt | hge
  · rw [max_eq_left (le_of_lt hlt)]
    simp [hlt]
  · rw [max_eq_right hge]
    simp [hb, not_lt.mpr hge]

/-- A score and a whole limit differ from what a user has whose limit is a fraction. -/
theorem creditAfter_ne_kept {score : Nat} {limit stored : ℚ} (hwhole : limit.den = 1)
    (hstored : user.creditLimit = some stored) (hfraction : stored.den ≠ 1) :
    creditAfter user score limit ≠ (user.score, user.creditLimit) := by
  rw [creditAfter, if_pos hwhole, hstored]
  intro h
  have hlimit : limit = stored := Option.some.inj (Prod.mk.inj h).2
  rw [← hlimit] at hfraction
  exact hfraction hwhole

/-- A limit that is a fraction is stored. -/
theorem creditLimit_of_fraction (h : (currentLimit user).den ≠ 1) :
    user.creditLimit = some (currentLimit user) := by
  unfold currentLimit at h ⊢
  cases hlimit : user.creditLimit with
  | none =>
      rw [hlimit] at h
      exact absurd (Rat.den_natCast _) h
  | some limit => rfl

theorem upgraded_score (user : User) (onTimeLoans : Nat) : (upgraded user onTimeLoans).1 =
    if user.score.getD 1 + 1 < (getStepForOnTimeLoans onTimeLoans).score then user.score.getD 1 + 1
    else (getStepForOnTimeLoans onTimeLoans).score := rfl

theorem upgraded_limit (user : User) (onTimeLoans : Nat) : (upgraded user onTimeLoans).2 =
    max (currentLimit user) (limitUnits (getStepForScore (upgraded user onTimeLoans).1)) := rfl

/-- On time, the paths differ where the score is capped. -/
theorem onTimeCredit_iff (user : User) (onTimeLoans : Nat) :
    creditAfter user (upgraded user onTimeLoans).1 (upgraded user onTimeLoans).2 =
        creditAfter user (getStepForOnTimeLoans onTimeLoans).score
          (max (storedLimit user) (limitUnits (getStepForOnTimeLoans onTimeLoans))) ↔
      (getStepForOnTimeLoans onTimeLoans).score ≤ user.score.getD 1 + 1 ∨
        ((currentLimit user).den ≠ 1 ∧ limitUnits (getStepForOnTimeLoans onTimeLoans) <
          currentLimit user) := by
  rw [max_storedLimit user (defaultLimit_le onTimeLoans), upgraded_limit, upgraded_score]
  by_cases hcapped : user.score.getD 1 + 1 < (getStepForOnTimeLoans onTimeLoans).score
  · rw [if_pos hcapped]
    have hlower : limitUnits (getStepForScore (user.score.getD 1 + 1)) ≤
        limitUnits (getStepForOnTimeLoans onTimeLoans) := by
      have hmono := getStepForScore_mono (le_of_lt hcapped)
      rw [getStepForScore_score] at hmono
      exact Nat.cast_le.mpr (Nat.mul_le_mul_right _ hmono)
    by_cases hfraction : (currentLimit user).den ≠ 1 ∧
      limitUnits (getStepForOnTimeLoans onTimeLoans) < currentLimit user
    · -- neither path saves anything
      refine ⟨fun _ => .inr hfraction, fun _ => ?_⟩
      rw [max_eq_left (le_of_lt hfraction.2), max_eq_left (le_trans hlower (le_of_lt hfraction.2)),
        creditAfter, creditAfter, if_neg hfraction.1, if_neg hfraction.1]
    · have hsaved := (den_max (limitUnits_den _)).mpr hfraction
      constructor
      · intro hequal
        exfalso
        by_cases hwhole :
          (max (currentLimit user) (limitUnits (getStepForScore (user.score.getD 1 + 1)))).den = 1
        · rw [creditAfter, creditAfter, if_pos hwhole, if_pos hsaved] at hequal
          have hscore := Option.some.inj (Prod.mk.inj hequal).1
          rw [hscore] at hcapped
          exact lt_irrefl _ hcapped
        · have hstored : (currentLimit user).den ≠ 1 := by
            rw [den_max (limitUnits_den _), not_not] at hwhole
            exact hwhole.1
          rw [creditAfter, if_neg hwhole] at hequal
          exact creditAfter_ne_kept hsaved (creditLimit_of_fraction hstored) hstored hequal.symm
      · rintro (hle | hboth)
        · exact absurd hcapped (Nat.not_lt.mpr hle)
        · exact absurd hboth hfraction
  · rw [if_neg hcapped, getStepForScore_score]
    exact ⟨fun _ => .inl (Nat.le_of_not_lt hcapped), fun _ => rfl⟩

theorem storedLimit_fraction (h : (storedLimit user).den ≠ 1) :
    user.creditLimit = some (storedLimit user) := by
  unfold storedLimit at h ⊢
  split at h
  · exact absurd (Rat.den_natCast _) h
  · split at h
    · exact absurd (Rat.den_natCast _) h
    · rename_i stored hstored hzero
      rw [if_neg hzero]
      exact hstored

/-- Past the default, the paths agree on who has nothing to lose. -/
theorem penaltyCredit_iff (user : User) :
    creditAfter user (penalized user).1 (penalized user).2 = creditAfter user (user.score.getD 1)
    (storedLimit user) ↔
      user.score.getD 1 = 1 ∧ storedLimit user = defaultLimit := by
  have hpenalty : creditAfter user (penalized user).1 (penalized user).2 =
      (some (penalized user).1, some (penalized user).2) := if_pos (limitUnits_den _)
  have hlowest : limitUnits (getStepForScore 1) = defaultLimit := by
    have hstep : toUnits (getStepForScore 1).limitUsdc = defaultCreditLimit := by decide
    exact congrArg (Nat.cast : Nat → ℚ) hstep
  by_cases hwhole : (storedLimit user).den = 1
  · rw [hpenalty, creditAfter, if_pos hwhole, Prod.mk.injEq, Option.some.injEq,
      Option.some.injEq, penalized]
    dsimp only
    constructor
    · rintro ⟨hscore, hlimit⟩
      have hone : user.score.getD 1 = 1 := by omega
      rw [hone] at hlimit
      exact ⟨hone, hlimit.symm.trans hlowest⟩
    · rintro ⟨hone, hlimit⟩
      rw [hone, hlimit]
      exact ⟨rfl, hlowest⟩
  · constructor
    · intro hequal
      have hkept : creditAfter user (user.score.getD 1) (storedLimit user) =
          (user.score, user.creditLimit) := if_neg hwhole
      exact absurd (hequal.trans hkept)
        (creditAfter_ne_kept (limitUnits_den _) (storedLimit_fraction hwhole) hwhole)
    · rintro ⟨-, hlimit⟩
      rw [hlimit] at hwhole
      exact absurd (Rat.den_natCast _) hwhole

/-- Late, `inform-repayment` leaves a user alone and the sync fills in what is missing. -/
theorem lateCredit_iff (user : User) :
    (user.score, user.creditLimit) = creditAfter user (user.score.getD 1) (storedLimit user) ↔
      (storedLimit user).den ≠ 1 ∨
        (user.score ≠ none ∧ user.creditLimit = some (storedLimit user)) := by
  unfold creditAfter
  split
  · rename_i hwhole
    rw [Prod.mk.injEq]
    constructor
    · rintro ⟨hscore, hlimit⟩
      refine .inr ⟨?_, hlimit⟩
      rw [hscore]
      simp
    · rintro (hfraction | ⟨hscore, hlimit⟩)
      · exact absurd hwhole hfraction
      · rcases Option.ne_none_iff_exists'.mp hscore with ⟨score, hscore⟩
        rw [hscore]
        exact ⟨rfl, hlimit⟩
  · rename_i hfraction
    exact ⟨fun _ => .inl hfraction, fun _ => rfl⟩

theorem informedCredit_iff {onTimeLoans : Nat} {dueAt now closedAt : Int}
    (htimes : onTime dueAt now = onTime dueAt closedAt) :
    informedCredit user onTimeLoans dueAt now = syncedCredit user onTimeLoans dueAt closedAt ↔
      OrderFree user onTimeLoans dueAt now closedAt := by
  unfold informedCredit syncedCredit OrderFree
  rw [← htimes]
  by_cases hontime : onTime dueAt now = true
  · simp only [if_pos hontime, true_and]
    exact onTimeCredit_iff user onTimeLoans
  · simp only [if_neg hontime, true_and]
    split
    · exact penaltyCredit_iff user
    · exact lateCredit_iff user

theorem rowById_saved {t : Book} {row stored : Loan} (hstored : s.rowById loan.id = some stored)
    (hid : row.id = loan.id)
    (ht : t.loans = (s.saveLoan row).loans) : t.rowById loan.id = some row := by
  have hsame : t.rowById loan.id = (s.saveLoan row).rowById loan.id := by
    rw [Book.rowById, Book.rowById, ht]
  rw [hsame, rowById_saveLoan, hstored, Option.map_some,
    if_pos ((rowById_id hstored).trans hid.symm)]

/-- The row and the user are left as by the other path. -/
def SameRecord (s t : Book) (loan : Loan) (user : User) : Prop :=
  receipt s loan.id = receipt t loan.id ∧ credit s user.id = credit t user.id

/-- **Who records a repayment first.** The request and then the sync leave what the sync and
then the request leave just where the two paths agree. Time may pass and the chain move on
between the two. -/
theorem repayment_order_iff {s a b a' b' a'' b'' : Book} {user : User} {loan : Loan}
    {event : ChainLoanClosedEvent}
    {ledger ledger' : Nat} {dto : InformRepaymentDto} {asked₁ asked₂ asked₃ asked₄ : List Asked}
    {out₁ out₄ : Except HttpError (Loan × Bool)} {out₂ out₃ : Except HttpError Bool}
    (hready : Recordable s user loan event ledger dto)
    (hinformed : Exec (Smooth sdk) s (processRepayment dto) asked₁ out₁ a)
    (ha : a'.loans = a.loans ∧ a'.users = a.users)
    (hleft : Exec (Smooth sdk) a' (reconcileLoan loan user ledger') asked₂ out₂ a'')
    (hsynced : Exec (Smooth sdk) s (reconcileLoan loan user ledger) asked₃ out₃ b)
    (hb : b'.loans = b.loans ∧ b'.users = b.users)
    (hanswered : Exec (Smooth sdk) b' (processRepayment dto) asked₄ out₄ b'') :
    SameRecord a'' b'' loan user ↔
      OrderFree user (onTimeWith s loan) loan.dueAt s.now (event.timestamp * 1000) := by
  rcases processRepayment_exec hready hinformed with ⟨⟨amount, haloans⟩, hacredit⟩
  rcases reconcileLoan_records hready hsynced with ⟨hbloans, hbcredit⟩
  have harow : a'.rowById loan.id = some (repaidRow loan amount (some event.txHash) s.now) := by
    refine rowById_saved hready.stored ?_ (ha.1.trans haloans)
    rfl
  have hbrow : b'.rowById loan.id = some (reconciledRow loan event) := by
    refine rowById_saved hready.stored ?_ (hb.1.trans hbloans)
    rfl
  -- what comes second changes nothing
  have ha'' : a'' = a' := reconcileLoan_settled harow rfl hready.hash_ne hleft
  have hrecorded : b'.byCloseTx event.txHash ≠ none := by
    intro hnone
    have hmem : reconciledRow loan event ∈ b'.loans := List.mem_of_find?_eq_some hbrow
    exact List.find?_eq_none.mp hnone _ hmem (decide_eq_true rfl)
  have hb'' : b'' = b' :=
    processRepayment_settled hready.wallet hready.hash hready.hash_ne hrecorded hanswered
  rw [SameRecord, ha'', hb'', receipt, receipt, harow, hbrow, credit_of_users ha.2,
    credit_of_users hb.2, hacredit, hbcredit]
  simp only [Option.map_some, Option.some.injEq]
  constructor
  · rintro ⟨hrow, hcredit⟩
    exact (informedCredit_iff (Prod.mk.inj (Prod.mk.inj hrow).2).1).mp hcredit
  · intro hfree
    refine ⟨?_, (informedCredit_iff hfree.1).mpr hfree⟩
    simp only [repaidRow, reconciledRow, hfree.1]

/-! ## A repayment on time, and one past the default -/

def orderSdk : LoanSdk := ⟨fun text => if text = ['1'] then some 1 else none⟩

def orderWallet : Text := '0' :: 'x' :: List.replicate 40 '1'

def orderDto : InformRepaymentDto := ⟨orderWallet, ['1'], some "close".toList⟩

def orderUser : User := ⟨1, orderWallet, some 3, some 40000000, 21, false⟩

/-- A loan over seven days. -/
def orderLoan : Loan where
  id := 1
  userId := 1
  borrowerAddress := orderWallet
  principal := 1
  amountDueAtOpen := 1
  amountPaid := 0
  tenorDays := 7
  feeBps := 0
  startAt := 0
  dueAt := 604800000
  status := .open
  repaidOnTime := false
  openTxHash := some "open".toList

def orderEvent (timestamp : Int) : ChainLoanClosedEvent :=
  ⟨orderWallet, 10000000, "close".toList, 20, timestamp⟩

/-- The loan was closed on chain, and now it is recorded. -/
def orderBook (closedAt now : Int) : Book where
  now := now
  ledger := 30
  history :=
    [⟨⟨orderWallet, 10000000, 10000000, 604800, 0, 10, "open".toList, 0⟩,
      some (orderEvent closedAt)⟩]
  loans := [orderLoan]
  users := [orderUser]
  cursor := none
  nextId := 2

def informs (s : Book) : List Asked × Except HttpError (Loan × Bool) × Book :=
  Exec.simulate (smoothWorld orderSdk) s (processRepayment orderDto)

def syncs (s : Book) : List Asked × Except HttpError Bool × Book :=
  Exec.simulate (smoothWorld orderSdk) s (reconcileLoan orderLoan orderUser 30)

theorem informs_exec {s : Book} (h : (informs s).1.all isSmooth = true) :
    Exec (Smooth orderSdk) s (processRepayment orderDto)
    (informs s).1 (informs s).2.1 (informs s).2.2 :=
  smooth_of_exec (Exec.of_simulate (smoothWorld_responds orderSdk) _ s) h

theorem syncs_exec {s : Book} (h : (syncs s).1.all isSmooth = true) :
    Exec (Smooth orderSdk) s (reconcileLoan orderLoan orderUser 30)
    (syncs s).1 (syncs s).2.1 (syncs s).2.2 :=
  smooth_of_exec (Exec.of_simulate (smoothWorld_responds orderSdk) _ s) h

theorem orderBook_recordable (closedAt now : Int)
    (hclosing : (orderBook closedAt now).lastClosing orderWallet 0 30 = some (orderEvent closedAt))
    (hclosest : (orderBook closedAt now).closerLoan orderLoan (orderEvent closedAt) = none) :
    Recordable (orderBook closedAt now) orderUser orderLoan (orderEvent closedAt) 30 orderDto where
  wallet := by decide
  hash := rfl
  hash_ne := by simp [orderEvent]
  known := rfl
  keyed := rfl
  stored := rfl
  newest := rfl
  closing := hclosing
  closest := by rw [hclosest]; rfl
  fresh := rfl

/-- A minute after a repayment on time the order does not matter. -/
theorem repayment_order_onTime :
    SameRecord (syncs (informs (orderBook 600000 600060000)).2.2).2.2
      (informs (syncs (orderBook 600000 600060000)).2.2).2.2 orderLoan orderUser := by
  refine (repayment_order_iff
    (orderBook_recordable 600000 600060000 (by decide +kernel) (by decide +kernel))
    (informs_exec (by decide +kernel)) ⟨rfl, rfl⟩ (syncs_exec (by decide +kernel))
    (syncs_exec (by decide +kernel)) ⟨rfl, rfl⟩
    (informs_exec (by decide +kernel))).mpr ⟨by decide, ?_⟩
  rw [if_pos (by decide)]
  exact .inl (by decide +kernel)

/-- Closed three weeks after it was due, and recorded a minute later. -/
def lateBook : Book := orderBook 2332800 2332860000

/-- The request takes two steps of the score, and the sync takes none. -/
theorem lateBook_credit :
    credit (syncs (informs lateBook).2.2).2.2 1 = some (some 1, some 10000000) ∧
      credit (informs (syncs lateBook).2.2).2.2 1 = some (some 3, some 40000000) := by
  constructor <;> decide +kernel

theorem repayment_order_late :
    Recordable lateBook orderUser orderLoan (orderEvent 2332800) 30 orderDto ∧
      ∃ a t b u asked₁ asked₂ asked₃ asked₄ out₁ out₂ out₃ out₄,
        Exec (Smooth orderSdk) lateBook (processRepayment orderDto) asked₁ out₁ a ∧
        Exec (Smooth orderSdk) a (reconcileLoan orderLoan orderUser 30) asked₂ out₂ t ∧
        Exec (Smooth orderSdk) lateBook (reconcileLoan orderLoan orderUser 30) asked₃ out₃ b ∧
        Exec (Smooth orderSdk) b (processRepayment orderDto) asked₄ out₄ u ∧
          ¬SameRecord t u orderLoan orderUser := by
  refine ⟨orderBook_recordable 2332800 2332860000 (by decide +kernel) (by decide +kernel), _, _, _,
    _, _, _, _, _, _, _, _, _, informs_exec (by decide +kernel), syncs_exec (by decide +kernel),
    syncs_exec (by decide +kernel), informs_exec (by decide +kernel), ?_⟩
  rintro ⟨-, hcredit⟩
  have hsame : credit (syncs (informs lateBook).2.2).2.2 1 =
      credit (informs (syncs lateBook).2.2).2.2 1 := hcredit
  rw [lateBook_credit.1, lateBook_credit.2] at hsame
  exact absurd hsame (by decide)

end LoanBook

end Lendoor.Backend
