import Lendoor.Backend.LoanTables
import Mathlib.Logic.Relation

/-! # Histories of the loan book

Requests, syncs and scans one after the other, while users join, ledgers close and time
passes. Whatever the order, a row is of a user, and of a loan that the user's wallet has
opened on chain.
-/

namespace Lendoor.Backend

open Cctp (Text)
open Async (AsksAfter)

namespace LoanBook

/-- What one transaction of a ledger changes on chain: a wallet opens a loan once all its
loans are closed, and an open loan is closed. -/
inductive ChainStep (ledger : Nat) (timestamp : Int) : List ChainLoan → List ChainLoan → Prop
  | opens {history : List ChainLoan} (event : ChainLoanOpenedEvent)
      (hledger : event.ledger = ledger)
      (htime : event.timestamp = timestamp)
      (hfree : ∀ loan ∈ history, loan.opened.borrower = event.borrower → loan.closed ≠ none) :
      ChainStep ledger timestamp history (history ++ [⟨event, none⟩])
  | closes {before after : List ChainLoan} {loan : ChainLoan} (event : ChainLoanClosedEvent)
      (hborrower : event.borrower = loan.opened.borrower) (hledger : event.ledger = ledger)
      (htime : event.timestamp = timestamp) (hopen : loan.closed = none) :
      ChainStep ledger timestamp (before ++ loan :: after)
      (before ++ { loan with closed := some event } :: after)

/-- What happens to the loan book. -/
inductive Move
  | informLoanOpened (dto : InformLoanDto)
  | informRepayment (dto : InformRepaymentDto)
  | syncLoansWithChain
  | scanLoanOpenedEvents
  | join (user : User)
  | closeLedger (ledger : Nat) (timestamp : Int)
  | wait (now : Int)
  deriving DecidableEq

/-- The book after a move. A request, a sync or a scan runs to its end, and any call of it
may throw. -/
inductive Moves (sdk : LoanSdk) : Book → Move → Book → Prop
  | informLoanOpened {s s' : Book} {dto : InformLoanDto} {asked : List Asked}
      {out : Except HttpError Nat} :
      Exec (Responds sdk) s (informLoanOpened sdk dto) asked out s' →
      Moves sdk s (.informLoanOpened dto) s'
  | informRepayment {s s' : Book} {dto : InformRepaymentDto} {asked : List Asked}
      {out : Except HttpError (Loan × Bool)} :
      Exec (Responds sdk) s (processRepayment dto) asked out s' →
      Moves sdk s (.informRepayment dto) s'
  | syncLoansWithChain {s s' : Book} {asked : List Asked} {out : Except HttpError Unit} :
      Exec (Responds sdk) s syncLoansWithChain asked out s' → Moves sdk s .syncLoansWithChain s'
  | scanLoanOpenedEvents {s s' : Book} {asked : List Asked} {out : Except HttpError ScanResult} :
      Exec (Responds sdk) s scanLoanOpenedEvents asked out s' → Moves sdk s .scanLoanOpenedEvents s'
  | join {s : Book} {user : User} (hnew : user.id ∉ s.users.map User.id) :
      Moves sdk s (.join user) { s with users := s.users ++ [user] }
  | closeLedger {s : Book} {ledger : Nat} {timestamp : Int} {history : List ChainLoan}
      (hlater : s.ledger < ledger)
      (hcloses : Relation.ReflTransGen (ChainStep ledger timestamp) s.history history) :
      Moves sdk s (.closeLedger ledger timestamp) { s with ledger := ledger, history := history }
  | wait {s : Book} {now : Int} (hlater : s.now ≤ now) : Moves sdk s (.wait now)
      { s with now := now }

/-- Before anybody joins. -/
def emptyBook (now : Int) (ledger : Nat) : Book where
  now := now
  ledger := ledger
  history := []
  loans := []
  users := []
  cursor := none
  nextId := 1

/-! ## What a call may write -/

def Ask.writes : Ask → Bool
  | .saveUser _ => true
  | .openTransaction _ => true
  | .repayTransaction _ => true
  | .reconcileTransaction _ _ => true
  | .saveCursor _ _ => true
  | .insertMissing _ _ => true
  | _ => false

/-- Who a user is. -/
def User.key (user : User) : Nat × Text := (user.id, user.walletAddress)

/-- Which loan a row is of. -/
def Loan.key (row : Loan) : Nat × Nat × Text × Option Text × Int :=
  (row.id, row.userId, row.borrowerAddress, row.openTxHash, row.startAt)

/-- The row was written for the loan. -/
def OpenedFor (loan : ChainLoan) (row : Loan) : Prop :=
  loan.opened.borrower = row.borrowerAddress ∧ row.openTxHash = some loan.opened.txHash

variable {sdk : LoanSdk} {s s' : Book}

theorem Book.Does.reads {ask : Ask} {answer : Answer ask} (h : s.Does sdk ask answer s')
    (hreads : ask.writes = false) :
    s' = s := by
  cases ask with
  | saveUser | openTransaction | repayTransaction | reconcileTransaction | saveCursor
  | insertMissing => cases hreads
  | schedule | giveCreditScoreAndLimit | previewLoanWithLate | feeBpsForTerm => exact h
  | _ => exact h.2

theorem Responds.reads {x : Asked} (h : Responds sdk s x s') (hreads : x.1.writes = false) :
    s' = s := by
  rcases x with ⟨ask, error | answer⟩
  · exact h
  · exact Book.Does.reads h hreads

theorem mem_updateById {rows : List Loan} {row row' : Loan} (h : row' ∈ updateById rows row) :
    row' = row ∨ row' ∈ rows := by
  rcases List.mem_map.mp h with ⟨loan, hloan, hrow⟩
  split at hrow
  · exact .inl hrow.symm
  · exact .inr (hrow ▸ hloan)

theorem autoClose_key (now : Int) (userId : Nat) (row : Loan) :
    (Book.autoClose now userId row).key = row.key := by
  unfold Book.autoClose
  split <;> rfl

/-! ## Rows are of users and of their loans -/

/-- A wallet has one open loan at most, its last. -/
def OneOpen (history : List ChainLoan) : Prop :=
  history.Pairwise fun earlier later => earlier.opened.borrower = later.opened.borrower →
    earlier.closed ≠ none

/-- A row is of a user and of a loan of theirs. -/
structure Linked (s : Book) : Prop where
  slots : OneOpen s.history
  ids : (s.users.map User.id).Nodup
  owners : ∀ row ∈ s.loans, (row.userId, row.borrowerAddress) ∈ s.users.map User.key
  origins : ∀ row ∈ s.loans, ∃ loan ∈ s.history, OpenedFor loan row

/-- What an exchange has shown, as the book stands. -/
def Learned (s : Book) : Asked → Prop
  | ⟨.findUser wallet, .ok (some user)⟩ => user.key ∈ s.users.map User.key ∧
      user.walletAddress = wallet
  | ⟨.findBorrower event, .ok (some user)⟩ => user.key ∈ s.users.map User.key ∧
      user.walletAddress = event.borrower
  | ⟨.findUserById _, .ok (some user)⟩ => user.key ∈ s.users.map User.key
  | ⟨.verifyLoanOpened txHash wallet, .ok true⟩ =>
      ∃ loan ∈ s.history, loan.opened.borrower = wallet ∧ loan.opened.txHash = txHash
  | ⟨.loanOpenedEvents _ _, .ok events⟩ => ∀ event ∈ events, ∃ loan ∈ s.history, loan.opened = event
  | _ => True

/-- What is written follows from what was read before. -/
def Grounded (past : List Asked) : Ask → Prop
  | .saveUser user => ∃ found : User, found.key = user.key ∧
      ((∃ wallet, ⟨.findUser wallet, .ok (some found)⟩ ∈ past) ∨
        ∃ id, ⟨.findUserById id, .ok (some found)⟩ ∈ past)
  | .openTransaction opening => (∃ found : User, found.id = opening.userId ∧
      ⟨.findUser opening.wallet, .ok (some found)⟩ ∈ past) ∧
        ⟨.verifyLoanOpened opening.txHash opening.wallet, .ok true⟩ ∈ past
  | .repayTransaction repayment => ∃ wallet, ⟨.findUser wallet, .ok (some repayment.user)⟩ ∈ past
  | .insertMissing userId event =>
      (∃ found : User, found.id = userId ∧ ⟨.findBorrower event, .ok (some found)⟩ ∈ past) ∧
      ∃ fromLedger toLedger, ∃ events : List ChainLoanOpenedEvent,
        ⟨.loanOpenedEvents fromLedger toLedger, .ok events⟩ ∈ past ∧ event ∈ events
  | _ => True

theorem Grounded.of_reads {past : List Asked} {ask : Ask} (hreads : ask.writes = false) :
    Grounded past ask := by
  cases ask with
  | saveUser | openTransaction | repayTransaction | insertMissing => cases hreads
  | _ => trivial

theorem Grounded.mono (past past' : List Asked) (ask : Ask) (hsub : past ⊆ past')
    (h : Grounded past ask) :
    Grounded past' ask := by
  cases ask with
  | saveUser user =>
      rcases h with ⟨found, hkey, ⟨wallet, hmem⟩ | ⟨id, hmem⟩⟩
      · exact ⟨found, hkey, .inl ⟨wallet, hsub hmem⟩⟩
      · exact ⟨found, hkey, .inr ⟨id, hsub hmem⟩⟩
  | openTransaction opening =>
      rcases h with ⟨⟨found, hid, hmem⟩, hverified⟩
      exact ⟨⟨found, hid, hsub hmem⟩, hsub hverified⟩
  | repayTransaction repayment =>
      rcases h with ⟨wallet, hmem⟩
      exact ⟨wallet, hsub hmem⟩
  | insertMissing userId event =>
      rcases h with ⟨⟨found, hid, hmem⟩, fromLedger, toLedger, events, hevents, hevent⟩
      exact ⟨⟨found, hid, hsub hmem⟩, fromLedger, toLedger, events, hsub hevents, hevent⟩
  | _ => trivial

/-- What was shown stays true where nothing is taken back. -/
theorem Learned.mono {x : Asked} (h : Learned s x)
    (husers : s.users.map User.key ⊆ s'.users.map User.key)
    (hhistory : s.history = s'.history) : Learned s' x := by
  unfold Learned at h ⊢
  rw [← hhistory]
  split at h
  · exact ⟨husers h.1, h.2⟩
  · exact ⟨husers h.1, h.2⟩
  · exact husers h
  · exact h
  · exact h
  · trivial

theorem userOf_mem {wallet : Text} {user : User} (h : s.userOf wallet = some user) :
    user.key ∈ s.users.map User.key ∧ user.walletAddress = wallet :=
  ⟨List.mem_map_of_mem (List.mem_of_find?_eq_some h), by simpa using List.find?_some h⟩

theorem mem_loansOf {wallet : Text} {loan : ChainLoan} :
    loan ∈ s.loansOf wallet ↔ loan ∈ s.history ∧ loan.opened.borrower = wallet := by
  simp [Book.loansOf]

/-- An exchange shows what is there. -/
theorem Responds.learned {x : Asked} (h : Responds sdk s x s') : Learned s x := by
  rcases x with ⟨ask, error | answer⟩
  · cases ask <;> trivial
  cases ask with
  | findUser wallet =>
      cases answer with
      | none => trivial
      | some user => exact userOf_mem h.ok.1.symm
  | findBorrower event =>
      cases answer with
      | none => trivial
      | some user => exact userOf_mem h.ok.1.symm
  | findUserById id =>
      cases answer with
      | none => trivial
      | some user => exact List.mem_map_of_mem (List.mem_of_find?_eq_some h.ok.1.symm)
  | verifyLoanOpened txHash wallet =>
      cases answer with
      | false => trivial
      | true =>
          rcases h.ok.1 rfl with ⟨loan, hloan, hhash⟩
          exact ⟨loan, (mem_loansOf.mp hloan).1, (mem_loansOf.mp hloan).2, hhash⟩
  | loanOpenedEvents fromLedger toLedger =>
      intro event hevent
      rw [h.ok.1] at hevent
      rcases List.mem_map.mp (List.mem_filter.mp hevent).1 with ⟨loan, hloan, rfl⟩
      exact ⟨loan, hloan, rfl⟩
  | _ => trivial

theorem saveUser_keys {user : User} (hids : (s.users.map User.id).Nodup)
    (hkey : user.key ∈ s.users.map User.key) :
    (s.saveUser user).users.map User.key = s.users.map User.key := by
  rcases List.mem_map.mp hkey with ⟨stored, hstored, hsame⟩
  rw [Book.saveUser, List.map_map]
  refine List.map_congr_left fun other hother => ?_
  rw [Function.comp_apply]
  split
  · rename_i hid
    have hstoredId : stored.id = other.id := (congrArg Prod.fst hsame).trans hid.symm
    rw [← hsame, List.inj_on_of_nodup_map hids hstored hother hstoredId]
  · rfl

/-- A row is linked like a row of the same loan. -/
theorem OpenedFor.of_key {loan : ChainLoan} {row row' : Loan} (h : OpenedFor loan row)
    (hkey : row'.key = row.key) :
    OpenedFor loan row' := by
  simp only [Loan.key, Prod.mk.injEq] at hkey
  unfold OpenedFor
  rw [hkey.2.2.1, hkey.2.2.2.1]
  exact h

/-- Only the rows have changed, and each is an old one's or linked itself. -/
theorem Linked.of_rows (h : Linked s) (husers : s'.users.map User.key = s.users.map User.key)
    (hhistory : s'.history = s.history)
    (hrows : ∀ row' ∈ s'.loans, (∃ row ∈ s.loans, row'.key = row.key) ∨
      (row'.userId, row'.borrowerAddress) ∈ s.users.map User.key ∧
        ∃ loan ∈ s.history, OpenedFor loan row') :
    Linked s' := by
  have hids : s'.users.map User.id = s.users.map User.id := by
    simpa [User.key, Function.comp_def] using congrArg (List.map Prod.fst) husers
  refine ⟨hhistory ▸ h.slots, hids ▸ h.ids, fun row' hrow' => ?_, fun row' hrow' => ?_⟩
  · rw [husers]
    rcases hrows row' hrow' with ⟨row, hrow, hkey⟩ | ⟨howner, -⟩
    · have hsame : (row'.userId, row'.borrowerAddress) = (row.userId, row.borrowerAddress) := by
        simp only [Loan.key, Prod.mk.injEq] at hkey
        rw [hkey.2.1, hkey.2.2.1]
      rw [hsame]
      exact h.owners row hrow
    · exact howner
  · rw [hhistory]
    rcases hrows row' hrow' with ⟨row, hrow, hkey⟩ | ⟨-, horigin⟩
    · rcases h.origins row hrow with ⟨loan, hloan, hopened⟩
      exact ⟨loan, hloan, hopened.of_key hkey⟩
    · exact horigin

/-- A saved row is of the loan that it was of. -/
theorem rows_of_saveLoan {row row' saved : Loan} (h : row' ∈ (s.saveLoan saved).loans)
    (hrow : row ∈ s.loans)
    (hkey : saved.key = row.key) : ∃ row ∈ s.loans, row'.key = row.key := by
  rcases mem_updateById h with rfl | hold
  · exact ⟨row, hrow, hkey⟩
  · exact ⟨row', hold, rfl⟩

theorem repayable_mem {userId : Nat} {row : Loan} (h : s.repayable userId = some row) :
    row ∈ s.loans ∧ row.userId = userId := by
  have hmem := List.maxOn?_mem h
  simp only [List.mem_filter, decide_eq_true_eq] at hmem
  exact ⟨hmem.1, hmem.2.1⟩

/-- An exchange that is grounded in the past keeps the links, who the users are, and the
chain. -/
theorem Linked.exchange {past : List Asked} {x : Asked} (h : Linked s)
    (hpast : ∀ y ∈ past, Learned s y)
    (hgrounded : Grounded past x.1) (hx : Responds sdk s x s') :
    Linked s' ∧ s'.users.map User.key = s.users.map User.key ∧ s'.history = s.history := by
  rcases x with ⟨ask, error | answer⟩
  · rw [hx.error]
    exact ⟨h, rfl, rfl⟩
  cases ask with
  | saveUser user =>
      have hs' : s' = s.saveUser user := hx.ok
      have hkey : user.key ∈ s.users.map User.key := by
        rcases hgrounded with ⟨found, hsame, ⟨wallet, hmem⟩ | ⟨id, hmem⟩⟩
        · rw [← hsame]
          exact (hpast _ hmem).1
        · rw [← hsame]
          exact hpast _ hmem
      have hkeys := saveUser_keys h.ids hkey
      rw [hs']
      exact ⟨h.of_rows hkeys rfl fun row hrow => .inl ⟨row, hrow, rfl⟩, hkeys, rfl⟩
  | openTransaction opening =>
      rcases openTransaction_inv hx.ok with rfl | ⟨-, rfl⟩
      · exact ⟨h, rfl, rfl⟩
      · refine ⟨h.of_rows rfl rfl fun row' hrow' => ?_, rfl, rfl⟩
        rcases List.mem_append.mp hrow' with hold | hnew
        · rcases List.mem_map.mp hold with ⟨row, hrow, rfl⟩
          exact .inl ⟨row, hrow, autoClose_key _ _ row⟩
        · rw [List.mem_singleton.mp hnew]
          rcases hgrounded with ⟨⟨found, hid, hfound⟩, hverified⟩
          rcases hpast _ hverified with ⟨loan, hloan, hborrower, hhash⟩
          refine .inr ⟨?_, loan, hloan, hborrower, congrArg some hhash.symm⟩
          have hkey : (opening.userId, opening.wallet) = found.key := by
            rw [← hid, ← (hpast _ hfound).2]
            rfl
          have hmem := (hpast _ hfound).1
          rw [← hkey] at hmem
          exact hmem
  | repayTransaction repayment =>
      rcases repayTransaction_inv hx.ok with ⟨row, amount, hrow, -, hs'⟩
      have hlinked : Linked (s.saveLoan (Book.repaidRow row amount repayment.txHash s.now)) :=
        h.of_rows rfl rfl fun row' hrow' => .inl (rows_of_saveLoan hrow' (repayable_mem hrow).1 rfl)
      rcases hs' with rfl | rfl
      · exact ⟨hlinked, rfl, rfl⟩
      · rcases hgrounded with ⟨wallet, hfound⟩
        have hkey : ({ repayment.user with hadDefaultEver := true } : User).key ∈
            s.users.map User.key := (hpast _ hfound).1
        have hkeys := saveUser_keys hlinked.ids hkey
        exact ⟨hlinked.of_rows hkeys rfl fun row' hrow' => .inl ⟨row', hrow', rfl⟩, hkeys, rfl⟩
  | reconcileTransaction loanId eventData =>
      rcases reconcileTransaction_inv hx.ok with rfl | ⟨row, event, hrow, -, -, rfl⟩
      · exact ⟨h, rfl, rfl⟩
      · refine ⟨h.of_rows rfl rfl fun row' hrow' => .inl ?_, rfl, rfl⟩
        exact rows_of_saveLoan hrow' (List.mem_of_find?_eq_some hrow) rfl
  | saveCursor block bootstrap =>
      have hs' : s' = { s with cursor := some block } := hx.ok
      rw [hs']
      exact ⟨⟨h.slots, h.ids, h.owners, h.origins⟩, rfl, rfl⟩
  | insertMissing userId event =>
      rcases insertMissing_inv hx.ok with ⟨-, rfl⟩ | ⟨-, rfl⟩
      · exact ⟨h, rfl, rfl⟩
      · refine ⟨h.of_rows rfl rfl fun row' hrow' => ?_, rfl, rfl⟩
        rcases List.mem_append.mp hrow' with hold | hnew
        · exact .inl ⟨row', hold, rfl⟩
        · rw [List.mem_singleton.mp hnew]
          rcases hgrounded
            with ⟨⟨found, hid, hfound⟩, fromLedger, toLedger, events, hevents, hevent⟩
          rcases hpast _ hevents event hevent with ⟨loan, hloan, rfl⟩
          refine .inr ⟨?_, loan, hloan, rfl, rfl⟩
          have hkey : (userId, loan.opened.borrower) = found.key := by
            rw [← hid, ← (hpast _ hfound).2]
            rfl
          have hmem := (hpast _ hfound).1
          rw [← hkey] at hmem
          exact hmem
  | _ =>
      rw [hx.reads rfl]
      exact ⟨h, rfl, rfl⟩

/-- A procedure whose writes are grounded keeps the links, who the users are, and the
chain. -/
theorem Linked.exec {α : Type} {p : Program α} {asked : List Asked}
    {out : Except HttpError α} (h : Linked s)
    (hasks : p.AsksAfter Grounded []) (hexec : Exec (Responds sdk) s p asked out s') :
    Linked s' ∧ s'.users.map User.key = s.users.map User.key ∧ s'.history = s.history := by
  have hkept :=
    hexec.after (I := fun past t => (Linked t ∧ t.users.map User.key = s.users.map User.key ∧
    t.history = s.history) ∧ ∀ y ∈ past, Learned t y) hasks ?_ ⟨⟨h, rfl, rfl⟩, by simp⟩
  · exact hkept.1
  · rintro past t x u ⟨⟨hlinked, hkeys, hhistory⟩, hpast⟩ hgrounded hx
    rcases hlinked.exchange hpast hgrounded hx with ⟨hlinked', hkeys', hhistory'⟩
    refine ⟨⟨hlinked', hkeys'.trans hkeys, hhistory'.trans hhistory⟩, fun y hy => ?_⟩
    have hlearned : Learned t y := by
      rcases List.mem_append.mp hy with hy | hy
      · exact hpast y hy
      · rw [List.mem_singleton.mp hy]
        exact hx.learned
    exact hlearned.mono (by rw [hkeys']; exact List.Subset.refl _) hhistory'.symm

section Grounded

variable {past : List Asked}

theorem grounded_of_asksOnly {α : Type} {p : Program α}
    (h : p.AsksOnly fun ask => ask.writes = false) :
    p.AsksAfter Grounded past := h.after fun _ _ hreads => .of_reads hreads

theorem informLoanOpened_grounded (dto : InformLoanDto) :
    (informLoanOpened sdk dto).AsksAfter Grounded [] := by
  refine .lift_bind fun wallet _ => .call_bind trivial fun found => ?_
  cases found with
  | none => trivial
  | some user =>
      dsimp only
      split
      · trivial
      split
      · trivial
      refine .call_bind trivial fun existing => ?_
      cases existing with
      | some row => trivial
      | none =>
          refine .call_bind trivial fun matched => ?_
          split
          · trivial
          · rename_i hmatched
            rw [Bool.not_eq_false] at hmatched
            refine .lift_bind fun principalDec _ => .call_bind trivial fun feeBps =>
              .call_bind ?_ fun _ => trivial
            exact ⟨⟨user, rfl, by simp⟩, by simp [hmatched]⟩

theorem giveAndSave_grounded {user : User} (wallet : Text) (score : Nat) (limit : ℚ)
    (h : Grounded past (.saveUser user)) :
    (giveAndSave wallet user score limit).AsksAfter Grounded past := by
  refine .lift_bind fun units _ => .call_bind trivial fun status => ?_
  split
  · exact .call (h.mono past _ _ (List.subset_append_left _ _))
  · trivial

theorem applyCredit_grounded {user : User} (wallet : Text) (repaid : Repaid) (onTimeLoans : Nat)
    (h : Grounded past (.saveUser user)) :
    (applyCredit wallet user repaid onTimeLoans).AsksAfter Grounded past := by
  unfold applyCredit
  split
  · exact giveAndSave_grounded wallet _ _ h
  split
  · exact giveAndSave_grounded wallet _ _ h
  · exact .lift_bind fun _ _ => .call_bind trivial fun _ => trivial

theorem verifyByTxHash_reads (wallet : Text) (txHash : Option Text) :
    (verifyByTxHash wallet txHash).AsksOnly fun ask => ask.writes = false := by
  cases txHash with
  | none => trivial
  | some txHash =>
      unfold verifyByTxHash
      dsimp only
      split
      · trivial
      · refine .bind (.call rfl) fun check => ?_
        cases check <;> trivial

theorem assertInactive_reads (wallet : Text) :
    (assertInactive wallet).AsksOnly fun ask => ask.writes = false := by
  refine .bind (.caught rfl) fun read => ?_
  cases read with
  | error => trivial
  | ok onChain =>
      dsimp only
      split <;> trivial

theorem findProcessed_reads (txHash : Option Text) :
    (findProcessed txHash).AsksOnly fun ask => ask.writes = false := by
  cases txHash with
  | none => trivial
  | some txHash =>
      unfold findProcessed
      dsimp only
      split
      · trivial
      · exact .call rfl

theorem verifyRepaid_reads (wallet : Text) (txHash : Option Text) :
    (verifyRepaid wallet txHash).AsksOnly fun ask => ask.writes = false := by
  refine .bind (verifyByTxHash_reads wallet txHash) fun chainPaidUnits => ?_
  split
  · exact .bind (assertInactive_reads wallet) fun _ => trivial
  · trivial

theorem processRepayment_grounded (dto : InformRepaymentDto) :
    (processRepayment dto).AsksAfter Grounded [] := by
  refine .lift_bind fun wallet _ => .call_bind trivial fun found => ?_
  cases found with
  | none => trivial
  | some user =>
      refine .bind (grounded_of_asksOnly (verifyRepaid_reads wallet dto.txHash))
        fun chainPaidUnits _ _ => ?_
      refine .caught_bind trivial fun _ =>
        .bind (grounded_of_asksOnly (findProcessed_reads dto.txHash)) fun existing _ _ => ?_
      cases existing with
      | some loan => trivial
      | none =>
          refine .call_bind ⟨wallet, by simp⟩ fun repaid =>
            .call_bind trivial fun onTimeLoanCount => ?_
          refine .bind (AsksAfter.settled (applyCredit_grounded wallet repaid onTimeLoanCount ?_))
            fun _ _ _ =>
            .call_bind trivial fun _ => trivial
          exact ⟨user, rfl, .inl ⟨wallet, by simp⟩⟩

theorem updateCreditScore_grounded (borrowerAddress : Text) (userId : Nat) (repaidOnTime : Bool) :
    (updateCreditScore borrowerAddress userId repaidOnTime).AsksAfter Grounded past := by
  refine .call_bind trivial fun found => ?_
  cases found with
  | none => trivial
  | some user =>
      have hfound : ∀ more : List Asked,
          Grounded (past ++ [⟨.findUserById userId, .ok (some user)⟩] ++ more) (.saveUser user) :=
        fun more => ⟨user, rfl, .inr ⟨userId, by simp⟩⟩
      dsimp only
      split
      · refine .call_bind trivial fun onTimeLoans => ?_
        exact giveAndSave_grounded borrowerAddress _ _ (hfound _)
      · have hnow := hfound []
        rw [List.append_nil] at hnow
        exact giveAndSave_grounded borrowerAddress _ _ hnow

theorem reconcileLoan_grounded (loan : Loan) (user : User) (currentLedger : Nat) :
    (reconcileLoan loan user currentLedger).AsksAfter Grounded past := by
  refine .call_bind trivial fun eventData => .call_bind trivial fun result => ?_
  cases result with
  | none => trivial
  | some closed =>
      exact .bind (AsksAfter.settled (updateCreditScore_grounded _ _ _)) fun _ _ _ => trivial

theorem syncAddress_grounded (currentLedger : Nat) (rows : List (Loan × Option User)) :
    (syncAddress currentLedger rows).AsksAfter Grounded past := by
  unfold syncAddress
  split
  · trivial
  · trivial
  refine .call_bind trivial fun read => ?_
  cases read with
  | none => trivial
  | some onChain =>
      dsimp only
      split
      · refine .forEach Grounded.mono fun ghost _ => ?_
        unfold reconcileGhost
        split
        · trivial
        · exact .bind (AsksAfter.settled (reconcileLoan_grounded _ _ _)) fun _ _ _ => trivial
      · refine .forEach Grounded.mono fun loan _ => ?_
        unfold reconcileStale
        split
        · trivial
        · exact .bind (reconcileLoan_grounded _ _ _) fun _ _ _ => trivial

theorem syncLoansWithChain_grounded : syncLoansWithChain.AsksAfter Grounded [] := by
  refine .bind (AsksAfter.settled (.call_bind trivial fun unsettledLoans => ?_)) fun _ _ _ =>
    trivial
  split
  · trivial
  refine .call_bind trivial fun currentLedger => .forEach Grounded.mono fun batch _ => ?_
  refine .call_bind trivial fun order =>
    .bind (.allSettled Grounded.mono order fun p hp => ?_) fun _ _ _ => trivial
  rcases List.mem_map.mp hp with ⟨rows, -, rfl⟩
  exact syncAddress_grounded currentLedger rows

theorem insertMissingLoan_grounded {event : ChainLoanOpenedEvent}
    {events : List ChainLoanOpenedEvent}
    {fromLedger toLedger : Nat}
    (hevents : ⟨.loanOpenedEvents fromLedger toLedger, .ok events⟩ ∈ past)
    (hevent : event ∈ events) : (insertMissingLoan event).AsksAfter Grounded past := by
  refine .call_bind trivial fun existing => ?_
  cases existing with
  | some row => trivial
  | none =>
      refine .call_bind trivial fun found => ?_
      cases found with
      | none => trivial
      | some user =>
          refine .call_bind ?_ fun _ => trivial
          exact ⟨⟨user, rfl, by simp⟩, fromLedger, toLedger, events, by simp [hevents], hevent⟩

theorem scanRange_grounded (fromBlock currentBlock : Nat) :
    (scanRange fromBlock currentBlock).AsksAfter Grounded past := by
  unfold scanRange
  split
  · trivial
  refine .call_bind trivial fun events =>
    .bind (.settleEach Grounded.mono fun p hp => ?_) fun _ _ _ =>
    .call_bind trivial fun _ => trivial
  rcases List.mem_map.mp hp with ⟨event, hevent, rfl⟩
  exact insertMissingLoan_grounded (List.mem_append_right _ (List.mem_singleton_self _)) hevent

theorem scanLoanOpenedEvents_grounded : scanLoanOpenedEvents.AsksAfter Grounded [] := by
  refine .bind
    (AsksAfter.settled (.call_bind trivial fun cursor => .call_bind trivial fun currentBlock => ?_))
    fun _ _ _ => trivial
  split
  · exact .call_bind trivial fun _ => scanRange_grounded _ _
  · exact scanRange_grounded _ _

end Grounded

/-! ### Whole histories -/

/-- The chain forgets no loan. -/
theorem ChainStep.opened {ledger : Nat} {timestamp : Int} {history history' : List ChainLoan}
    (h : ChainStep ledger timestamp history history') {loan : ChainLoan} (hloan : loan ∈ history) :
    ∃ loan' ∈ history', loan'.opened = loan.opened := by
  cases h with
  | opens => exact ⟨loan, List.mem_append_left _ hloan, rfl⟩
  | @closes before after open' event =>
      rcases List.mem_append.mp hloan with hbefore | hrest
      · exact ⟨loan, List.mem_append_left _ hbefore, rfl⟩
      · rcases List.mem_cons.mp hrest with rfl | hafter
        · exact ⟨{ loan with closed := some event }, by simp, rfl⟩
        · exact ⟨loan, by simp [hafter], rfl⟩

theorem ChainStep.oneOpen {ledger : Nat} {timestamp : Int} {history history' : List ChainLoan}
    (h : ChainStep ledger timestamp history history') (hopen : OneOpen history) :
    OneOpen history' := by
  cases h with
  | opens event _ _ hfree =>
      refine List.pairwise_append.mpr ⟨hopen, List.pairwise_singleton _ _,
        fun loan hloan later hlater => ?_⟩
      rw [List.mem_singleton.mp hlater]
      exact hfree loan hloan
  | @closes before after loan event =>
      rcases List.pairwise_append.mp hopen with ⟨hbefore, hrest, hcross⟩
      rcases List.pairwise_cons.mp hrest with ⟨-, hafter⟩
      refine List.pairwise_append.mpr ⟨hbefore, List.pairwise_cons.mpr ⟨?_, hafter⟩,
        fun earlier hearlier later hlater => ?_⟩
      · intro later _ _
        simp
      · rcases List.mem_cons.mp hlater with rfl | hlater
        · exact hcross earlier hearlier loan List.mem_cons_self
        · exact hcross earlier hearlier later (List.mem_cons_of_mem _ hlater)

theorem Linked.closeLedger {ledger n : Nat} {timestamp : Int}
    {history : List ChainLoan} (h : Linked s)
    (hcloses : Relation.ReflTransGen (ChainStep ledger timestamp) s.history history) :
    Linked { s with ledger := n, history := history } := by
  have hkept : OneOpen history ∧
      ∀ loan ∈ s.history, ∃ loan' ∈ history, loan'.opened = loan.opened := by
    induction hcloses with
    | refl => exact ⟨h.slots, fun loan hloan => ⟨loan, hloan, rfl⟩⟩
    | tail _ hstep ih =>
        refine ⟨hstep.oneOpen ih.1, fun loan hloan => ?_⟩
        rcases ih.2 loan hloan with ⟨loan', hloan', hsame⟩
        rcases hstep.opened hloan' with ⟨loan'', hloan'', hsame'⟩
        exact ⟨loan'', hloan'', hsame'.trans hsame⟩
  refine ⟨hkept.1, h.ids, h.owners, fun row hrow => ?_⟩
  rcases h.origins row hrow with ⟨loan, hloan, hopened⟩
  rcases hkept.2 loan hloan with ⟨loan', hloan', hsame⟩
  refine ⟨loan', hloan', ?_⟩
  unfold OpenedFor at hopened ⊢
  rw [hsame]
  exact hopened

theorem Linked.move {move : Move} (h : Linked s) (hmove : Moves sdk s move s') : Linked s' := by
  cases hmove with
  | informLoanOpened hexec => exact (h.exec (informLoanOpened_grounded _) hexec).1
  | informRepayment hexec => exact (h.exec (processRepayment_grounded _) hexec).1
  | syncLoansWithChain hexec => exact (h.exec syncLoansWithChain_grounded hexec).1
  | scanLoanOpenedEvents hexec => exact (h.exec scanLoanOpenedEvents_grounded hexec).1
  | @join user hnew =>
      refine ⟨h.slots, ?_, fun row hrow => ?_, h.origins⟩
      · simp only [List.map_append, List.map_cons, List.map_nil]
        exact List.nodup_append.mpr ⟨h.ids, List.nodup_singleton _, fun id hid other hother => by
          rw [List.mem_singleton.mp hother]
          rintro rfl
          exact hnew hid⟩
      · rw [List.map_append]
        exact List.mem_append_left _ (h.owners row hrow)
  | closeLedger _ hcloses => exact h.closeLedger hcloses
  | wait => exact ⟨h.slots, h.ids, h.owners, h.origins⟩

end LoanBook

end Lendoor.Backend
