import Lendoor.Backend.RowLife
import Lendoor.Core.Paging

/-! # Which closing a sync writes

The sync asks for the latest closing of a wallet from a row's start on, and leaves the row
alone where another row began before that closing. While the sync runs, requests, scans and
other syncs write rows, and the chain moves. A row gets the closing of its own loan where
its start tells that loan from the earlier ones, and the later ones have rows.
-/

namespace Lendoor.Backend

open Cctp (Text falsy)
open Async (AsksAfter AsksOnly settled)

namespace LoanBook

/-- The closings of a wallet among some loans of the chain. -/
def closingsAmong (loans : List ChainLoan) (wallet : Text) : List ChainLoanClosedEvent :=
  (loans.filter fun loan => loan.opened.borrower = wallet).filterMap ChainLoan.closed

/-- A row stands between the other loans of its wallet: it starts after the closings of the
loans before its own, and before each closing of a later loan another row starts. -/
structure Between (s : Book) (row : Loan) (before : List ChainLoan) (loan : ChainLoan)
    (after : List ChainLoan) : Prop where
  history : s.history = before ++ loan :: after
  own : OpenedFor loan row
  earlier : ∀ event ∈ closingsAmong before row.borrowerAddress, event.timestamp < row.startAt / 1000
  later : ∀ event ∈ closingsAmong after row.borrowerAddress, ∃ other ∈ s.loans,
    other.borrowerAddress = row.borrowerAddress ∧ row.startAt < other.startAt ∧
    other.startAt ≤ event.timestamp * 1000

def Placed (s : Book) : Prop :=
  ∀ row ∈ s.loans, ∃ before loan after, Between s row before loan after

/-- The row carries the receipt of the loan. -/
structure ReceiptOf (loan : ChainLoan) (event : ChainLoanClosedEvent) (row : Loan) : Prop where
  own : OpenedFor loan row
  closed : loan.closed = some event
  closeTxHash : row.closeTxHash = some event.txHash
  closedAt : row.closedAt = some (event.timestamp * 1000)
  amountPaid : row.amountPaid = fromUnits event.amountPaid

/-- The exchange is a transaction that goes through with an event. -/
def reconciles : Asked → Bool
  | ⟨.reconcileTransaction _ (some _), .ok _⟩ => true
  | _ => false

/-- An exchange of the sync, after whatever turns others take. A transaction of it meets a
book whose rows are placed. -/
def Interleaved (sdk : LoanSdk) (s : Book) (x : Asked) (s' : Book) : Prop :=
  ∃ t, Turns sdk s t ∧ Responds sdk t x s' ∧ (reconciles x = true → Placed t)

/-- What an exchange of the sync has shown, as the book stands. -/
def Shown (s : Book) : Asked → Prop
  | ⟨.findUnsettled, .ok rows⟩ => ∀ entry ∈ rows, ∃ row ∈ s.loans, Becomes entry.1 row
  | ⟨.findLoanClosed borrower startAt _, .ok (some event)⟩ => event ∈ s.closings borrower ∧
      startAt / 1000 ≤ event.timestamp
  | ⟨.reconcileTransaction _ (some event), .ok (some (row, _))⟩ =>
      ∃ loan ∈ s.history, ReceiptOf loan event row
  | _ => True

/-- A row is closed with an event only where that was found for a row of its id. -/
def Matched (past : List Asked) : Ask → Prop
  | .reconcileTransaction loanId (some event) => ∃ rows :
      List (Loan × Option User), ∃ entry ∈ rows, ∃ currentLedger,
      entry.1.id = loanId ∧ ⟨.findUnsettled, .ok rows⟩ ∈ past ∧
        ⟨.findLoanClosed entry.1.borrowerAddress entry.1.startAt currentLedger, .ok (some event)⟩ ∈
        past
  | _ => True

variable {sdk : LoanSdk} {s s' t : Book} {row row' : Loan} {loan : ChainLoan} {past : List Asked}

theorem Matched.mono (past past' : List Asked) (ask : Ask) (hsub : past ⊆ past')
    (h : Matched past ask) : Matched past' ask := by
  unfold Matched at h ⊢
  split at h
  · rcases h with ⟨rows, entry, hentry, currentLedger, hid, hrows, hfound⟩
    exact ⟨rows, entry, hentry, currentLedger, hid, hsub hrows, hsub hfound⟩
  · trivial

/-! ## What others leave -/

/-- No call moves the chain. -/
theorem Responds.history {x : Asked} (h : Responds sdk s x s') : s'.history = s.history := by
  rcases x with ⟨ask, error | answer⟩
  · rw [h.error]
  cases ask with
  | saveUser user =>
      have hs' : s' = s.saveUser user := h.ok
      rw [hs']
      rfl
  | saveCursor block bootstrap =>
      have hs' : s' = { s with cursor := some block } := h.ok
      rw [hs']
  | openTransaction opening =>
      rcases openTransaction_inv h.ok with rfl | ⟨-, rfl⟩ <;> rfl
  | repayTransaction repayment =>
      rcases repayTransaction_inv h.ok with ⟨row, amount, -, -, rfl | rfl⟩ <;> rfl
  | reconcileTransaction loanId eventData =>
      rcases reconcileTransaction_inv h.ok with rfl | ⟨row, event, -, -, -, rfl⟩ <;> rfl
  | insertMissing userId event =>
      rcases insertMissing_inv h.ok with ⟨-, rfl⟩ | ⟨-, rfl⟩ <;> rfl
  | _ => rw [h.reads rfl]

/-- A closed loan stays as it is. -/
theorem ChainStep.closed_mem {ledger : Nat} {timestamp : Int} {history history' : List ChainLoan}
    (h : ChainStep ledger timestamp history history') (hloan : loan ∈ history)
    (hclosed : loan.closed ≠ none) : loan ∈ history' := by
  cases h with
  | opens => exact List.mem_append_left _ hloan
  | @closes before after open' event hborrower hledger htime hopen =>
      rcases List.mem_append.mp hloan with hbefore | hrest
      · exact List.mem_append_left _ hbefore
      · rcases List.mem_cons.mp hrest with rfl | hafter
        · exact absurd hopen hclosed
        · exact List.mem_append_right _ (List.mem_cons_of_mem _ hafter)

theorem Turn.closed_mem (h : Turn sdk s s') (hloan : loan ∈ s.history)
    (hclosed : loan.closed ≠ none) : loan ∈ s'.history := by
  cases h with
  | exchange x hx =>
      rw [hx.history]
      exact hloan
  | closeLedger hlater hcloses =>
      induction hcloses with
      | refl => exact hloan
      | tail _ hstep ih => exact hstep.closed_mem ih hclosed
  | join | wait => exact hloan

theorem mem_closingsAmong {loans : List ChainLoan} {wallet : Text} {event : ChainLoanClosedEvent} :
    event ∈ closingsAmong loans wallet ↔ ∃ loan ∈ loans, loan.opened.borrower = wallet ∧
      loan.closed = some event := by
  simp [closingsAmong, and_assoc]

theorem Shown.turn {x : Asked} (htidy : Tidy s) (hturn : Turn sdk s t) (h : Shown s x) :
    Shown t x := by
  unfold Shown at h ⊢
  split at h
  · intro entry hentry
    rcases h entry hentry with ⟨row, hrow, hbecomes⟩
    rcases (htidy.turn hturn).2.mem hrow with ⟨row', hrow', hbecomes'⟩
    exact ⟨row', hrow', hbecomes.trans hbecomes'⟩
  · refine ⟨?_, h.2⟩
    rcases mem_closingsAmong.mp h.1 with ⟨loan, hloan, hborrower, hclosed⟩
    exact mem_closingsAmong.mpr ⟨loan, hturn.closed_mem hloan (by simp [hclosed]), hborrower,
      hclosed⟩
  · rcases h with ⟨loan, hloan, hreceipt⟩
    exact ⟨loan, hturn.closed_mem hloan (by simp [hreceipt.closed]), hreceipt⟩
  · trivial

theorem Shown.turns {x : Asked} (htidy : Tidy s) (hturns : Turns sdk s t) (h : Shown s x) :
    Shown t x := by
  induction hturns with
  | refl => exact h
  | tail hbefore hturn ih => exact ih.turn (htidy.turns hbefore).1 hturn

/-! ## One transaction -/

/-- The event of the transaction is what the row is closed with. -/
theorem reconcileTransaction_some {loanId : Nat} {event : ChainLoanClosedEvent} {onTime : Bool}
    (h : (some (row', onTime), s') = s.reconcileTransaction loanId (some event)) :
    ∃ row, s.rowById loanId = some row ∧ s.leavesAlone row event = false ∧
      row' = Book.reconciledRow row event := by
  unfold Book.reconcileTransaction at h
  split at h
  · rename_i row event' hrow hevent
    cases hevent
    split at h
    · cases h
    · rename_i halone
      cases h
      exact ⟨row, hrow, by simpa using halone, rfl⟩
  · cases h

/-- Another row between the row's start and the event keeps the row from the event. -/
theorem leavesAlone_of_closer {event : ChainLoanClosedEvent} {other : Loan} (htidy : Tidy s)
    (hrow : row ∈ s.loans)
    (hother : other ∈ s.loans) (hborrower : other.borrowerAddress = row.borrowerAddress)
    (hafter : row.startAt < other.startAt)
    (hbefore : other.startAt ≤ event.timestamp * 1000) : s.leavesAlone row event = true := by
  have hcandidate : other ∈ s.loans.filter fun other =>
      other.borrowerAddress = row.borrowerAddress ∧
      row.startAt + 1 ≤ other.startAt ∧ other.startAt ≤ event.timestamp * 1000 := by
    simp only [List.mem_filter, decide_eq_true_eq]
    exact ⟨hother, hborrower, hafter, hbefore⟩
  cases hcloser : s.closerLoan row event with
  | none =>
      have hsome := List.isSome_maxOn?_of_mem (f := Loan.startAt) hcandidate
      rw [Book.closerLoan] at hcloser
      rw [hcloser] at hsome
      cases hsome
  | some closer =>
      have hmem := List.maxOn?_mem hcloser
      simp only [List.mem_filter, decide_eq_true_eq] at hmem
      have hne : closer.id ≠ row.id := by
        intro hid
        have hsame := List.inj_on_of_nodup_map htidy.apart.ids hmem.1 hrow hid
        rw [hsame] at hmem
        omega
      simp [Book.leavesAlone, hcloser, hne]

/-- Where rows are placed, an event from a row's start on that does not have to be left alone
is the closing of the row's own loan. -/
theorem Placed.own_closing {event : ChainLoanClosedEvent} (hplaced : Placed s) (htidy : Tidy s)
    (hrow : row ∈ s.loans)
    (hevent : event ∈ s.closings row.borrowerAddress)
    (hstart : row.startAt / 1000 ≤ event.timestamp)
    (halone : s.leavesAlone row event = false) :
    ∃ loan ∈ s.history, OpenedFor loan row ∧ loan.closed = some event := by
  rcases hplaced row hrow with ⟨before, loan, after, hbetween⟩
  rcases mem_closingsAmong.mp hevent with ⟨closed, hclosed, hborrower, hcloses⟩
  rw [hbetween.history] at hclosed
  rcases List.mem_append.mp hclosed with hbefore | hrest
  · have hover :=
      hbetween.earlier event (mem_closingsAmong.mpr ⟨closed, hbefore, hborrower, hcloses⟩)
    omega
  · rcases List.mem_cons.mp hrest with rfl | hafter
    · exact ⟨closed, by simp [hbetween.history], hbetween.own, hcloses⟩
    · rcases hbetween.later event (mem_closingsAmong.mpr ⟨closed, hafter, hborrower, hcloses⟩) with
        ⟨other, hother, hwallet, hfollows, hprecedes⟩
      rw [leavesAlone_of_closer htidy hrow hother hwallet hfollows hprecedes] at halone
      cases halone

theorem reconciledRow_receipt {event : ChainLoanClosedEvent} (hown : OpenedFor loan row)
    (hclosed : loan.closed = some event) :
    ReceiptOf loan event (Book.reconciledRow row event) :=
  ⟨hown, hclosed, rfl, rfl, rfl⟩

theorem Becomes.startAt_eq (h : Becomes row row') : row'.startAt = row.startAt :=
  congrArg (fun terms => terms.loan.2.2.2.2) h.terms

theorem Becomes.borrowerAddress_eq (h : Becomes row row') :
    row'.borrowerAddress = row.borrowerAddress :=
  congrArg (fun terms => terms.loan.2.2.1) h.terms

theorem rowById_mem {id : Nat} (h : s.rowById id = some row) : row ∈ s.loans ∧ row.id = id :=
  ⟨List.mem_of_find?_eq_some h, by simpa using List.find?_some h⟩

/-- What an exchange of the sync shows. -/
theorem Responds.shown {x : Asked} (htidy : Tidy s) (hpast : ∀ y ∈ past, Shown s y)
    (hmatched : Matched past x.1)
    (hplaced : reconciles x = true → Placed s) (hx : Responds sdk s x s') :
    Shown s' x := by
  rcases x with ⟨ask, error | answer⟩
  · cases ask with
    | reconcileTransaction loanId eventData => cases eventData <;> trivial
    | _ => trivial
  cases ask with
  | findUnsettled =>
      rcases hx.ok with ⟨rfl, rfl⟩
      intro entry hentry
      rcases List.mem_map.mp hentry with ⟨row, hrow, rfl⟩
      rw [List.mem_insertionSort] at hrow
      exact ⟨row, (List.mem_filter.mp hrow).1, .refl row⟩
  | findLoanClosed borrower startAt currentLedger =>
      cases answer with
      | none => trivial
      | some event =>
          rcases hx.ok with ⟨hlast, rfl⟩
          have hmem := List.maxOn?_mem hlast.symm
          simp only [List.mem_filter, decide_eq_true_eq] at hmem
          exact ⟨hmem.1, hmem.2.2.2⟩
  | reconcileTransaction loanId eventData =>
      rcases eventData with - | event
      · cases answer <;> trivial
      rcases answer with - | ⟨written, onTime⟩
      · trivial
      rcases reconcileTransaction_some hx.ok with ⟨row, hfound, halone, rfl⟩
      rcases rowById_mem hfound with ⟨hrow, hid⟩
      rcases hmatched with ⟨rows, entry, hentry, currentLedger, hentryId, hunsettled, hlast⟩
      -- the row of the id is what has become of the one that the event was found for
      rcases hpast _ hunsettled entry hentry with ⟨row', hrow', hbecomes⟩
      have hsame : row' = row :=
        List.inj_on_of_nodup_map htidy.apart.ids hrow' hrow
          (hbecomes.id_eq.trans (hentryId.trans hid.symm))
      rw [hsame] at hbecomes
      have hshown := hpast _ hlast
      rw [Shown, ← hbecomes.borrowerAddress_eq, ← hbecomes.startAt_eq] at hshown
      rcases (hplaced rfl).own_closing htidy hrow hshown.1 hshown.2 halone
        with ⟨loan, hloan, hown, hclosed⟩
      exact ⟨loan, hx.history ▸ hloan, reconciledRow_receipt hown hclosed⟩
  | _ => trivial

/-! ## What the sync asks -/

def Ask.reconciles : Ask → Bool
  | .reconcileTransaction _ _ => true
  | _ => false

theorem Matched.of_reads {ask : Ask} (h : ask.reconciles = false) : Matched past ask := by
  cases ask with
  | reconcileTransaction => cases h
  | _ => trivial

section Scores

variable {P : List Asked → Ask → Prop} (hP : ∀ past ask, ask.reconciles = false → P past ask)

include hP

theorem giveAndSave_asks (wallet : Text) (user : User) (score : Nat) (limit : ℚ) :
    (giveAndSave wallet user score limit).AsksAfter P past := by
  refine .lift_bind fun units _ => .call_bind (hP _ _ rfl) fun status => ?_
  split
  · exact .call (hP _ _ rfl)
  · trivial

/-- The score that follows a closing is no transaction of a row. -/
theorem updateCreditScore_asks (borrowerAddress : Text) (userId : Nat) (repaidOnTime : Bool) :
    (updateCreditScore borrowerAddress userId repaidOnTime).AsksAfter P past := by
  refine .call_bind (hP _ _ rfl) fun found => ?_
  cases found with
  | none => trivial
  | some user =>
      dsimp only
      split
      · exact .call_bind (hP _ _ rfl) fun onTimeLoans => giveAndSave_asks hP ..
      · exact giveAndSave_asks hP ..

end Scores

section Asks

variable {rows : List (Loan × Option User)} (hrows : ⟨.findUnsettled, .ok rows⟩ ∈ past)

include hrows

theorem reconcileLoan_asks {entry : Loan × Option User} (hentry : entry ∈ rows) (user : User)
    (currentLedger : Nat) :
    (reconcileLoan entry.1 user currentLedger).AsksAfter Matched past := by
  refine .call_bind trivial fun eventData => .call_bind ?_ fun result => ?_
  · cases eventData with
    | none => trivial
    | some event => exact ⟨rows, entry, hentry, currentLedger, rfl, by simp [hrows], by simp⟩
  · cases result with
    | none => trivial
    | some closed =>
        refine .bind (AsksAfter.settled ?_) fun _ _ _ => trivial
        exact updateCreditScore_asks (fun _ _ => Matched.of_reads) ..

theorem syncAddress_asks (currentLedger : Nat) {entries : List (Loan × Option User)}
    (hentries : ∀ entry ∈ entries, entry ∈ rows) :
    (syncAddress currentLedger entries).AsksAfter Matched past := by
  unfold syncAddress
  split
  · trivial
  · trivial
  rename_i latest user older
  refine .call_bind trivial fun read => ?_
  cases read with
  | none => trivial
  | some onChain =>
      dsimp only
      split
      · refine .forEach Matched.mono fun ghost hghost => ?_
        have hmem : ghost ∈ rows := by
          refine hentries ghost ?_
          split at hghost
          · exact List.mem_cons_of_mem _ hghost
          · exact hghost
        unfold reconcileGhost
        split
        · trivial
        · exact .bind (AsksAfter.settled (reconcileLoan_asks (by simp [hrows]) hmem _ _))
            fun _ _ _ => trivial
      · refine .forEach Matched.mono fun loan hloan => ?_
        have hmem : loan ∈ rows := hentries loan hloan
        unfold reconcileStale
        split
        · trivial
        · exact .bind (reconcileLoan_asks (by simp [hrows]) hmem _ _) fun _ _ _ => trivial

end Asks

theorem mem_loansByAddress {rows bucket : List (Loan × Option User)} {entry : Loan × Option User}
    (hbucket : bucket ∈ loansByAddress rows) (hentry : entry ∈ bucket) : entry ∈ rows := by
  rcases List.mem_map.mp hbucket with ⟨address, -, rfl⟩
  exact (List.mem_filter.mp hentry).1

theorem syncLoansWithChain_asks : syncLoansWithChain.AsksAfter Matched [] := by
  refine .bind (AsksAfter.settled (.call_bind trivial fun unsettledLoans => ?_)) fun _ _ _ =>
    trivial
  split
  · trivial
  refine .call_bind trivial fun currentLedger => .forEach Matched.mono fun batch hbatch => ?_
  refine .call_bind trivial fun order =>
    .bind (.allSettled Matched.mono order fun p hp => ?_) fun _ _ _ => trivial
  rcases List.mem_map.mp hp with ⟨bucket, hbucket, rfl⟩
  exact syncAddress_asks (by simp) currentLedger fun entry hentry =>
    mem_loansByAddress (mem_toChunks.mpr ⟨batch, hbatch, hbucket⟩) hentry

/-! ## Rows in step with the chain -/

theorem Placed.of_same (h : Placed t) (hloans : s.loans = t.loans)
    (hhistory : s.history = t.history) : Placed s := by
  intro row hrow
  rw [hloans] at hrow
  rcases h row hrow with ⟨before, loan, after, hbetween⟩
  exact ⟨before, loan, after, hhistory.trans hbetween.history, hbetween.own, hbetween.earlier,
    hloans ▸ hbetween.later⟩

/-- Every closed loan has its row, rows start when their loans do, and a wallet opens a loan
after the second in which its last one was closed. -/
structure InStep (s : Book) : Prop where
  rows : ∀ row ∈ s.loans, ∃ loan ∈ s.history, OpenedFor loan row ∧
    row.startAt = loan.opened.timestamp * 1000
  recorded : ∀ loan ∈ s.history, loan.closed ≠ none →
    ∃ row ∈ s.loans, row.borrowerAddress = loan.opened.borrower ∧
    row.startAt = loan.opened.timestamp * 1000
  ordered : ∀ loan ∈ s.history,
    ∀ event, loan.closed = some event → loan.opened.timestamp ≤ event.timestamp
  spaced : s.history.Pairwise fun earlier later => earlier.opened.borrower = later.opened.borrower →
    earlier.opened.timestamp < later.opened.timestamp ∧
      ∀ event, earlier.closed = some event → event.timestamp < later.opened.timestamp

theorem InStep.placed (h : InStep s) : Placed s := by
  intro row hrow
  rcases h.rows row hrow with ⟨loan, hloan, hown, hstart⟩
  rcases List.append_of_mem hloan with ⟨before, after, hhistory⟩
  have hspaced := h.spaced
  rw [hhistory] at hspaced
  rcases List.pairwise_append.mp hspaced with ⟨-, hrest, hcross⟩
  have hlater := (List.pairwise_cons.mp hrest).1
  refine ⟨before, loan, after, hhistory, hown, fun event hevent => ?_, fun event hevent => ?_⟩
  · rcases mem_closingsAmong.mp hevent with ⟨closed, hclosed, hborrower, hcloses⟩
    have hover :=
      (hcross closed hclosed loan List.mem_cons_self (hborrower.trans hown.1.symm)).2 event hcloses
    omega
  · rcases mem_closingsAmong.mp hevent with ⟨closed, hclosed, hborrower, hcloses⟩
    have hmem : closed ∈ s.history := by simp [hhistory, hclosed]
    have hfollows := (hlater closed hclosed (hown.1.trans hborrower.symm)).1
    have hends := h.ordered closed hmem event hcloses
    rcases h.recorded closed hmem (by simp [hcloses]) with ⟨other, hother, hwallet, hbegins⟩
    exact ⟨other, hother, hwallet.trans hborrower, by omega, by omega⟩

/-! ## Whole syncs -/

/-- What the sync has exchanged so far still stands. -/
structure Stands (past : List Asked) (s : Book) : Prop where
  tidy : Tidy s
  shown : ∀ y ∈ past, Shown s y

theorem Stands.exchange {x : Asked} (h : Stands past s) (hmatched : Matched past x.1)
    (hx : Interleaved sdk s x s') :
    Stands (past ++ [x]) s' := by
  rcases hx with ⟨t, hturns, hresponds, hplaced⟩
  have htidy := (h.tidy.turns hturns).1
  have hpast : ∀ y ∈ past, Shown t y := fun y hy => (h.shown y hy).turns h.tidy hturns
  refine ⟨(htidy.exchange hresponds).1, fun y hy => ?_⟩
  rcases List.mem_append.mp hy with hold | hnew
  · exact (hpast y hold).turn htidy (.exchange x hresponds)
  · rw [List.mem_singleton.mp hnew]
    exact hresponds.shown htidy hpast hmatched hplaced

/-- Whatever others do beside it, a sync that meets placed rows closes each row with the
closing of the row's own loan. -/
theorem sync_closes_with_own_receipt {asked : List Asked}
    {out : Except HttpError Unit} {loanId : Nat}
    {event : ChainLoanClosedEvent} {onTime : Bool} (htidy : Tidy s)
    (hexec : Exec (Interleaved sdk) s syncLoansWithChain asked out s')
    (hwrites : ⟨.reconcileTransaction loanId (some event), .ok (some (row, onTime))⟩ ∈ asked) :
    ∃ loan ∈ s'.history, ReceiptOf loan event row := by
  have hstands : Stands ([] ++ asked) s' := hexec.after syncLoansWithChain_asks
    (fun past s x s' hstands hmatched hx => hstands.exchange hmatched hx) ⟨htidy, by simp⟩
  exact hstands.shown _ hwrites

/-- A wallet whose first loan was closed and whose second is open, both with rows. -/
def twoLoanRow (id : Nat) (txHash : Text) (startAt : Int) : Loan where
  id := id
  userId := 1
  borrowerAddress := scanWallet
  principal := 1
  amountDueAtOpen := 1
  amountPaid := 0
  tenorDays := 7
  feeBps := 1500
  startAt := startAt
  dueAt := startAt + 604800000
  status := .open
  repaidOnTime := false
  openTxHash := some txHash

def firstClosing : ChainLoanClosedEvent := ⟨scanWallet, 10150000, "close".toList, 20, 1100000⟩

def twoLoanBook : Book where
  now := 1300000000
  ledger := 40
  history :=
    [⟨⟨scanWallet, 10000000, 10150000, 1604800, 150, 10, "first".toList, 1000000⟩,
      some firstClosing⟩,
    ⟨⟨scanWallet, 10000000, 10150000, 1804800, 150, 30, "second".toList, 1200000⟩, none⟩]
  loans := [twoLoanRow 1 "first".toList 1000000000, twoLoanRow 2 "second".toList 1200000000]
  users := [⟨1, scanWallet, none, none, 0, false⟩]
  cursor := none
  nextId := 3

/-- A transaction is answered in a book with these rows and loans. -/
def twoLoanWorld (s : Book) (ask : Ask) : Except HttpError (Answer ask) × Book :=
  if ask.writes = true ∧ ¬(s.loans = twoLoanBook.loans ∧ s.history = twoLoanBook.history) then
    (.error ⟨.rejected, ""⟩, s)
  else smoothWorld scanSdk s ask

theorem twoLoanBook_inStep : InStep twoLoanBook := by
  refine ⟨?_, ?_, ?_, ?_⟩
  · intro row hrow
    rcases List.mem_cons.mp hrow with rfl | hrest
    · exact ⟨_, List.mem_cons_self, ⟨rfl, rfl⟩, rfl⟩
    · rw [List.mem_singleton.mp hrest]
      exact ⟨_, List.mem_cons_of_mem _ List.mem_cons_self, ⟨rfl, rfl⟩, rfl⟩
  · intro loan hloan hclosed
    rcases List.mem_cons.mp hloan with rfl | hrest
    · exact ⟨_, List.mem_cons_self, rfl, rfl⟩
    · rw [List.mem_singleton.mp hrest] at hclosed
      exact absurd rfl hclosed
  · intro loan hloan event hclosed
    rcases List.mem_cons.mp hloan with rfl | hrest
    · cases hclosed
      decide
    · rw [List.mem_singleton.mp hrest] at hclosed
      cases hclosed
  · refine List.pairwise_cons.mpr ⟨fun later hlater _ => ?_, List.pairwise_singleton _ _⟩
    rw [List.mem_singleton.mp hlater]
    refine ⟨by decide, fun event hevent => ?_⟩
    cases hevent
    decide

theorem twoLoanWorld_interleaved (s : Book) (ask : Ask) :
    Interleaved scanSdk s ⟨ask, (twoLoanWorld s ask).1⟩ (twoLoanWorld s ask).2 := by
  unfold twoLoanWorld
  split
  · refine ⟨s, .refl, rfl, fun hreconciles => ?_⟩
    cases ask with
    | reconcileTransaction loanId event => cases event <;> cases hreconciles
    | _ => cases hreconciles
  · rename_i hanswered
    refine ⟨s, .refl, smoothWorld_responds scanSdk s ask, fun hreconciles => ?_⟩
    cases ask with
    | reconcileTransaction loanId event =>
        have hsame : s.loans = twoLoanBook.loans ∧ s.history = twoLoanBook.history := by
          simpa [Ask.writes] using hanswered
        exact twoLoanBook_inStep.placed.of_same hsame.1 hsame.2
    | _ => cases hreconciles

theorem twoLoanRow_consistent (id : Nat) (txHash : Text) (startAt : Int) :
    Consistent (twoLoanRow id txHash startAt) :=
  ⟨fun _ => rfl, by simp [twoLoanRow, LoanStatus.isRepaid], by simp [twoLoanRow, falsy],
    by simp [twoLoanRow], by simp [twoLoanRow]⟩

theorem twoLoanBook_tidy : Tidy twoLoanBook := by
  refine ⟨⟨by decide, by decide, by decide⟩, fun row hrow => ?_⟩
  rcases List.mem_cons.mp hrow with rfl | hrest
  · exact twoLoanRow_consistent ..
  · rw [List.mem_singleton.mp hrest]
    exact twoLoanRow_consistent ..

theorem sync_closes_with_own_receipt_twoLoanBook :
    ∃ loan ∈ (Exec.simulate twoLoanWorld twoLoanBook syncLoansWithChain).2.2.history,
      ReceiptOf loan firstClosing
        (Book.reconciledRow (twoLoanRow 1 "first".toList 1000000000) firstClosing) := by
  have hwrites : (⟨.reconcileTransaction 1 (some firstClosing), .ok (some
      (Book.reconciledRow (twoLoanRow 1 "first".toList 1000000000) firstClosing, true))⟩ : Asked) ∈
        (Exec.simulate twoLoanWorld twoLoanBook syncLoansWithChain).1 :=
        List.mem_of_getElem? (i := 5) rfl
  exact sync_closes_with_own_receipt twoLoanBook_tidy
    (Exec.of_simulate twoLoanWorld_interleaved syncLoansWithChain twoLoanBook) hwrites

end LoanBook

end Lendoor.Backend
