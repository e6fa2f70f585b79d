import Lendoor.Backend.OpenedScan

/-! # The life of a row

Requests, syncs and scans whose calls interleave in any order. Whatever the order, a row is
never deleted, it keeps the terms it was opened with, and it is written once more at most
after it was closed, for the receipt that it had lacked.
-/

namespace Lendoor.Backend

open Cctp (Text falsy)

namespace LoanBook

/-- One turn of the server and the chain: a call of whoever goes on next gets its answer, a
user joins, a ledger closes, time passes. -/
inductive Turn (sdk : LoanSdk) : Book → Book → Prop
  | exchange {s s' : Book} (x : Asked) (hx : Responds sdk s x s') : Turn sdk s s'
  | join {s : Book} (user : User) : Turn sdk s { s with users := s.users ++ [user] }
  | closeLedger {s : Book} {ledger : Nat} {timestamp : Int} {history : List ChainLoan}
      (hlater : s.ledger < ledger)
      (hcloses : Relation.ReflTransGen (ChainStep ledger timestamp) s.history history) :
      Turn sdk s { s with ledger := ledger, history := history }
  | wait {s : Book} (now : Int) (hlater : s.now ≤ now) : Turn sdk s { s with now := now }

abbrev Turns (sdk : LoanSdk) : Book → Book → Prop := Relation.ReflTransGen (Turn sdk)

/-- What a row is opened with. -/
structure Terms where
  loan : Nat × Nat × Text × Option Text × Int
  principal : ℚ
  amountDueAtOpen : ℚ
  tenorDays : Int
  feeBps : Int
  dueAt : Int
  deriving DecidableEq

def Loan.terms (row : Loan) : Terms :=
  ⟨row.key, row.principal, row.amountDueAtOpen, row.tenorDays, row.feeBps, row.dueAt⟩

def LoanStatus.isRepaid : LoanStatus → Bool
  | .repaidOnTime | .repaidLate => true
  | _ => false

/-- The columns of a closing agree: a receipt is of a loan that was repaid, a loan that was
repaid has the time of it, and on time is what that time says. -/
structure Consistent (row : Loan) : Prop where
  opened : row.status = .open → row.closedAt = none
  closed : row.status.isRepaid = true → row.closedAt.isSome = true
  receipt : falsy row.closeTxHash = false → row.status.isRepaid = true
  repaid : row.repaidOnTime = true ↔ row.status = .repaidOnTime
  onTime : row.repaidOnTime = true → ∃ time, row.closedAt = some time ∧
    Book.onTime row.dueAt time = true

/-- What may become of a row. -/
structure Becomes (row row' : Loan) : Prop where
  terms : row'.terms = row.terms
  closes : row' = row ∨ falsy row.closeTxHash = true ∧ row'.status.isRepaid = true

/-- The rows are told apart by their ids and by the hashes of their openings. -/
structure Apart (s : Book) : Prop where
  ids : (s.loans.map Loan.id).Nodup
  next : ∀ row ∈ s.loans, row.id < s.nextId
  hashes : (openHashes s).Nodup

/-- The rows are apart, and the columns of each agree. -/
structure Tidy (s : Book) : Prop where
  apart : Apart s
  rows : ∀ row ∈ s.loans, Consistent row

/-- The rows of a book live on in another, in their order. -/
def LiveOn (s t : Book) : Prop := List.SublistForall₂ Becomes s.loans t.loans

variable {sdk : LoanSdk} {s s' t u : Book} {row row' : Loan}

theorem Becomes.refl (row : Loan) : Becomes row row := ⟨rfl, .inl rfl⟩

theorem Becomes.trans {row'' : Loan} (h : Becomes row row') (h' : Becomes row' row'') :
    Becomes row row'' := by
  refine ⟨h'.terms.trans h.terms, ?_⟩
  rcases h.closes with rfl | ⟨hopen, hrepaid⟩
  · exact h'.closes
  · rcases h'.closes with rfl | ⟨-, hrepaid'⟩
    · exact .inr ⟨hopen, hrepaid⟩
    · exact .inr ⟨hopen, hrepaid'⟩

theorem Becomes.id_eq (h : Becomes row row') : row'.id = row.id :=
  congrArg (fun terms => terms.loan.1) h.terms

theorem Becomes.openTxHash_eq (h : Becomes row row') : row'.openTxHash = row.openTxHash :=
  congrArg (fun terms => terms.loan.2.2.2.1) h.terms

instance instReflBecomes : Std.Refl Becomes := ⟨Becomes.refl⟩

instance instIsTransBecomes : IsTrans Loan Becomes := ⟨fun _ _ _ => Becomes.trans⟩

theorem LiveOn.refl (s : Book) : LiveOn s s := refl_of (List.SublistForall₂ Becomes) s.loans

theorem LiveOn.trans (h : LiveOn s t) (h' : LiveOn t u) : LiveOn s u :=
  trans_of (List.SublistForall₂ Becomes) h h'

/-! ## One turn -/

theorem LiveOn.of_map {update : Loan → Loan} {inserted : List Loan}
    (hupdate : ∀ row ∈ s.loans, Becomes row (update row))
    (ht : t.loans = s.loans.map update ++ inserted) : LiveOn s t := by
  rw [LiveOn, ht, List.sublistForall₂_iff]
  refine ⟨s.loans.map update, ?_, List.sublist_append_left _ _⟩
  rw [List.forall₂_map_right_iff]
  exact List.forall₂_same.mpr hupdate

theorem byOpenTx_none {txHash : Text} : s.byOpenTx txHash = none ↔ some txHash ∉ openHashes s := by
  simp [Book.byOpenTx, openHashes, List.find?_eq_none]

theorem repayable_open {userId : Nat} (h : s.repayable userId = some row) :
    row.closeTxHash = none := by
  have hmem := List.maxOn?_mem h
  simp only [List.mem_filter, decide_eq_true_eq] at hmem
  exact hmem.2.2.2

theorem Apart.of_rows (h : Apart s) (hids : t.loans.map Loan.id = s.loans.map Loan.id)
    (hhashes : openHashes t = openHashes s)
    (hnext : t.nextId = s.nextId) : Apart t := by
  refine ⟨hids ▸ h.ids, fun row hrow => ?_, hhashes ▸ h.hashes⟩
  have hid : row.id ∈ s.loans.map Loan.id := hids ▸ List.mem_map_of_mem hrow
  rcases List.mem_map.mp hid with ⟨old, hold, hsame⟩
  rw [hnext, ← hsame]
  exact h.next old hold

/-- Rows that become others stay apart. -/
theorem Apart.map (h : Apart s) {update : Loan → Loan}
    (hupdate : ∀ row ∈ s.loans, Becomes row (update row)) :
    Apart { s with loans := s.loans.map update } := by
  refine h.of_rows ?_ ?_ rfl
  · simp only [List.map_map]
    exact List.map_congr_left fun row hrow => (hupdate row hrow).id_eq
  · simp only [openHashes, List.map_map]
    exact List.map_congr_left fun row hrow => (hupdate row hrow).openTxHash_eq

theorem Tidy.of_loans (h : Tidy s) (hloans : t.loans = s.loans) (hnext : t.nextId = s.nextId) :
    Tidy t := by
  refine ⟨h.apart.of_rows (by rw [hloans]) (by rw [openHashes, hloans]; rfl) hnext,
    fun row hrow => ?_⟩
  rw [hloans] at hrow
  exact h.rows row hrow

theorem Tidy.map (h : Tidy s) {update : Loan → Loan}
    (hupdate : ∀ row ∈ s.loans, Becomes row (update row))
    (hrows : ∀ row ∈ s.loans, Consistent (update row)) :
    Tidy { s with loans := s.loans.map update } := by
  refine ⟨h.apart.map hupdate, fun row hrow => ?_⟩
  rcases List.mem_map.mp hrow with ⟨old, hold, rfl⟩
  exact hrows old hold

/-- A row is saved over the row that it becomes of. -/
theorem Tidy.saveLoan (h : Tidy s) (hrow : row ∈ s.loans) (hbecomes : Becomes row row')
    (hconsistent : Consistent row') :
    Tidy (s.saveLoan row') ∧ LiveOn s (s.saveLoan row') := by
  have hupdate : ∀ other ∈ s.loans, Becomes other (if other.id = row'.id then row' else other) := by
    intro other hother
    split
    · rename_i hid
      rw [← List.inj_on_of_nodup_map h.apart.ids hrow hother (hbecomes.id_eq ▸ hid.symm)]
      exact hbecomes
    · exact .refl other
  refine ⟨h.map hupdate fun other hother => ?_, LiveOn.of_map hupdate (List.append_nil _).symm⟩
  split
  · exact hconsistent
  · exact h.rows other hother

theorem Tidy.insert (h : Tidy s) {txHash : Text} (hid : row.id = s.nextId)
    (hhash : row.openTxHash = some txHash)
    (hnew : s.byOpenTx txHash = none) (hconsistent : Consistent row) :
    Tidy (s.insert row) ∧ LiveOn s (s.insert row) := by
  have hsame : ∀ row ∈ s.loans, Becomes row (id row) := fun row _ => .refl row
  refine ⟨⟨⟨?_, ?_, ?_⟩, ?_⟩, LiveOn.of_map hsame (by rw [List.map_id]; rfl)⟩
  · simp only [Book.insert, List.map_append, List.map_cons, List.map_nil]
    refine List.nodup_append.mpr ⟨h.apart.ids, List.nodup_singleton _,
      fun id hmem other hother => ?_⟩
    rcases List.mem_map.mp hmem with ⟨old, hold, rfl⟩
    have hlt := h.apart.next old hold
    rw [List.mem_singleton.mp hother, hid]
    omega
  · intro other hother
    rcases List.mem_append.mp hother with hold | hnew
    · exact Nat.lt_succ_of_lt (h.apart.next other hold)
    · rw [List.mem_singleton.mp hnew, hid]
      exact Nat.lt_succ_self _
  · have hhashes : openHashes (s.insert row) = openHashes s ++ [row.openTxHash] := by
      simp [openHashes, Book.insert]
    rw [hhashes]
    exact openHashes_insert row hhash hnew h.apart.hashes
  · intro other hother
    rcases List.mem_append.mp hother with hold | hnew
    · exact h.rows other hold
    · rw [List.mem_singleton.mp hnew]
      exact hconsistent

theorem missingLoan_consistent (id userId : Nat) (event : ChainLoanOpenedEvent) :
    Consistent (missingLoan id userId event) :=
  ⟨fun _ => rfl, by simp [missingLoan, LoanStatus.isRepaid], by simp [missingLoan, falsy],
    by simp [missingLoan], by simp [missingLoan]⟩

theorem informedLoan_consistent (id userId : Nat) (wallet : Text) (principalDec : ℚ)
    (tenor : Nat) (feeBps : Int)
    (txHash : Text) (now : Int) :
    Consistent (informedLoan id userId wallet principalDec tenor feeBps txHash now) :=
  ⟨fun _ => rfl, by simp [informedLoan, LoanStatus.isRepaid], by simp [informedLoan, falsy],
    by simp [informedLoan], by simp [informedLoan]⟩

theorem autoClose_becomes (now : Int) (userId : Nat) (row : Loan) :
    Becomes row (Book.autoClose now userId row) := by
  unfold Book.autoClose
  split
  · rename_i hdefaulted
    exact ⟨rfl, .inr ⟨by rw [hdefaulted.2.2.2]; rfl, rfl⟩⟩
  · exact .refl row

theorem autoClose_consistent {now : Int} {userId : Nat} (h : Consistent row) :
    Consistent (Book.autoClose now userId row) := by
  unfold Book.autoClose
  split
  · exact ⟨by simp, by simp, by simp [LoanStatus.isRepaid], by simp, by simp⟩
  · exact h

theorem repaidRow_becomes {amount : ℚ} {txHash : Option Text} {now : Int}
    (hopen : row.closeTxHash = none) :
    Becomes row (Book.repaidRow row amount txHash now) := by
  refine ⟨rfl, .inr ⟨by rw [hopen]; rfl, ?_⟩⟩
  unfold Book.repaidRow
  dsimp only
  split <;> rfl

theorem repaidRow_consistent (row : Loan) (amount : ℚ) (txHash : Option Text) (now : Int) :
    Consistent (Book.repaidRow row amount txHash now) := by
  unfold Book.repaidRow
  by_cases hontime : Book.onTime row.dueAt now = true
  · refine ⟨by simp [hontime], by simp, by simp [hontime, LoanStatus.isRepaid], by simp [hontime],
      fun _ => ⟨now, rfl, hontime⟩⟩
  · refine ⟨by simp [hontime], by simp, by simp [hontime, LoanStatus.isRepaid], by simp [hontime],
      fun h => absurd h hontime⟩

theorem reconciledRow_becomes {event : ChainLoanClosedEvent}
    (hopen : falsy row.closeTxHash = true) :
    Becomes row (Book.reconciledRow row event) := by
  refine ⟨rfl, .inr ⟨hopen, ?_⟩⟩
  unfold Book.reconciledRow
  dsimp only
  split <;> rfl

theorem reconciledRow_consistent (row : Loan) (event : ChainLoanClosedEvent) :
    Consistent (Book.reconciledRow row event) := by
  unfold Book.reconciledRow
  by_cases hontime : Book.onTime row.dueAt (event.timestamp * 1000) = true
  · exact ⟨by simp [hontime], by simp, by simp [hontime, LoanStatus.isRepaid], by simp [hontime],
      fun _ => ⟨_, rfl, hontime⟩⟩
  · exact ⟨by simp [hontime], by simp, by simp [hontime, LoanStatus.isRepaid], by simp [hontime],
      fun h => absurd h hontime⟩

/-- An exchange of whoever it is keeps the book tidy, and its rows live on. -/
theorem Tidy.exchange {x : Asked} (h : Tidy s) (hx : Responds sdk s x s') :
    Tidy s' ∧ LiveOn s s' := by
  rcases x with ⟨ask, error | answer⟩
  · rw [hx.error]
    exact ⟨h, .refl s⟩
  cases ask with
  | saveUser user =>
      have hs' : s' = s.saveUser user := hx.ok
      rw [hs']
      exact ⟨h.of_loans rfl rfl, .refl s⟩
  | saveCursor block bootstrap =>
      have hs' : s' = { s with cursor := some block } := hx.ok
      rw [hs']
      exact ⟨h.of_loans rfl rfl, .refl s⟩
  | openTransaction opening =>
      rcases openTransaction_inv hx.ok with rfl | ⟨hnew, rfl⟩
      · exact ⟨h, .refl s'⟩
      · have hbecomes := fun row (_ : row ∈ s.loans) => autoClose_becomes s.now opening.userId row
        have hclosed := h.map hbecomes fun row hrow => autoClose_consistent (h.rows row hrow)
        have hunknown : Book.byOpenTx
            { s with loans := s.loans.map (Book.autoClose s.now opening.userId) } opening.txHash =
            none := by
          rw [byOpenTx_none, openHashes, openHashes_autoClose]
          exact byOpenTx_none.mp hnew
        have hconsistent :=
          informedLoan_consistent s.nextId opening.userId opening.wallet
            opening.principalDec opening.tenor
          opening.feeBps opening.txHash s.now
        have hinserted := hclosed.insert rfl rfl hunknown hconsistent
        exact ⟨hinserted.1, (LiveOn.of_map hbecomes (List.append_nil _).symm).trans hinserted.2⟩
  | repayTransaction repayment =>
      rcases repayTransaction_inv hx.ok with ⟨row, amount, hrow, -, hs'⟩
      have hbecomes : Becomes row (Book.repaidRow row amount repayment.txHash s.now) :=
        repaidRow_becomes (repayable_open hrow)
      have hsaved := h.saveLoan (repayable_mem hrow).1 hbecomes (repaidRow_consistent ..)
      rcases hs' with rfl | rfl
      · exact hsaved
      · exact ⟨hsaved.1.of_loans rfl rfl, hsaved.2⟩
  | reconcileTransaction loanId eventData =>
      rcases reconcileTransaction_inv hx.ok with rfl | ⟨row, event, hrow, -, halone, rfl⟩
      · exact ⟨h, .refl s'⟩
      · have hopen : falsy row.closeTxHash = true := by
          simp only [Book.leavesAlone, Bool.or_eq_false_iff, decide_eq_false_iff_not] at halone
          simpa using halone.1.1
        exact h.saveLoan (List.mem_of_find?_eq_some hrow) (reconciledRow_becomes hopen)
          (reconciledRow_consistent ..)
  | insertMissing userId event =>
      rcases insertMissing_inv hx.ok with ⟨-, rfl⟩ | ⟨hnew, rfl⟩
      · exact ⟨h, .refl s'⟩
      · exact h.insert rfl rfl hnew (missingLoan_consistent ..)
  | _ =>
      rw [hx.reads rfl]
      exact ⟨h, .refl s⟩

/-! ## Whole runs -/

theorem Tidy.turn (h : Tidy s) (hturn : Turn sdk s s') : Tidy s' ∧ LiveOn s s' := by
  cases hturn with
  | exchange x hx => exact h.exchange hx
  | join | closeLedger | wait => exact ⟨h.of_loans rfl rfl, .refl s⟩

theorem Tidy.turns (h : Tidy s) (hturns : Turns sdk s t) : Tidy t ∧ LiveOn s t := by
  induction hturns with
  | refl => exact ⟨h, .refl s⟩
  | tail _ hturn ih =>
      have hnext := ih.1.turn hturn
      exact ⟨hnext.1, ih.2.trans hnext.2⟩

theorem LiveOn.mem (h : LiveOn s t) (hrow : row ∈ s.loans) :
    ∃ row' ∈ t.loans, Becomes row row' := by
  rcases List.sublistForall₂_iff.mp h with ⟨lived, hlived, hsub⟩
  rcases List.mem_iff_getElem.mp hrow with ⟨k, hk, rfl⟩
  have hk' : k < lived.length := hlived.length_eq ▸ hk
  exact ⟨lived[k], hsub.subset (List.getElem_mem hk'), hlived.get hk hk'⟩

/-- Whatever the order of calls, a row that was ever written is there for good: one row has
its id, on the terms it was opened with. It is the same row unless it was closed since, and
once it has its receipt it is the same row. -/
theorem row_kept (htidy : Tidy s) (hrow : row ∈ s.loans) (hturns : Turns sdk s t) :
    ∃ row' ∈ t.loans, (∀ other ∈ t.loans, other.id = row.id → other = row') ∧
      row'.terms = row.terms ∧
      (row' ≠ row → row'.status.isRepaid = true) ∧ (falsy row.closeTxHash = false → row' = row) ∧
        Consistent row' := by
  rcases htidy.turns hturns with ⟨htidy', hlive⟩
  rcases hlive.mem hrow with ⟨row', hrow', hbecomes⟩
  refine ⟨row', hrow', fun other hother hid => ?_, hbecomes.terms,
    fun hchanged => ?_, fun hreceipt => ?_, htidy'.rows row' hrow'⟩
  · exact List.inj_on_of_nodup_map htidy'.apart.ids hother hrow' (hid.trans hbecomes.id_eq.symm)
  · rcases hbecomes.closes with hsame | ⟨-, hrepaid⟩
    · exact absurd hsame hchanged
    · exact hrepaid
  · rcases hbecomes.closes with hsame | ⟨hopen, -⟩
    · exact hsame
    · rw [hreceipt] at hopen
      cases hopen

theorem tidy_emptyBook (now : Int) (ledger : Nat) : Tidy (emptyBook now ledger) :=
  ⟨⟨.nil, by simp [emptyBook], .nil⟩, by simp [emptyBook]⟩

theorem turn_smooth (s : Book) (ask : Ask) : Turn scanSdk s (smoothWorld scanSdk s ask).2 :=
  .exchange ⟨ask, (smoothWorld scanSdk s ask).1⟩ (smoothWorld_responds scanSdk s ask)

/-- A book with the row of one opened loan, and the book once the sync has closed it. -/
def openedBook : Book :=
  (smoothWorld scanSdk (emptyBook 1000000 10) (.insertMissing 1 scanOpening)).2

def reconciledBook : Book :=
  (smoothWorld scanSdk openedBook
    (.reconcileTransaction 1 (some ⟨scanWallet, 10150000, "close".toList, 20, 1100000⟩))).2

theorem row_kept_reconciled : openedBook.loans.map Loan.status = [.open] ∧
    reconciledBook.loans.map Loan.status = [.repaidOnTime] ∧
    ∃ row' ∈ reconciledBook.loans,
      (∀ other ∈ reconciledBook.loans, other.id = (missingLoan 1 1 scanOpening).id → other = row') ∧
      row'.terms = (missingLoan 1 1 scanOpening).terms ∧
      (row' ≠ missingLoan 1 1 scanOpening → row'.status.isRepaid = true) ∧
      (falsy (missingLoan 1 1 scanOpening).closeTxHash = false →
        row' = missingLoan 1 1 scanOpening) ∧ Consistent row' :=
  ⟨by decide, by decide,
    row_kept ((tidy_emptyBook _ _).turn (turn_smooth _ _)).1 (by exact List.mem_singleton_self _)
    (.single (turn_smooth openedBook _))⟩

end LoanBook

end Lendoor.Backend
