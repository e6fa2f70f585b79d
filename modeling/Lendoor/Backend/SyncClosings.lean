import Lendoor.Backend.CloseAttribution

/-! # The closings that a sync may take

A sync takes the latest closing that the server shows from the start of a row on. A sync
that nobody interrupts closes each row with the closing of the row's own loan wherever that
one is the latest, or other rows keep the row from it, and it is wrong where the row of a
later loan is missing.
-/

namespace Lendoor.Backend

open Cctp (Text falsy)
open Async (AsksAfter settled)

namespace LoanBook

variable {sdk : LoanSdk} {s s' u : Book} {row row' : Loan} {loan : ChainLoan} {past : List Asked}
  {event : ChainLoanClosedEvent} {entry : Loan × Option User}

/-! ## What tells the closings apart -/

/-- What the server shows from the start of the row on. -/
def candidates (s : Book) (row : Loan) : List ChainLoanClosedEvent :=
  (s.closings row.borrowerAddress).filter fun event =>
    s.ledger - 100000 ≤ event.ledger ∧ event.ledger ≤ s.ledger ∧
      row.startAt / 1000 ≤ event.timestamp

/-- Another row keeps the row from the event: it began after the row and no later than the
event, or the event is its receipt. -/
def KeptOff (s : Book) (row : Loan) (event : ChainLoanClosedEvent) : Prop :=
  (∃ other ∈ s.loans, other.borrowerAddress = row.borrowerAddress ∧
    row.startAt < other.startAt ∧ other.startAt ≤ event.timestamp * 1000) ∨
  ∃ other ∈ s.loans, other.closeTxHash = some event.txHash ∧ falsy other.closeTxHash = false

/-- The closing of another loan is followed by one more, or the row is kept from it. -/
def Attributable (s : Book) (row : Loan) : Prop :=
  ∃ loan ∈ s.history, OpenedFor loan row ∧
    ∀ event ∈ candidates s row, loan.closed ≠ some event →
      (∃ later ∈ candidates s row,
        toLex (event.timestamp, event.ledger) < toLex (later.timestamp, later.ledger)) ∨
      KeptOff s row event

/-- The rows of a wallet that a sync works on, the newest first. -/
def unsettledOf (s : Book) (wallet : Text) : List (Loan × Option User) :=
  s.unsettledLoans.filter fun entry => entry.1.borrowerAddress = wallet

/-- The row is the newest of its wallet, and the slot is taken by a loan with its start. -/
def Current (s : Book) (row : Loan) : Prop :=
  ((unsettledOf s row.borrowerAddress).head?.map Prod.fst = some row) ∧
    ∃ slot, s.ShowsSlot row.borrowerAddress slot ∧ slot.active = true ∧
      isChainCurrent slot row = true

theorem Becomes.closed_eq (h : Becomes row row') (hclosed : falsy row.closeTxHash = false) :
    row' = row := by
  rcases h.closes with hsame | ⟨hopen, -⟩
  · exact hsame
  · rw [hopen] at hclosed
    cases hclosed

/-- Rows live on, and keep each other from what they kept each other from. -/
theorem KeptOff.liveOn (h : KeptOff s row event) (hlive : LiveOn s u)
    (hbecomes : Becomes row row') : KeptOff u row' event := by
  rcases h with ⟨other, hother, hwallet, hafter, hbefore⟩ | ⟨other, hother, hhash, hclosed⟩
  · rcases hlive.mem hother with ⟨other', hother', hlater⟩
    refine .inl ⟨other', hother', ?_, ?_, ?_⟩
    · rw [hlater.borrowerAddress_eq, hbecomes.borrowerAddress_eq, hwallet]
    · rw [hlater.startAt_eq, hbecomes.startAt_eq]
      exact hafter
    · rw [hlater.startAt_eq]
      exact hbefore
  · rcases hlive.mem hother with ⟨other', hother', hlater⟩
    rw [hlater.closed_eq hclosed] at hother'
    exact .inr ⟨other, hother', hhash, hclosed⟩

theorem KeptOff.leavesAlone (h : KeptOff s row event) (htidy : Tidy s) (hrow : row ∈ s.loans) :
    s.leavesAlone row event = true := by
  rcases h with ⟨other, hother, hwallet, hafter, hbefore⟩ | ⟨other, hother, hhash, hclosed⟩
  · exact leavesAlone_of_closer htidy hrow hother hwallet hafter hbefore
  cases hopen : falsy row.closeTxHash with
  | false => simp [Book.leavesAlone, hopen]
  | true =>
      cases hfound : s.byCloseTx event.txHash with
      | none =>
          have hnone := List.find?_eq_none.mp hfound other hother
          simp [hhash] at hnone
      | some found =>
          have hreceipt : found.closeTxHash = some event.txHash := by
            simpa using List.find?_some hfound
          have hne : found.id ≠ row.id := by
            intro hid
            have hsame := List.inj_on_of_nodup_map htidy.apart.ids
              (List.mem_of_find?_eq_some hfound) hrow hid
            rw [← hsame, hreceipt, ← hhash, hclosed] at hopen
            cases hopen
          simp [Book.leavesAlone, hfound, hne]

/-- Nothing that the server shows comes after the last closing. -/
theorem lastClosing_last (h : s.lastClosing row.borrowerAddress row.startAt s.ledger = some event) :
    event ∈ candidates s row ∧ ∀ later ∈ candidates s row,
      ¬ toLex (event.timestamp, event.ledger) < toLex (later.timestamp, later.ledger) := by
  refine ⟨List.maxOn?_mem h, fun later hlater => not_lt.mpr ?_⟩
  have hle := List.le_apply_get_maxOn?_of_mem
    (f := fun event : ChainLoanClosedEvent => toLex (event.timestamp, event.ledger)) hlater
  have hget : (candidates s row).maxOn? (fun event => toLex (event.timestamp, event.ledger)) =
    some event := h
  simpa only [hget, Option.get_some] using hle

theorem Attributable.own_closing (h : Attributable s row)
    (hlast : s.lastClosing row.borrowerAddress row.startAt s.ledger = some event)
    (hfree : ¬ KeptOff s row event) :
    ∃ loan ∈ s.history, OpenedFor loan row ∧ loan.closed = some event := by
  rcases h with ⟨loan, hloan, hown, hothers⟩
  refine ⟨loan, hloan, hown, ?_⟩
  by_contra hother
  rcases lastClosing_last hlast with ⟨hmem, hmax⟩
  rcases hothers event hmem hother with ⟨later, hlater, hlt⟩ | hkept
  · exact hmax later hlater hlt
  · exact hfree hkept

/-! ## A whole sync -/

/-- A row is reconciled with what was found for it, once its wallet's slot was read and did
not turn out to be the row's. -/
def Leads (s : Book) (past : List Asked) : Ask → Prop
  | .reconcileTransaction loanId (some event) => ∃ entry latest older slot,
      entry.1.id = loanId ∧ unsettledOf s entry.1.borrowerAddress = latest :: older ∧
      entry ∈ latest :: older ∧
      ⟨.readLoanFull entry.1.borrowerAddress, .ok (some slot)⟩ ∈ past ∧
      (slot.active = true → isChainCurrent slot latest.1 = true → entry ∈ older) ∧
      ⟨.findLoanClosed entry.1.borrowerAddress entry.1.startAt s.ledger, .ok (some event)⟩ ∈ past
  | _ => True

theorem Leads.mono (past past' : List Asked) (ask : Ask) (hsub : past ⊆ past')
    (h : Leads s past ask) : Leads s past' ask := by
  unfold Leads at h ⊢
  split at h
  · rcases h with ⟨entry, latest, older, slot, hid, hbucket, hentry, hread, hskips, hfound⟩
    exact ⟨entry, latest, older, slot, hid, hbucket, hentry, hsub hread, hskips, hsub hfound⟩
  · trivial

theorem Leads.of_reads {ask : Ask} (h : ask.reconciles = false) : Leads s past ask := by
  cases ask with
  | reconcileTransaction => cases h
  | _ => trivial

theorem reconcileLoan_leads {latest : Loan × Option User} {older : List (Loan × Option User)}
    {slot : OnChainLoan} (hbucket : unsettledOf s entry.1.borrowerAddress = latest :: older)
    (hentry : entry ∈ latest :: older)
    (hread : ⟨.readLoanFull entry.1.borrowerAddress, .ok (some slot)⟩ ∈ past)
    (hskips : slot.active = true → isChainCurrent slot latest.1 = true → entry ∈ older)
    (user : User) : (reconcileLoan entry.1 user s.ledger).AsksAfter (Leads s) past := by
  refine .call_bind trivial fun eventData => .call_bind ?_ fun result => ?_
  · cases eventData with
    | none => trivial
    | some event =>
        exact ⟨entry, latest, older, slot, rfl, hbucket, hentry, by simp [hread], hskips, by simp⟩
  · cases result with
    | none => trivial
    | some closed =>
        refine .bind (AsksAfter.settled ?_) fun _ _ _ => trivial
        exact updateCreditScore_asks (fun _ _ => Leads.of_reads) ..

/-- What one address has of the unsettled rows is reconciled in its turn. -/
theorem syncAddress_leads {wallet : Text} :
    (syncAddress s.ledger (unsettledOf s wallet)).AsksAfter (Leads s) past := by
  cases hbucket : unsettledOf s wallet with
  | nil => trivial
  | cons latest older =>
      have hwallet : ∀ entry ∈ latest :: older, entry.1.borrowerAddress = wallet := by
        intro entry hentry
        rw [← hbucket] at hentry
        simpa using (List.mem_filter.mp hentry).2
      rcases latest with ⟨latest, - | user⟩
      · trivial
      refine .call_bind trivial fun read => ?_
      cases read with
      | none => trivial
      | some slot =>
          have hread : ∀ entry ∈ (latest, some user) :: older,
              (⟨.readLoanFull entry.1.borrowerAddress, .ok (some slot)⟩ : Asked) ∈
                past ++ [⟨.readLoanFull latest.borrowerAddress, .ok (some slot)⟩] := by
            intro entry hentry
            rw [hwallet entry hentry, hwallet (latest, some user) List.mem_cons_self]
            simp
          have hof : ∀ entry ∈ (latest, some user) :: older,
              unsettledOf s entry.1.borrowerAddress = (latest, some user) :: older :=
            fun entry hentry => (hwallet entry hentry).symm ▸ hbucket
          dsimp only
          split
          · refine .forEach Leads.mono fun ghost hghost => ?_
            have hmem : ghost ∈ (latest, some user) :: older := by
              split at hghost
              · exact List.mem_cons_of_mem _ hghost
              · exact hghost
            unfold reconcileGhost
            split
            · trivial
            · refine .bind (AsksAfter.settled ?_) fun _ _ _ => trivial
              refine reconcileLoan_leads (hof _ hmem) hmem (hread _ hmem) (fun _ hcurrent => ?_) _
              rw [if_pos hcurrent] at hghost
              exact hghost
          · rename_i hinactive
            refine .forEach Leads.mono fun loan hloan => ?_
            unfold reconcileStale
            split
            · trivial
            · refine .bind ?_ fun _ _ _ => trivial
              exact reconcileLoan_leads (hof _ hloan) hloan (hread _ hloan)
                (fun hactive => absurd hactive hinactive) _

theorem syncBatch_leads {batch : List (List (Loan × Option User))}
    (hbatch : batch ⊆ loansByAddress s.unsettledLoans) :
    (syncBatch s.ledger batch).AsksAfter (Leads s) past := by
  refine .call_bind trivial fun order => .bind (.allSettled Leads.mono order fun p hp => ?_)
    fun _ _ _ => trivial
  rcases List.mem_map.mp hp with ⟨bucket, hbucket, rfl⟩
  rcases List.mem_map.mp (hbatch hbucket) with ⟨wallet, -, rfl⟩
  exact syncAddress_leads

/-- A sync finds the unsettled rows and the ledger, and then goes through the addresses. -/
theorem syncLoansWithChain_inv {asked : List Asked} {out : Except HttpError Unit}
    (h : Exec (Responds sdk) s syncLoansWithChain asked out s') {x : Asked} (hx : x ∈ asked)
    (hreconciles : x.1.reconciles = true) :
    ∃ rest out', x ∈ rest ∧ Exec (Responds sdk) s
      (Async.forEach ((loansByAddress s.unsettledLoans).toChunks 5) (syncBatch s.ledger)) rest out'
      s' := by
  rcases h.bind_inv with ⟨error, hsync, -⟩ | ⟨_, t, before, after, rfl, hsync, hafter⟩
  · rcases hsync.settled_inv with ⟨_, hout, -⟩
    cases hout
  rcases Exec.pure_iff.mp hafter with ⟨rfl, -, rfl⟩
  rw [List.append_nil] at hx
  rcases hsync.settled_inv with ⟨out', -, hsync⟩
  rcases hsync.call_bind_inv with ⟨error, rfl, -⟩ | ⟨rows, u, rest, rfl, hrows, hrest⟩
  · rw [List.mem_singleton.mp hx] at hreconciles
    cases hreconciles
  rcases hrows with ⟨rfl, rfl⟩
  rcases List.mem_cons.mp hx with rfl | hx
  · cases hreconciles
  split at hrest
  · rw [(Exec.pure_iff.mp hrest).1] at hx
    cases hx
  rcases hrest.call_bind_inv with ⟨error, rfl, -⟩ | ⟨currentLedger, u, rest, rfl, hledger, hrest⟩
  · rw [List.mem_singleton.mp hx] at hreconciles
    cases hreconciles
  rcases hledger with ⟨rfl, rfl⟩
  rcases List.mem_cons.mp hx with rfl | hx
  · cases hreconciles
  exact ⟨_, _, hx, hrest⟩

/-- What an exchange has shown of the book that the sync began with. -/
def Told (s : Book) : Asked → Prop
  | ⟨.readLoanFull wallet, .ok (some slot)⟩ => s.ShowsSlot wallet slot
  | ⟨.findLoanClosed borrower startAt currentLedger, .ok (some event)⟩ =>
      s.lastClosing borrower startAt currentLedger = some event
  | ⟨.reconcileTransaction _ (some event), .ok (some (row, _))⟩ =>
      ∃ loan ∈ s.history, ReceiptOf loan event row
  | _ => True

/-- The book that a sync has come to: the chain stands still, and rows live on. -/
structure Reached (s : Book) (past : List Asked) (u : Book) : Prop where
  tidy : Tidy u
  live : LiveOn s u
  history : u.history = s.history
  told : ∀ y ∈ past, Told s y

/-- The rows that a sync may close are told from the other loans of their wallets. -/
def Separate (s : Book) : Prop :=
  ∀ row ∈ s.loans, row.closeTxHash = none → Current s row ∨ Attributable s row

/-- A row whose loan has the slot is skipped. -/
theorem Current.skipped {latest : Loan × Option User} {older : List (Loan × Option User)}
    {slot : OnChainLoan} (h : Current s entry.1) (htidy : Tidy s)
    (hbucket : unsettledOf s entry.1.borrowerAddress = latest :: older)
    (hshown : s.ShowsSlot entry.1.borrowerAddress slot) :
    slot.active = true ∧ isChainCurrent slot latest.1 = true ∧ entry ∉ older := by
  rcases h with ⟨hnewest, other, hother, hactive, hcurrent⟩
  rw [hbucket, List.head?_cons, Option.map_some, Option.some.injEq] at hnewest
  have hslot : slot.active = true := by
    rw [hshown.1, ← hother.1]
    exact hactive
  have hstart : slot.start = other.start :=
    Option.some.inj ((hshown.2 hslot).symm.trans (hother.2 hactive))
  refine ⟨hslot, ?_, fun hmem => ?_⟩
  · rw [hnewest, isChainCurrent, hstart]
    exact hcurrent
  · have hids : ((latest :: older).map fun entry => entry.1.id).Nodup := by
      rw [← hbucket]
      refine List.Nodup.sublist (List.filter_sublist.map _) ?_
      rw [Book.unsettledLoans, List.map_map]
      refine ((List.perm_insertionSort _ _).map _).nodup_iff.mpr ?_
      exact htidy.apart.ids.sublist (List.filter_sublist.map _)
    rw [List.map_cons, List.nodup_cons] at hids
    exact hids.1 (hnewest ▸ List.mem_map_of_mem hmem)

theorem mem_unsettledOf {wallet : Text} (h : entry ∈ unsettledOf s wallet) :
    entry.1 ∈ s.loans ∧ entry.1.closeTxHash = none := by
  rcases List.mem_map.mp (List.mem_filter.mp h).1 with ⟨row, hrow, rfl⟩
  rw [List.mem_insertionSort] at hrow
  simpa using List.mem_filter.mp hrow

theorem OpenedFor.becomes (h : OpenedFor loan row) (hbecomes : Becomes row row') :
    OpenedFor loan row' :=
  ⟨h.1.trans hbecomes.borrowerAddress_eq.symm, hbecomes.openTxHash_eq.trans h.2⟩

theorem Reached.exchange {x : Asked} (hseparate : Separate s) (htidy : Tidy s)
    (h : Reached s past u) (hleads : Leads s past x.1) (hx : Responds sdk u x s') :
    Reached s (past ++ [x]) s' := by
  rcases h.tidy.exchange hx with ⟨htidy', hlive⟩
  refine ⟨htidy', h.live.trans hlive, hx.history.trans h.history, fun y hy => ?_⟩
  rcases List.mem_append.mp hy with hold | hnew
  · exact h.told y hold
  rw [List.mem_singleton.mp hnew]
  rcases x with ⟨ask, error | answer⟩
  · cases ask with
    | reconcileTransaction loanId eventData => cases eventData <;> trivial
    | _ => trivial
  cases ask with
  | readLoanFull wallet =>
      cases answer with
      | none => trivial
      | some slot =>
          have hshown := hx.ok.1 slot rfl
          rw [Book.ShowsSlot, Book.isActive, Book.loansOf, h.history] at hshown
          exact hshown
  | findLoanClosed borrower startAt currentLedger =>
      cases answer with
      | none => trivial
      | some event =>
          have hlast := hx.ok.1
          rw [Book.lastClosing, Book.closings, Book.loansOf, h.history] at hlast
          exact hlast.symm
  | reconcileTransaction loanId eventData =>
      rcases eventData with - | event
      · cases answer <;> trivial
      rcases answer with - | ⟨written, onTime⟩
      · trivial
      rcases reconcileTransaction_some hx.ok with ⟨row, hfound, halone, rfl⟩
      rcases rowById_mem hfound with ⟨hrow, hid⟩
      rcases hleads with
        ⟨entry, latest, older, slot, hentryId, hbucket, hentry, hread, hskips, hlast⟩
      have hunsettled : entry ∈ unsettledOf s entry.1.borrowerAddress := hbucket ▸ hentry
      rcases mem_unsettledOf hunsettled with ⟨hstored, hopen⟩
      -- the row of the id is what has become of the one that the event was found for
      rcases h.live.mem hstored with ⟨row', hrow', hbecomes⟩
      have hsame : row' = row := List.inj_on_of_nodup_map h.tidy.apart.ids hrow' hrow
        (hbecomes.id_eq.trans (hentryId.trans hid.symm))
      rw [hsame] at hbecomes
      rcases hseparate entry.1 hstored hopen with hcurrent | hattributable
      · rcases hcurrent.skipped htidy hbucket (h.told _ hread) with ⟨hactive, hmatch, hskipped⟩
        exact absurd (hskips hactive hmatch) hskipped
      have hfree : ¬ KeptOff s entry.1 event := by
        intro hkept
        rw [(hkept.liveOn h.live hbecomes).leavesAlone h.tidy hrow] at halone
        cases halone
      rcases hattributable.own_closing (h.told _ hlast) hfree with ⟨loan, hloan, hown, hclosed⟩
      exact ⟨loan, hloan, reconciledRow_receipt (hown.becomes hbecomes) hclosed⟩
  | _ => trivial

/-- A sync of a book with separate rows closes each row with the closing of its loan. -/
theorem Separate.sync (hseparate : Separate s) (htidy : Tidy s) {asked : List Asked}
    {out : Except HttpError Unit} (hsync : Exec (Responds sdk) s syncLoansWithChain asked out s')
    {loanId : Nat} {onTime : Bool}
    (hwrites : ⟨.reconcileTransaction loanId (some event), .ok (some (row, onTime))⟩ ∈ asked) :
    ∃ loan ∈ s'.history, ReceiptOf loan event row := by
  rcases syncLoansWithChain_inv hsync hwrites rfl with ⟨rest, out', hmem, hrest⟩
  have hreached : Reached s ([] ++ rest) s' := hrest.after
    (.forEach Leads.mono fun batch hbatch => syncBatch_leads fun bucket hbucket =>
      mem_toChunks.mpr ⟨batch, hbatch, hbucket⟩)
    (fun past u x u' h hleads hx => h.exchange hseparate htidy hleads hx)
    ⟨htidy, .refl s, rfl, by simp⟩
  rw [hreached.history]
  exact hreached.told _ hmem

/-! ## Sync after sync -/

/-- A sync from its start to its end, or a turn of anybody else. -/
inductive SyncStep (sdk : LoanSdk) : Book → Option (List Asked) → Book → Prop
  | sync {s s' : Book} {asked : List Asked} {out : Except HttpError Unit}
      (h : Exec (Responds sdk) s syncLoansWithChain asked out s') : SyncStep sdk s (some asked) s'
  | turn {s s' : Book} (h : Turn sdk s s') : SyncStep sdk s none s'

theorem SyncStep.tidy {label : Option (List Asked)} (hstep : SyncStep sdk s label s')
    (h : Tidy s) : Tidy s' := by
  cases hstep with
  | sync hsync => exact hsync.run.invariant (fun _ _ _ htidy hx => (htidy.exchange hx).1) h
  | turn hturn => exact (h.turn hturn).1

instance decidableKeptOff : Decidable (KeptOff s row event) := inferInstanceAs (Decidable (_ ∨ _))

end LoanBook

end Lendoor.Backend
