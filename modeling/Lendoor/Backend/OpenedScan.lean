import Lendoor.Backend.LoanHistory

/-! # The scan of opened loans

Each run of the scanner reads the openings of a range of ledgers behind its cursor, inserts
the rows that are missing and moves the cursor over the range. Between its calls requests of
`inform-open` go on, ledgers close and users join. An insert that throws is passed over for
good.
-/

namespace Lendoor.Backend

open Cctp (Text)
open Async (AsksAfter AsksOnly Awaits Trace Shuffles trace_call_bind trace_bind trace_settled
  call settled settleEach)

namespace LoanBook

/-- What goes on beside a scan: an `inform-open` gets an answer, a user joins, a ledger
closes, time passes. -/
inductive Beside (sdk : LoanSdk) : Book → Book → Prop
  | informs {s s' : Book} {dto : InformLoanDto} {past : List Asked} {x : Asked}
      (hawaits : Awaits (informLoanOpened sdk dto) past x.1)
      (hx : Responds sdk s x s') : Beside sdk s s'
  | join {s : Book} (user : User) : Beside sdk s { s with users := s.users ++ [user] }
  | closeLedger {s : Book} {ledger : Nat} {timestamp : Int} {history : List ChainLoan}
      (hlater : s.ledger < ledger)
      (hcloses : Relation.ReflTransGen (ChainStep ledger timestamp) s.history history) :
      Beside sdk s { s with ledger := ledger, history := history }
  | wait {s : Book} (now : Int) : Beside sdk s { s with now := now }

/-- An exchange of the scanner, after whatever goes on beside it. -/
def Meanwhile (sdk : LoanSdk) (s : Book) (x : Asked) (s' : Book) : Prop :=
  ∃ t, Relation.ReflTransGen (Beside sdk) s t ∧ Responds sdk t x s'

/-- A scan, with what it exchanges, or a step beside it. -/
inductive Scans (sdk : LoanSdk) : Book → List Asked → Book → Prop
  | scan {s s' : Book} {asked : List Asked} {out : Except HttpError ScanResult} :
      Exec (Meanwhile sdk) s scanLoanOpenedEvents asked out s' → Scans sdk s asked s'
  | beside {s s' : Book} : Beside sdk s s' → Scans sdk s [] s'

/-- A call of `insertMissingLoan` that throws. -/
def insertFails : Asked → Bool
  | ⟨.findByOpenTx _, .error _⟩ => true
  | ⟨.findBorrower _, .error _⟩ => true
  | ⟨.insertMissing _ _, .error _⟩ => true
  | _ => false

/-- A scan whose cursor moves over a range in which an insert has failed. -/
def Skips (asked : List Asked) : Prop :=
  (∃ x ∈ asked, insertFails x = true) ∧ ∃ block, ⟨.saveCursor block false, .ok ()⟩ ∈ asked

def openHashes (s : Book) : List (Option Text) := s.loans.map Loan.openTxHash

/-- Every opening from a ledger on up to another has its row, or nobody was found that it
could be of. -/
def Covered (bootstrap : Nat) (past : List Asked) (upTo : Nat) (s : Book) : Prop :=
  ∀ loan ∈ s.history, bootstrap < loan.opened.ledger → loan.opened.ledger ≤ upTo →
    some loan.opened.txHash ∈ openHashes s ∨ ⟨.findBorrower loan.opened, .ok none⟩ ∈ past

/-- What nobody takes back. -/
structure Grows (s t : Book) : Prop where
  hashes : openHashes s ⊆ openHashes t
  ledger : s.ledger ≤ t.ledger
  history : ∀ loan ∈ t.history, (∃ old ∈ s.history, old.opened = loan.opened) ∨
    s.ledger < loan.opened.ledger

variable {sdk : LoanSdk} {s s' t : Book} {past past' asked : List Asked} {bootstrap upTo : Nat}

theorem Grows.refl (s : Book) : Grows s s :=
  ⟨List.Subset.refl _, le_refl _, fun loan hloan => .inl ⟨loan, hloan, rfl⟩⟩

theorem Grows.trans {u : Book} (h : Grows s t) (h' : Grows t u) : Grows s u := by
  refine ⟨List.Subset.trans h.hashes h'.hashes, le_trans h.ledger h'.ledger, fun loan hloan => ?_⟩
  rcases h'.history loan hloan with ⟨old, hold, hsame⟩ | hnew
  · rcases h.history old hold with ⟨older, holder, hsame'⟩ | hnew
    · exact .inl ⟨older, holder, hsame'.trans hsame⟩
    · exact .inr (hsame ▸ hnew)
  · exact .inr (lt_of_le_of_lt h.ledger hnew)

theorem Covered.mono (h : Covered bootstrap past upTo s) (hgrows : Grows s t)
    (hle : upTo ≤ s.ledger) (hsub : past ⊆ past') :
    Covered bootstrap past' upTo t := by
  intro loan hloan hafter hupTo
  rcases hgrows.history loan hloan with ⟨old, hold, hsame⟩ | hnew
  · rw [← hsame] at hafter hupTo ⊢
    exact (h old hold hafter hupTo).imp (fun hrow => hgrows.hashes hrow) fun hnone => hsub hnone
  · omega

/-! ## Beside a scan -/

theorem ChainStep.grows {ledger : Nat} {timestamp : Int} {history history' : List ChainLoan}
    (h : ChainStep ledger timestamp history history') {loan : ChainLoan} (hloan : loan ∈ history') :
    (∃ old ∈ history, old.opened = loan.opened) ∨ loan.opened.ledger = ledger := by
  cases h with
  | opens event hledger =>
      rcases List.mem_append.mp hloan with hold | hnew
      · exact .inl ⟨loan, hold, rfl⟩
      · rw [List.mem_singleton.mp hnew]
        exact .inr hledger
  | @closes before after closed event =>
      left
      rcases List.mem_append.mp hloan with hbefore | hrest
      · exact ⟨loan, List.mem_append_left _ hbefore, rfl⟩
      · rcases List.mem_cons.mp hrest with rfl | hafter
        · exact ⟨closed, by simp, rfl⟩
        · exact ⟨loan, by simp [hafter], rfl⟩

/-- A row for a hash that no row has keeps the hashes apart. -/
theorem openHashes_insert (row : Loan) {txHash : Text} (hrow : row.openTxHash = some txHash)
    (hnew : s.byOpenTx txHash = none)
    (hnodup : (openHashes s).Nodup) : (openHashes s ++ [row.openTxHash]).Nodup := by
  refine List.nodup_append.mpr ⟨hnodup, List.nodup_singleton _, fun hash hhash other hother => ?_⟩
  rw [List.mem_singleton.mp hother, hrow]
  rintro rfl
  rcases List.mem_map.mp hhash with ⟨old, hold, hsame⟩
  exact List.find?_eq_none.mp hnew old hold (decide_eq_true hsame)

theorem openHashes_autoClose (now : Int) (userId : Nat) (rows : List Loan) :
    (rows.map (Book.autoClose now userId)).map Loan.openTxHash = rows.map Loan.openTxHash := by
  rw [List.map_map]
  refine List.map_congr_left fun row _ => ?_
  have hkey := autoClose_key now userId row
  simp only [Loan.key, Prod.mk.injEq] at hkey
  exact hkey.2.2.2.1

theorem informLoanOpened_asks (dto : InformLoanDto) :
    (informLoanOpened sdk dto).AsksOnly fun ask =>
      ask.writes = false ∨ ∃ opening, ask = .openTransaction opening := by
  refine .bind (.lift _) fun wallet => .bind (.call (.inl rfl)) fun found => ?_
  cases found with
  | none => trivial
  | some user =>
      dsimp only
      split
      · trivial
      split
      · trivial
      refine .bind (.call (.inl rfl)) fun existing => ?_
      cases existing with
      | some row => trivial
      | none =>
          refine .bind (.call (.inl rfl)) fun matched => ?_
          split
          · trivial
          · exact .bind (.lift _) fun _ => .bind (.call (.inl rfl)) fun _ =>
              .bind (.call (.inr ⟨_, rfl⟩)) fun _ => trivial

/-- A step beside a scan takes nothing back, and leaves the cursor alone. -/
theorem Beside.grows (h : Beside sdk s s') :
    Grows s s' ∧ s'.cursor = s.cursor ∧ ((openHashes s).Nodup → (openHashes s').Nodup) := by
  cases h with
  | @informs _ dto past x hawaits hx =>
      rcases (informLoanOpened_asks dto).awaits hawaits with hreads | ⟨opening, hopening⟩
      · rw [hx.reads hreads]
        exact ⟨.refl s, rfl, id⟩
      rcases x with ⟨ask, r⟩
      cases hopening
      cases r with
      | error error =>
          rw [hx.error]
          exact ⟨.refl s, rfl, id⟩
      | ok row =>
          rcases openTransaction_inv hx.ok with rfl | ⟨hnew, rfl⟩
          · exact ⟨.refl s', rfl, id⟩
          · have hhashes : ∀ row : Loan, openHashes (Book.insert { s with
                loans := s.loans.map (Book.autoClose s.now opening.userId) } row) = openHashes s ++
                  [row.openTxHash] := by
              intro row
              simp only [openHashes, Book.insert, List.map_append, openHashes_autoClose]
              rfl
            refine ⟨⟨?_, le_refl _, fun loan hloan => .inl ⟨loan, hloan, rfl⟩⟩,
              rfl, fun hnodup => ?_⟩
            · rw [hhashes]
              exact List.subset_append_left _ _
            · rw [hhashes]
              exact openHashes_insert _ rfl hnew hnodup
  | join user =>
      exact ⟨⟨List.Subset.refl _, le_refl _, fun loan hloan => .inl ⟨loan, hloan, rfl⟩⟩, rfl, id⟩
  | @closeLedger ledger timestamp history hlater hcloses =>
      have hkept : ∀ loan ∈ history, (∃ old ∈ s.history, old.opened = loan.opened) ∨
          loan.opened.ledger = ledger := by
        induction hcloses with
        | refl => exact fun loan hloan => .inl ⟨loan, hloan, rfl⟩
        | tail _ hstep ih =>
            intro loan hloan
            rcases hstep.grows hloan with ⟨old, hold, hsame⟩ | hnew
            · rw [← hsame]
              exact ih old hold
            · exact .inr hnew
      refine ⟨⟨List.Subset.refl _, le_of_lt hlater, fun loan hloan => ?_⟩, rfl, id⟩
      exact (hkept loan hloan).imp id fun hnew => by rw [hnew]; exact hlater
  | wait now =>
      exact ⟨⟨List.Subset.refl _, le_refl _, fun loan hloan => .inl ⟨loan, hloan, rfl⟩⟩, rfl, id⟩

/-- A whole request of `inform-open` goes on beside a scan. -/
theorem Beside.informLoanOpened {dto : InformLoanDto} {out : Except HttpError Nat}
    (h : Exec (Responds sdk) s (informLoanOpened sdk dto) asked out s') :
    Relation.ReflTransGen (Beside sdk) s s' := by
  have hall : ∀ {p : Program Nat} {s s' : Book} {asked : List Asked} {out : Except HttpError Nat},
      (∀ past ask, Awaits p past ask →
        ∃ past', Awaits (LoanBook.informLoanOpened sdk dto) past' ask) →
        Exec (Responds sdk) s p asked out s' → Relation.ReflTransGen (Beside sdk) s s' := by
    intro p s s' asked out hawaits hexec
    induction hexec with
    | pure | throw => exact .refl
    | await hrespond _ ih =>
        rcases hawaits [] _ .here with ⟨past', hnow⟩
        exact .head (.informs hnow hrespond) (ih fun past ask hnext => hawaits _ ask (.await hnext))
  exact hall (fun past ask hawaits => ⟨past, hawaits⟩) h

/-! ## What a scan asks -/

/-- The opening has its row, or was inserted, or is nobody's. -/
def Handled (past : List Asked) (event : ChainLoanOpenedEvent) : Prop :=
  (∃ row, ⟨.findByOpenTx event.txHash, .ok (some row)⟩ ∈ past) ∨ (∃ userId insertedId,
    ⟨.insertMissing userId event, .ok insertedId⟩ ∈ past) ∨ ⟨.findBorrower event, .ok none⟩ ∈ past

/-- The walk begins at the cursor, or where an empty cursor has jumped to. -/
def BeginsAt (past : List Asked) (fromBlock : Nat) : Prop :=
  (∃ cursor : Option Nat, ⟨.findCursor, .ok cursor⟩ ∈ past ∧ cursor.getD 0 = fromBlock) ∨
    ⟨.saveCursor fromBlock true, .ok ()⟩ ∈ past

/-- What a scan may ask for after some exchanges of its own. -/
def Scanned (past : List Asked) : Ask → Prop
  | .saveCursor block true => ∃ n : Nat, ⟨.latestLedger, .ok n⟩ ∈ past ∧ block ≤ n
  | .saveCursor block false => ∃ fromBlock, ∃ events : List ChainLoanOpenedEvent,
      ⟨.loanOpenedEvents (fromBlock + 1) block, .ok events⟩ ∈ past ∧ BeginsAt past fromBlock ∧
        ((∃ x ∈ past, insertFails x = true) ∨ ∀ event ∈ events, Handled past event)
  | .loanOpenedEvents _ toLedger => ∃ n : Nat, ⟨.latestLedger, .ok n⟩ ∈ past ∧ toLedger ≤ n
  | .insertMissing _ _ => True
  | ask => ask.writes = false

theorem Handled.mono {event : ChainLoanOpenedEvent} (h : Handled past event) (hsub : past ⊆ past') :
    Handled past' event := by
  rcases h with ⟨row, hrow⟩ | ⟨userId, insertedId, hinserted⟩ | hnone
  · exact .inl ⟨row, hsub hrow⟩
  · exact .inr (.inl ⟨userId, insertedId, hsub hinserted⟩)
  · exact .inr (.inr (hsub hnone))

theorem BeginsAt.mono {fromBlock : Nat} (h : BeginsAt past fromBlock) (hsub : past ⊆ past') :
    BeginsAt past' fromBlock := by
  rcases h with ⟨cursor, hcursor, hfrom⟩ | hjump
  · exact .inl ⟨cursor, hsub hcursor, hfrom⟩
  · exact .inr (hsub hjump)

theorem Scanned.mono (past past' : List Asked) (ask : Ask) (hsub : past ⊆ past')
    (h : Scanned past ask) : Scanned past' ask := by
  cases ask with
  | saveCursor block bootstrap =>
      cases bootstrap with
      | true =>
          rcases h with ⟨n, hn, hle⟩
          exact ⟨n, hsub hn, hle⟩
      | false =>
          rcases h with ⟨fromBlock, events, hevents, hbegins, hall⟩
          refine ⟨fromBlock, events, hsub hevents, hbegins.mono hsub, ?_⟩
          rcases hall with ⟨x, hx, hfails⟩ | hall
          · exact .inl ⟨x, hsub hx, hfails⟩
          · exact .inr fun event hevent => (hall event hevent).mono hsub
  | loanOpenedEvents fromLedger toLedger =>
      rcases h with ⟨n, hn, hle⟩
      exact ⟨n, hsub hn, hle⟩
  | _ => exact h

theorem insertMissingLoan_asks (event : ChainLoanOpenedEvent) :
    (insertMissingLoan event).AsksAfter Scanned past := by
  refine .call_bind rfl fun existing => ?_
  cases existing with
  | some row => trivial
  | none =>
      refine .call_bind rfl fun found => ?_
      cases found with
      | none => trivial
      | some user => exact .call_bind trivial fun _ => trivial

/-- An insert that goes through has handled its opening. -/
theorem insertMissingLoan_handles {event : ChainLoanOpenedEvent} {out : Except HttpError Bool}
    (h : Trace (insertMissingLoan event) asked out) :
    (∃ x ∈ asked, insertFails x = true) ∨ Handled asked event := by
  rcases trace_call_bind.mp h with ⟨error, rfl, -⟩ | ⟨existing, rest, rfl, hlookup⟩
  · exact .inl ⟨_, List.mem_singleton_self _, rfl⟩
  cases existing with
  | some row => exact .inr (.inl ⟨row, List.mem_cons_self⟩)
  | none =>
      rcases trace_call_bind.mp hlookup with ⟨error, rfl, -⟩ | ⟨found, rest, rfl, hinsert⟩
      · exact .inl ⟨⟨.findBorrower event, .error error⟩, by simp, rfl⟩
      cases found with
      | none => exact .inr (.inr (.inr (by simp)))
      | some user =>
          rcases trace_call_bind.mp hinsert with ⟨error, rfl, -⟩ | ⟨insertedId, rest, rfl, -⟩
          · exact .inl ⟨⟨.insertMissing user.id event, .error error⟩, by simp, rfl⟩
          · exact .inr (.inr (.inl ⟨user.id, insertedId, by simp⟩))

/-- Once it is through, a walk has handled its openings, or an insert has failed. -/
theorem walk_handles {events : List ChainLoanOpenedEvent}
    {out : Except HttpError (List (Except HttpError Bool))}
    (h : Trace (settleEach (events.map insertMissingLoan)) asked out) :
    (∃ x ∈ asked, insertFails x = true) ∨ ∀ event ∈ events, Handled asked event := by
  by_cases hfails : ∃ x ∈ asked, insertFails x = true
  · exact .inl hfails
  · refine .inr fun event hevent => ?_
    rcases (Shuffles.settleEach h).each _ (List.mem_map_of_mem hevent)
      with ⟨sub, out', hsub, htrace⟩
    rcases insertMissingLoan_handles htrace with ⟨x, hx, hfail⟩ | hhandled
    · exact absurd ⟨x, hsub.subset hx, hfail⟩ hfails
    · exact hhandled.mono hsub.subset

theorem scanRange_asks {fromBlock currentBlock : Nat}
    (hlatest : ⟨.latestLedger, .ok currentBlock⟩ ∈ past)
    (hbegins : BeginsAt past fromBlock) :
    (scanRange fromBlock currentBlock).AsksAfter Scanned past := by
  unfold scanRange
  split
  · trivial
  refine .call_bind ⟨currentBlock, hlatest, min_le_right _ _⟩ fun events => ?_
  refine .bind (.settleEach Scanned.mono fun p hp => ?_) fun results asked htrace =>
    .call_bind ?_ fun _ => trivial
  · rcases List.mem_map.mp hp with ⟨event, -, rfl⟩
    exact insertMissingLoan_asks event
  · refine ⟨fromBlock, events, by simp, hbegins.mono ?_, ?_⟩
    · rw [List.append_assoc]
      exact List.subset_append_left _ _
    · rcases walk_handles htrace with ⟨x, hx, hfails⟩ | hall
      · exact .inl ⟨x, List.mem_append_right _ hx, hfails⟩
      · exact .inr fun event hevent => (hall event hevent).mono (List.subset_append_right _ _)

theorem scanLoanOpenedEvents_asks : scanLoanOpenedEvents.AsksAfter Scanned [] := by
  refine .bind
    (AsksAfter.settled (.call_bind rfl fun cursor => .call_bind rfl fun currentBlock => ?_))
    fun _ _ _ => trivial
  split
  · refine .call_bind ⟨currentBlock, by simp, Nat.sub_le _ _⟩ fun _ =>
      scanRange_asks (by simp) (.inr (by simp))
  · exact scanRange_asks (by simp) (.inl ⟨cursor, by simp, rfl⟩)

/-! ## What a scan has seen -/

/-- What an exchange of the scan has shown, as the book stands. -/
def Seen (bootstrap : Nat) (past : List Asked) (s : Book) : Asked → Prop
  | ⟨.findCursor, .ok cursor⟩ => cursor.getD 0 ≤ s.ledger ∧ Covered bootstrap past (cursor.getD 0) s
  | ⟨.latestLedger, .ok n⟩ => n ≤ s.ledger
  | ⟨.loanOpenedEvents fromLedger toLedger, .ok events⟩ => toLedger ≤ s.ledger ∧
      ∀ loan ∈ s.history, fromLedger ≤ loan.opened.ledger → loan.opened.ledger ≤ toLedger →
      loan.opened ∈ events
  | ⟨.findByOpenTx txHash, .ok (some _)⟩ => some txHash ∈ openHashes s
  | ⟨.insertMissing _ event, .ok _⟩ => some event.txHash ∈ openHashes s
  | _ => True

/-- No range was passed over, and an empty cursor jumped no further than the bootstrap. -/
def Safe (bootstrap : Nat) (asked : List Asked) : Prop :=
  ¬ Skips asked ∧ ∀ block r, ⟨.saveCursor block true, r⟩ ∈ asked → block ≤ bootstrap

/-- A scan under way, after `earlier` scans: the cursor is on the chain and what is behind
it is covered. -/
structure Progress (bootstrap : Nat) (earlier past : List Asked) (s : Book) : Prop where
  behind : s.cursor.getD 0 ≤ s.ledger
  covered : Covered bootstrap (earlier ++ past) (s.cursor.getD 0) s
  seen : ∀ x ∈ past, Seen bootstrap (earlier ++ past) s x

variable {earlier : List Asked} {x : Asked}

theorem Safe.of_snoc (h : Safe bootstrap (past ++ [x])) : Safe bootstrap past := by
  refine ⟨?_, fun block r hr => h.2 block r (List.mem_append_left _ hr)⟩
  rintro ⟨⟨y, hy, hfails⟩, block, hsaved⟩
  exact h.1 ⟨⟨y, List.mem_append_left _ hy, hfails⟩, block, List.mem_append_left _ hsaved⟩

theorem Seen.mono (h : Seen bootstrap past s x) (hgrows : Grows s t) (hsub : past ⊆ past') :
    Seen bootstrap past' t x := by
  unfold Seen at h ⊢
  split at h
  · exact ⟨le_trans h.1 hgrows.ledger, h.2.mono hgrows h.1 hsub⟩
  · exact le_trans h hgrows.ledger
  · refine ⟨le_trans h.1 hgrows.ledger, fun loan hloan hfrom hto => ?_⟩
    rcases hgrows.history loan hloan with ⟨old, hold, hsame⟩ | hnew
    · rw [← hsame] at hfrom hto ⊢
      exact h.2 old hold hfrom hto
    · have hle := h.1
      omega
  · exact hgrows.hashes h
  · exact hgrows.hashes h
  · trivial

theorem Progress.beside (h : Progress bootstrap earlier past s)
    (hbeside : Relation.ReflTransGen (Beside sdk) s t) :
    Progress bootstrap earlier past t := by
  induction hbeside with
  | refl => exact h
  | tail _ hstep ih =>
      rcases hstep.grows with ⟨hgrows, hcursor, -⟩
      refine ⟨?_, ?_, fun x hx => (ih.seen x hx).mono hgrows (List.Subset.refl _)⟩
      · rw [hcursor]
        exact le_trans ih.behind hgrows.ledger
      · rw [hcursor]
        exact ih.covered.mono hgrows ih.behind (List.Subset.refl _)

theorem nodup_beside (hnodup : (openHashes s).Nodup)
    (hbeside : Relation.ReflTransGen (Beside sdk) s t) :
    (openHashes t).Nodup := by
  induction hbeside with
  | refl => exact hnodup
  | tail _ hstep ih => exact hstep.grows.2.2 ih

theorem byOpenTx_mem {txHash : Text} (h : s.byOpenTx txHash ≠ none) :
    some txHash ∈ openHashes s := by
  rcases Option.ne_none_iff_exists'.mp h with ⟨row, hrow⟩
  have hhash : row.openTxHash = some txHash := by simpa using List.find?_some hrow
  exact List.mem_map.mpr ⟨row, List.mem_of_find?_eq_some hrow, hhash⟩

/-- An exchange of a scan takes nothing back, and moves the cursor only to save it. -/
theorem Responds.scan_grows (hscanned : Scanned past x.1) (hx : Responds sdk s x s') :
    Grows s s' ∧ ((openHashes s).Nodup → (openHashes s').Nodup) ∧
      (s'.cursor = s.cursor ∨ ∃ block bootstrap, x = ⟨.saveCursor block bootstrap, .ok ()⟩ ∧
        s'.cursor = some block) := by
  rcases x with ⟨ask, error | answer⟩
  · rw [hx.error]
    exact ⟨.refl s, id, .inl rfl⟩
  cases ask with
  | saveUser | openTransaction | repayTransaction | reconcileTransaction => cases hscanned
  | saveCursor block bootstrap =>
      have hs' : s' = { s with cursor := some block } := hx.ok
      rw [hs']
      exact ⟨⟨List.Subset.refl _, le_refl _, fun loan hloan => .inl ⟨loan, hloan, rfl⟩⟩, id,
        .inr ⟨block, bootstrap, rfl, rfl⟩⟩
  | insertMissing userId event =>
      rcases insertMissing_inv hx.ok with ⟨-, rfl⟩ | ⟨hnew, rfl⟩
      · exact ⟨.refl _, id, .inl rfl⟩
      · have hhashes : openHashes (s.insert (missingLoan s.nextId userId event)) = openHashes s ++
            [some event.txHash] := by
          simp [openHashes, Book.insert, missingLoan]
        refine ⟨⟨?_, le_refl _, fun loan hloan => .inl ⟨loan, hloan, rfl⟩⟩,
          fun hnodup => ?_, .inl rfl⟩
        · rw [hhashes]
          exact List.subset_append_left _ _
        · rw [hhashes]
          exact openHashes_insert (missingLoan s.nextId userId event) rfl hnew hnodup
  | _ =>
      rw [hx.reads rfl]
      exact ⟨.refl s, id, .inl rfl⟩

/-- An exchange shows what is there. -/
theorem Progress.sees (h : Progress bootstrap earlier past s) (hscanned : Scanned past x.1)
    (hx : Responds sdk s x s') :
    Seen bootstrap (earlier ++ past) s' x := by
  rcases x with ⟨ask, error | answer⟩
  · cases ask <;> trivial
  cases ask with
  | findCursor =>
      rcases hx.ok with ⟨rfl, rfl⟩
      exact ⟨h.behind, h.covered⟩
  | latestLedger =>
      rcases hx.ok with ⟨rfl, rfl⟩
      exact le_refl _
  | loanOpenedEvents fromLedger toLedger =>
      rcases hx.ok with ⟨hevents, rfl⟩
      rcases hscanned with ⟨n, hn, hle⟩
      refine ⟨le_trans hle (h.seen _ hn), fun loan hloan hfrom hto => ?_⟩
      rw [hevents]
      exact List.mem_filter.mpr ⟨List.mem_map_of_mem hloan, decide_eq_true ⟨hfrom, hto⟩⟩
  | findByOpenTx txHash =>
      cases answer with
      | none => trivial
      | some row =>
          rcases hx.ok with ⟨hrow, rfl⟩
          exact byOpenTx_mem (by rw [← hrow]; simp)
  | insertMissing userId event =>
      rcases insertMissing_inv hx.ok with ⟨hold, rfl⟩ | ⟨-, rfl⟩
      · exact byOpenTx_mem hold
      · exact List.mem_map.mpr ⟨missingLoan s.nextId userId event,
          List.mem_append_right _ (List.mem_singleton_self _), rfl⟩
  | _ => trivial

/-- Where the cursor is saved, what is behind it is covered. -/
theorem Progress.saved {block : Nat} {jump : Bool} (h : Progress bootstrap earlier past s)
    (hscanned : Scanned past (.saveCursor block jump))
    (hsafe : Safe bootstrap (past ++ [⟨.saveCursor block jump, .ok ()⟩])) :
    block ≤ s.ledger ∧ Covered bootstrap (earlier ++ past) block s := by
  cases jump with
  | true =>
      rcases hscanned with ⟨n, hn, hle⟩
      refine ⟨le_trans hle (h.seen _ hn), fun loan _ hafter hupTo => ?_⟩
      -- the jump is to the bootstrap at most
      have hjump := hsafe.2 block (.ok ()) (by simp)
      omega
  | false =>
      rcases hscanned with ⟨fromBlock, events, hevents, hbegins, hhandled⟩
      rcases h.seen _ hevents with ⟨hle, hrange⟩
      refine ⟨hle, fun loan hloan hafter hupTo => ?_⟩
      by_cases hbefore : loan.opened.ledger ≤ fromBlock
      · rcases hbegins with ⟨cursor, hcursor, rfl⟩ | hjump
        · exact (h.seen _ hcursor).2 loan hloan hafter hbefore
        · have hle := hsafe.2 fromBlock (.ok ()) (List.mem_append_left _ hjump)
          omega
      · have hevent := hrange loan hloan (by omega) hupTo
        rcases hhandled with ⟨x, hx, hfails⟩ | hall
        · exact absurd ⟨⟨x, List.mem_append_left _ hx, hfails⟩, block, by simp⟩ hsafe.1
        · rcases hall _ hevent with ⟨row, hrow⟩ | ⟨userId, insertedId, hinserted⟩ | hnone
          · exact .inl (h.seen _ hrow)
          · exact .inl (h.seen _ hinserted)
          · exact .inr (List.mem_append_right _ hnone)

theorem Progress.exchange (h : Progress bootstrap earlier past s) (hscanned : Scanned past x.1)
    (hx : Responds sdk s x s')
    (hsafe : Safe bootstrap (past ++ [x])) : Progress bootstrap earlier (past ++ [x]) s' := by
  rcases hx.scan_grows hscanned with ⟨hgrows, -, hcursor⟩
  have hsub : earlier ++ past ⊆ earlier ++ (past ++ [x]) := by
    rw [← List.append_assoc]
    exact List.subset_append_left _ _
  have hsaved : s'.cursor.getD 0 ≤ s.ledger ∧
      Covered bootstrap (earlier ++ past) (s'.cursor.getD 0) s := by
    rcases hcursor with hsame | ⟨block, jump, rfl, hblock⟩
    · rw [hsame]
      exact ⟨h.behind, h.covered⟩
    · rw [hblock]
      exact h.saved hscanned hsafe
  refine ⟨le_trans hsaved.1 hgrows.ledger, hsaved.2.mono hgrows hsaved.1 hsub, fun y hy => ?_⟩
  rcases List.mem_append.mp hy with hold | hnew
  · exact (h.seen y hold).mono hgrows hsub
  · rw [List.mem_singleton.mp hnew]
    exact (h.sees hscanned hx).mono (.refl s') hsub

/-! ## Any number of scans -/

/-- Before the first scan: the cursor is on the chain and not past the bootstrap, and no two
rows have the same hash. -/
structure Unscanned (bootstrap : Nat) (s : Book) : Prop where
  behind : s.cursor.getD 0 ≤ s.ledger
  first : s.cursor.getD 0 ≤ bootstrap
  apart : (openHashes s).Nodup

theorem scans_progress {labels : List (List Asked)} (hstart : Unscanned bootstrap s)
    (hrun : Run (Scans sdk) s labels t) :
    (openHashes t).Nodup ∧
      ((∀ asked ∈ labels, Safe bootstrap asked) → Progress bootstrap labels.flatten [] t) := by
  induction hrun with
  | nil =>
      refine ⟨hstart.apart, fun _ => ⟨hstart.behind, fun loan _ hafter hupTo => ?_, by simp⟩⟩
      have hfirst := hstart.first
      omega
  | @snoc t u labels asked _ hstep ih =>
      have hflat : (labels ++ [asked]).flatten = labels.flatten ++ asked := by simp
      cases hstep with
      | beside hbeside =>
          refine ⟨nodup_beside ih.1 (.single hbeside), fun hsafe => ?_⟩
          have hprogress :=
            (ih.2 fun asked hasked => hsafe asked (by simp [hasked])).beside (.single hbeside)
          simpa using hprogress
      | scan hexec =>
          have hend := hexec.after (I := fun past v => (openHashes v).Nodup ∧
            ((∀ asked ∈ labels, Safe bootstrap asked) → Safe bootstrap past →
              Progress bootstrap labels.flatten past v))
            scanLoanOpenedEvents_asks ?_ ⟨ih.1, fun hsafe _ => ih.2 hsafe⟩
          · refine ⟨hend.1, fun hsafe => ?_⟩
            have hprogress :=
              hend.2 (fun asked hasked => hsafe asked (by simp [hasked])) (hsafe asked (by simp))
            refine ⟨hprogress.behind, ?_, by simp⟩
            rw [hflat, List.append_nil]
            exact hprogress.covered
          · rintro past v x w ⟨hnodup, hprogress⟩ hscanned ⟨v', hbeside, hx⟩
            refine ⟨(hx.scan_grows hscanned).2.1 (nodup_beside hnodup hbeside),
              fun hsafe hsafePast => ?_⟩
            exact ((hprogress hsafe hsafePast.of_snoc).beside hbeside).exchange
              hscanned hx hsafePast

/-- **No opening is lost.** After any number of scans, whatever went on beside them, no two
rows have the same hash; and if no scan has moved its cursor over a failed insert, every
opening after the bootstrap and up to the cursor has its row, unless a scan found nobody it
could be of. -/
theorem scans_cover {labels : List (List Asked)} (hstart : Unscanned bootstrap s)
    (hrun : Run (Scans sdk) s labels t)
    (hjumps : ∀ asked ∈ labels, ∀ block r, ⟨.saveCursor block true, r⟩ ∈ asked →
      block ≤ bootstrap) :
    (openHashes t).Nodup ∧
      ((∀ asked ∈ labels, ¬ Skips asked) →
      Covered bootstrap labels.flatten (t.cursor.getD 0) t) := by
  rcases scans_progress hstart hrun with ⟨hnodup, hprogress⟩
  refine ⟨hnodup, fun hskips => ?_⟩
  simpa using (hprogress fun asked hasked => ⟨hskips asked hasked, hjumps asked hasked⟩).covered

/-! ## An insert that fails once -/

def scanSdk : LoanSdk := ⟨fun _ => none⟩

def scanWallet : Text := List.replicate 56 'G'

def scanOpening : ChainLoanOpenedEvent :=
  ⟨scanWallet, 10000000, 10150000, 1604800, 150, 105000, "open".toList, 1000000⟩

/-- A loan was opened a while ago, and nobody has scanned yet. -/
def scanBook : Book :=
  { emptyBook 2000000000 200000 with
    users := [⟨1, scanWallet, none, none, 0, false⟩]
    history := [⟨scanOpening, none⟩] }

/-- A world where no row can be inserted. -/
def failingWorld (s : Book) (ask : Ask) : Except HttpError (Answer ask) × Book :=
  match ask with
  | .insertMissing _ _ => (.error ⟨.rejected, "Connection terminated"⟩, s)
  | ask => smoothWorld scanSdk s ask

theorem failingWorld_responds (s : Book) (ask : Ask) :
    Responds scanSdk s ⟨ask, (failingWorld s ask).1⟩ (failingWorld s ask).2 := by
  cases ask with
  | insertMissing => rfl
  | _ => exact smoothWorld_responds scanSdk s _

theorem scans_of_simulate {world : Book → (ask : Ask) → Except HttpError (Answer ask) × Book}
    (hworld : ∀ s ask, Responds scanSdk s ⟨ask, (world s ask).1⟩ (world s ask).2) (s : Book) :
    Run (Scans scanSdk) s [(Exec.simulate world s scanLoanOpenedEvents).1]
    (Exec.simulate world s scanLoanOpenedEvents).2.2 :=
  .single (.scan ((Exec.of_simulate hworld _ s).mono fun s _ _ hrespond => ⟨s, .refl, hrespond⟩))

/-- The jumps of a scan as far as a block. -/
def jumpsWithin (block : Nat) : Asked → Bool
  | ⟨.saveCursor jump true, _⟩ => jump ≤ block
  | _ => true

theorem jumps_le {block : Nat} (hall : asked.all (jumpsWithin block) = true) :
    ∀ jump r, ⟨.saveCursor jump true, r⟩ ∈ asked → jump ≤ block := by
  intro jump r hmem
  simpa [jumpsWithin] using List.all_eq_true.mp hall _ hmem

theorem scanBook_unscanned : Unscanned 100000 scanBook := ⟨by decide, by decide, by decide⟩

/-- In a world where nothing fails the loan has its row. -/
theorem scans_cover_scanBook :
    Covered 100000 [(Exec.simulate (smoothWorld scanSdk) scanBook scanLoanOpenedEvents).1].flatten
      ((Exec.simulate (smoothWorld scanSdk) scanBook scanLoanOpenedEvents).2.2.cursor.getD 0)
      (Exec.simulate (smoothWorld scanSdk) scanBook scanLoanOpenedEvents).2.2 := by
  refine (scans_cover scanBook_unscanned (scans_of_simulate (smoothWorld_responds scanSdk) scanBook)
    ?_).2 ?_
  · intro asked hasked
    rw [List.mem_singleton.mp hasked]
    exact jumps_le (by decide +kernel)
  · intro asked hasked hskips
    rw [List.mem_singleton.mp hasked] at hskips
    rcases hskips.1 with ⟨x, hx, hfails⟩
    have hnone : (Exec.simulate (smoothWorld scanSdk) scanBook scanLoanOpenedEvents).1.any
        insertFails = false := by
      decide +kernel
    exact List.any_eq_false.mp hnone x hx hfails

/-- The look-up found nobody. -/
def findsNobody : Asked → Bool
  | ⟨.findBorrower _, .ok none⟩ => true
  | _ => false

/-- The insert fails, the cursor moves on, and the loan is behind it without a row. -/
theorem scans_lose :
    ∃ asked t, Run (Scans scanSdk) scanBook [asked] t ∧
      (∀ block r, ⟨.saveCursor block true, r⟩ ∈ asked → block ≤ 100000) ∧
      ¬ Covered 100000 [asked].flatten (t.cursor.getD 0) t := by
  refine ⟨_, _, scans_of_simulate failingWorld_responds scanBook,
    jumps_le (by decide +kernel), fun hcovered => ?_⟩
  have hstate : (Exec.simulate failingWorld scanBook scanLoanOpenedEvents).2.2.history =
      [⟨scanOpening, none⟩] ∧
      (Exec.simulate failingWorld scanBook scanLoanOpenedEvents).2.2.loans = [] ∧
      (Exec.simulate failingWorld scanBook scanLoanOpenedEvents).2.2.cursor = some 110000 := by
      decide +kernel
  rcases hstate with ⟨hhistory, hloans, hcursor⟩
  have hloan : (⟨scanOpening, none⟩ : ChainLoan) ∈
      (Exec.simulate failingWorld scanBook scanLoanOpenedEvents).2.2.history := by
    rw [hhistory]
    exact List.mem_singleton_self _
  have hupTo : scanOpening.ledger ≤
      (Exec.simulate failingWorld scanBook scanLoanOpenedEvents).2.2.cursor.getD 0 := by
    rw [hcursor]
    decide
  rcases hcovered _ hloan (by decide) hupTo with hrow | hnobody
  · rw [openHashes, hloans] at hrow
    cases hrow
  · have hfound : (Exec.simulate failingWorld scanBook scanLoanOpenedEvents).1.any findsNobody =
        false := by decide +kernel
    have hmem : ⟨.findBorrower scanOpening, .ok none⟩ ∈
        (Exec.simulate failingWorld scanBook scanLoanOpenedEvents).1 := by
      simpa using hnobody
    exact List.any_eq_false.mp hfound _ hmem rfl

end LoanBook

end Lendoor.Backend
