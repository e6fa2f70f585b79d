import Lendoor.Backend.Borrow
import Lendoor.Backend.LoanTables

/-! # The terms of an opened loan

One loan, and the two rows that may be written of it. The scanner takes the event's word,
and `inform-open` the request's and its own pricing's; the event tells the first day's
charge and not the whole fee.
-/

namespace Lendoor.Backend

open Cctp (Text)

namespace LoanBook

variable {sdk : LoanSdk} {b b' : Book} {dto : InformLoanDto} {asked : List Asked} {rowId : Nat}

/-! ## The row of `inform-open` -/

theorem not_mem_of_rowById {row : Loan} (h : b.rowById row.id = none) : row ∉ b.loans :=
  fun hmem => List.find?_eq_none.mp h row hmem (decide_eq_true rfl)

/-- The transaction returns a row that was there, or writes one. -/
theorem openTransaction_row {opening : Opening} {row : Loan}
    (h : (row, b') = b.openTransaction opening) : row ∈ b.loans ∨
      row = informedLoan b.nextId opening.userId opening.wallet opening.principalDec opening.tenor
        opening.feeBps opening.txHash b.now ∧
      b' =
        Book.insert { b with loans := b.loans.map (Book.autoClose b.now opening.userId) } row := by
  unfold Book.openTransaction at h
  split at h
  · rename_i existing hexisting
    cases h
    exact .inl (List.mem_of_find?_eq_some hexisting)
  · split at h
    · rename_i existing hexisting
      cases h
      exact .inl (List.mem_of_find?_eq_some hexisting)
    · cases h
      exact .inr ⟨rfl, rfl⟩

theorem autoClose_id (now : Int) (userId : Nat) (loan : Loan) :
    (Book.autoClose now userId loan).id = loan.id := by
  unfold Book.autoClose
  split <;> rfl

/-- A row with a new id is read back. -/
theorem rowById_insert_autoClose {now : Int} {userId : Nat} {row : Loan}
    (hnew : b.rowById row.id = none) :
    (Book.insert { b with loans := b.loans.map (Book.autoClose now userId) } row).rowById row.id =
      some row := by
  have hnone : (b.loans.map (Book.autoClose now userId)).find? (fun loan => loan.id = row.id) =
      none := by
    refine List.find?_eq_none.mpr fun loan hloan => ?_
    rcases List.mem_map.mp hloan with ⟨old, hold, rfl⟩
    rw [autoClose_id]
    exact List.find?_eq_none.mp hnew old hold
  simp [Book.rowById, Book.insert, List.find?_append, hnone]

/-- A new row of `inform-open` takes its amount and its days from the request, and its fee
from the pricing. -/
theorem informLoanOpened_row {informed : Loan}
    (h : Exec (Responds sdk) b (informLoanOpened sdk dto) asked (.ok rowId) b')
    (hnew : b.rowById rowId = none) (hrow : b'.rowById rowId = some informed) :
    ∃ wallet userId amount fee, parseAmountHuman sdk dto.amountHuman = .ok amount ∧
      dto.tenorDays ∈ [7, 14, 21] ∧ ⟨.feeBpsForTerm userId dto.tenorDays, .ok fee⟩ ∈ asked ∧
      informed = informedLoan rowId userId wallet amount dto.tenorDays.toNat fee
        dto.txHash b.now := by
  rcases h.lift_bind_inv with ⟨_, _, _, hout, _⟩ | ⟨wallet, -, hbody⟩
  · cases hout
  rcases hbody.call_bind_inv with ⟨_, _, _, hout⟩ | ⟨found, t, rest, rfl, hrespond, hfound⟩
  · cases hout
  rw [hrespond.ok.2] at hfound
  split at hfound
  · cases (Exec.throw_iff.mp hfound).2.1
  rename_i user
  split at hfound
  · cases (Exec.throw_iff.mp hfound).2.1
  split at hfound
  · cases (Exec.throw_iff.mp hfound).2.1
  rename_i hdays
  rcases hfound.call_bind_inv with ⟨_, _, _, hout⟩ | ⟨existing, t, rest, rfl, hrespond, hexisting⟩
  · cases hout
  have hbyTx : existing = b.byOpenTx dto.txHash := hrespond.ok.1
  rw [hrespond.ok.2] at hexisting
  split at hexisting
  · rename_i row
    cases (Exec.pure_iff.mp hexisting).2.1
    exact absurd (List.mem_of_find?_eq_some hbyTx.symm) (not_mem_of_rowById hnew)
  rcases hexisting.call_bind_inv with ⟨_, _, _, hout⟩ | ⟨matched, t, rest, rfl, hrespond, hmatched⟩
  · cases hout
  rw [hrespond.ok.2] at hmatched
  split at hmatched
  · cases (Exec.throw_iff.mp hmatched).2.1
  rcases hmatched.lift_bind_inv with ⟨_, _, _, hout, _⟩ | ⟨amount, hamount, hparsed⟩
  · cases hout
  rcases hparsed.call_bind_inv with ⟨_, _, _, hout⟩ | ⟨fee, t, rest, rfl, hrespond, hpriced⟩
  · cases hout
  rw [hrespond.ok] at hpriced
  rcases hpriced.call_bind_inv with ⟨_, _, _, hout⟩ | ⟨row, t, rest, rfl, hrespond, hend⟩
  · cases hout
  rcases Exec.pure_iff.mp hend with ⟨-, hid, rfl⟩
  cases hid
  rcases openTransaction_row hrespond.ok with hmem | ⟨hwritten, rfl⟩
  · exact absurd hmem (not_mem_of_rowById hnew)
  · rw [rowById_insert_autoClose hnew, Option.some.injEq] at hrow
    subst hrow
    refine ⟨wallet, user.id, amount, fee, hamount, not_not.mp hdays, by simp, ?_⟩
    rw [hwritten]
    rfl

/-! ## Two rows of one loan -/

/-- The request of `inform-open` and its pricing are for a loan of `principal` units for
`tenor` days at `feeBps`: the amount is the principal up to two decimals, and so is the total
with the fee. -/
structure ForLoan (pDefault : Option ℚ) (params : Borrow.TieredParams) (tenorDays : Int)
    (amount : ℚ) (principal : Int) (tenor feeBps : Nat) : Prop where
  days : tenorDays = tenor
  priced : Borrow.getFeeBpsForTerm tenorDays pDefault params = .ok feeBps
  lent : formatAmount amount = formatAmount (fromUnits principal)
  due : formatAmount (amount + amount * feeBps / 10000) =
    formatAmount (fromUnits (principal + principal * feeBps / 10000))

variable {principal : Int} {tenor feeBps : Nat} {scanned : Loan} {pDefault : Option ℚ}
  {params : Borrow.TieredParams}

/-- Beside a row with the terms of the loan, the row of `inform-open` has them too exactly if
its request and its pricing do. -/
theorem sameTerms_iff {id userId : Nat} {wallet : Text} {amount : ℚ} {fee now : Int}
    (hscanned : RecordsTerms scanned principal tenor feeBps) (hdays : dto.tenorDays ∈ [7, 14, 21])
    (hpriced : Borrow.getFeeBpsForTerm dto.tenorDays pDefault params = .ok fee) :
    SameTerms scanned
        (informedLoan id userId wallet amount dto.tenorDays.toNat fee dto.txHash now) ↔
      ForLoan pDefault params dto.tenorDays amount principal tenor feeBps := by
  have hnonneg : (dto.tenorDays.toNat : Int) = dto.tenorDays := by
    simp only [List.mem_cons, List.not_mem_nil, or_false] at hdays
    omega
  constructor
  · intro hsame
    have hfee : fee = feeBps := hsame.feeBps.trans hscanned.feeBps
    refine ⟨?_, hfee ▸ hpriced, ?_, ?_⟩
    · exact hnonneg.symm.trans (hsame.tenorDays.trans hscanned.tenorDays)
    · exact hsame.principal.trans (congrArg formatAmount hscanned.principal)
    · have htotal := hsame.amountDueAtOpen.trans (congrArg formatAmount hscanned.amountDueAtOpen)
      rw [informedLoan, hfee] at htotal
      exact_mod_cast htotal
  · intro hloan
    have hfee : fee = feeBps := by
      have hsame := hpriced.symm.trans hloan.priced
      exact Except.ok.inj hsame
    refine ⟨?_, ?_, ?_, ?_⟩
    · exact hloan.lent.trans (congrArg formatAmount hscanned.principal.symm)
    · exact hnonneg.trans (hloan.days.trans hscanned.tenorDays.symm)
    · exact hfee.trans hscanned.feeBps.symm
    · rw [hscanned.amountDueAtOpen, ← hloan.due, informedLoan, hfee]
      push_cast
      rfl

/-- Both rows of an opened loan record its terms exactly if the whole fee has no rest and is
less than a unit a day, so that the first day is charged all of it, and `inform-open` is asked
and prices for the loan's terms. -/
theorem openLoan_recorded_iff {g : Gateway} {e : Env} {s : LoanManager.State} {borrower : Address}
    {o : Outcome LoanManager.State Unit} {event : Event} {reported : ContractEvent}
    {informed : Loan} (id userId : Nat) (htenor : tenor ∈ [7, 14, 21]) (hfee : 1 ≤ feeBps)
    (hopen : LoanManager.openLoan e s borrower principal tenor feeBps = .ok o)
    (hevent : event ∈ o.events) (hreports : Reports g reported event e.timestamp)
    (hinform : Exec (Responds sdk) b (informLoanOpened sdk dto) asked (.ok rowId) b')
    (hnew : b.rowById rowId = none) (hrow : b'.rowById rowId = some informed)
    (hpriced : ∀ userId fee, ⟨.feeBpsForTerm userId dto.tenorDays, .ok fee⟩ ∈ asked →
      Borrow.getFeeBpsForTerm dto.tenorDays pDefault params = .ok fee) :
    ∃ opened amount, g.loanOpenedOf reported = .ok opened ∧
      parseAmountHuman sdk dto.amountHuman = .ok amount ∧
      ((RecordsTerms (missingLoan id userId opened) principal tenor feeBps ∧
          SameTerms (missingLoan id userId opened) informed) ↔
        (10000 ∣ principal * feeBps ∧ principal * feeBps / 10000 < tenor) ∧
          ForLoan pDefault params dto.tenorDays amount principal tenor feeBps) := by
  have hmore : 1 < tenor := by
    simp only [List.mem_cons, List.not_mem_nil, or_false] at htenor
    omega
  rcases openLoan_scanned_iff id userId hmore hfee hopen hevent hreports with
    ⟨opened, hopened, hscanned⟩
  rcases informLoanOpened_row hinform hnew hrow with
    ⟨wallet, informer, amount, fee, hamount, hdays, hasked, rfl⟩
  refine ⟨opened, amount, hopened, hamount, ?_⟩
  rw [← hscanned]
  refine and_congr_right fun hrecords => ?_
  exact sameTerms_iff hrecords hdays (hpriced informer fee hasked)

/-! ## Two offered loans -/

/-- A profile and an offer of the borrower `3`. -/
def offeredState : LoanManager.State :=
  { LoanManager.construct ⟨1⟩ ⟨2⟩ with
    risk := Store.empty.set ⟨3⟩ ⟨1, true, 2592000, 0, 10000000⟩
    offer := Store.empty.set ⟨3⟩ ⟨7, 500, 2000, 10000000⟩ }

/-- The server's report of an opened loan, of a ledger that closed at `1000`. -/
def reportedLoan (principal amountDue : Int) : ContractEvent :=
  ⟨1, ⟨0⟩, (Event.loanopen ⟨3⟩ principal amountDue 605800).topics,
    (Event.loanopen ⟨3⟩ principal amountDue 605800).data, 1, ['a'], [], true⟩

def loanGateway : Gateway :=
  { sampleGateway with
    nativeText := fun value => if value = .address ⟨3⟩ then sampleAccount else []
    dateParse := fun _ => some 1000000 }

/-- The borrower asks for the loan of `100` units that is on the chain. -/
def dustDto : InformLoanDto := ⟨sampleAccount, "0.00001".toList, 7, ['a']⟩

def dustSdk : LoanSdk := ⟨fun text => if text = "0.00001".toList then some (1 / 100000) else none⟩

def dustBook : Book where
  now := 1000000
  ledger := 1
  history := [⟨⟨sampleAccount, 100, 105, 605800, 500, 1, ['a'], 1000⟩, none⟩]
  loans := []
  users := [⟨1, sampleAccount, some 1, none, 0, false⟩]
  cursor := none
  nextId := 1

/-- A first loan, at a risk that is priced at `500` basis points for a week. -/
def dustParams : Borrow.TieredParams := ⟨0, .fea, 0, 0⟩

def dustWorld (s : Book) : (ask : Ask) → Except HttpError (Answer ask) × Book
  | .feeBpsForTerm _ tenor =>
      (Borrow.getFeeBpsForTerm tenor (some (1741 / 10000)) dustParams, s)
  | ask => smoothWorld dustSdk s ask

theorem dustWorld_responds (s : Book) (ask : Ask) :
    Responds dustSdk s ⟨ask, (dustWorld s ask).1⟩ (dustWorld s ask).2 := by
  unfold dustWorld
  split
  · rename_i userId tenor
    cases hpriced : Borrow.getFeeBpsForTerm tenor (some (1741 / 10000)) dustParams with
    | error error => rfl
    | ok fee => rfl
  · exact smoothWorld_responds dustSdk s ask

/-- Of a loan of `100` units the whole fee is `5`, less than a unit a day. -/
theorem openLoan_recorded_dust : ∃ opened asked b' informed,
    loanGateway.loanOpenedOf (reportedLoan 100 105) = .ok opened ∧
      Exec (Responds dustSdk) dustBook (informLoanOpened dustSdk dustDto) asked (.ok 1) b' ∧
      b'.rowById 1 = some informed ∧
      RecordsTerms (missingLoan 1 1 opened) 100 7 500 ∧
        SameTerms (missingLoan 1 1 opened) informed := by
  have hopens : (LoanManager.openLoan (.signedBy ⟨2⟩ 1000) offeredState ⟨3⟩ 100 7 500).toOption.map
      Outcome.events = some [.loanopen ⟨3⟩ 100 105 605800] := by decide +kernel
  rcases exists_ok_of_toOption_map hopens with ⟨o, hopen, hevents⟩
  have hreports : Reports loanGateway (reportedLoan 100 105) (.loanopen ⟨3⟩ 100 105 605800) 1000 :=
    ⟨rfl, rfl, rfl⟩
  have hinform := Exec.of_simulate dustWorld_responds (informLoanOpened dustSdk dustDto) dustBook
  have hout : (Exec.simulate dustWorld dustBook (informLoanOpened dustSdk dustDto)).2.1 =
      .ok 1 := by
    decide +kernel
  rw [hout] at hinform
  have hrow : (Exec.simulate dustWorld dustBook (informLoanOpened dustSdk dustDto)).2.2.rowById 1 =
      some (informedLoan 1 1 sampleAccount (1 / 100000) 7 500 ['a'] 1000000) := by decide +kernel
  have hfee : Borrow.getFeeBpsForTerm 7 (some (1741 / 10000)) dustParams = .ok 500 := by
    decide +kernel
  have hparsed : parseAmountHuman dustSdk dustDto.amountHuman = .ok (1 / 100000) := by
    decide +kernel
  have hfees : ((Exec.simulate dustWorld dustBook (informLoanOpened dustSdk dustDto)).1.all
      fun x => match x with
        | ⟨.feeBpsForTerm _ _, result⟩ => result.toOption.all fun fee => fee = 500
        | _ => true) = true := by decide +kernel
  have hpriced : ∀ userId fee, ⟨.feeBpsForTerm userId dustDto.tenorDays, .ok fee⟩ ∈
      (Exec.simulate dustWorld dustBook (informLoanOpened dustSdk dustDto)).1 →
      Borrow.getFeeBpsForTerm dustDto.tenorDays (some (1741 / 10000)) dustParams = .ok fee := by
    intro userId fee hasked
    have hsame := List.all_eq_true.mp hfees _ hasked
    rw [of_decide_eq_true hsame]
    exact hfee
  rcases openLoan_recorded_iff 1 1 (by decide) (by decide) hopen
    (by simp [hevents]) hreports hinform
    rfl hrow hpriced with ⟨opened, amount, hopened, hamount, hiff⟩
  cases hparsed.symm.trans hamount
  rcases hiff.mpr ⟨by decide, rfl, hfee, by decide +kernel, by decide +kernel⟩
    with ⟨hrecords, hsame⟩
  exact ⟨opened, _, _, _, hopened, hinform, hrow, hrecords, hsame⟩

/-- A loan of one token at `500` basis points is recorded at `71`. -/
theorem openLoan_recorded_token :
    ¬ ∀ (g : Gateway) (e : Env) (s : LoanManager.State) (borrower : Address) (principal : Int)
      (tenor feeBps id userId : Nat) (o : Outcome LoanManager.State Unit) (event : Event)
      (reported : ContractEvent) (opened : ChainLoanOpenedEvent), tenor ∈ [7, 14, 21] → 1 ≤ feeBps →
        feeBps ≤ 10000 → LoanManager.openLoan e s borrower principal tenor feeBps =
          .ok o → event ∈ o.events →
        Reports g reported event e.timestamp → g.loanOpenedOf reported = .ok opened →
        RecordsTerms (missingLoan id userId opened) principal tenor feeBps := by
  intro h
  have hopens :
      (LoanManager.openLoan (.signedBy ⟨2⟩ 1000) offeredState ⟨3⟩ 10000000 7 500).toOption.map
      Outcome.events = some [.loanopen ⟨3⟩ 10000000 10071428 605800] := by decide +kernel
  rcases exists_ok_of_toOption_map hopens with ⟨o, hopen, hevents⟩
  have hrecords :=
    h loanGateway _ _ _ _ _ _ 1 1 o _ (reportedLoan 10000000 10071428) _ (by decide) (by decide)
    (by decide) hopen (by rw [hevents]; exact List.mem_singleton_self _) ⟨rfl, rfl, rfl⟩ rfl
  exact absurd hrecords.feeBps (by decide +kernel)

end LoanBook

end Lendoor.Backend
