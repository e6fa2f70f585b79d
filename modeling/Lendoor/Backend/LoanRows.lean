import Lendoor.Backend.EventScan
import Lendoor.LoanManager.Effects
import Mathlib.Data.Rat.Floor
import Mathlib.Tactic.FieldSimp

/-! # Rows of opened loans

The loans table, and the two code paths that write the row of an opened loan: the scanner
from the event that the contract published, `inform-open` from the request. Numbers are
exact rationals here.
-/

namespace Lendoor.Backend

open Cctp (Text)

namespace LoanBook

inductive LoanStatus
  | open
  | repaidOnTime
  | repaidLate
  | defaultedInGrace
  | defaulted
  deriving DecidableEq, Repr

/-- A row of the loans table. Dates are in milliseconds. -/
structure Loan where
  id : Nat
  userId : Nat
  borrowerAddress : Text
  principal : ℚ
  amountDueAtOpen : ℚ
  amountPaid : ℚ
  tenorDays : Int
  feeBps : Int
  startAt : Int
  dueAt : Int
  closedAt : Option Int := none
  status : LoanStatus
  repaidOnTime : Bool
  openTxHash : Option Text
  closeTxHash : Option Text := none
  syncedByChain : Bool := false
  lateFeesCollectedUsd : Option ℚ := none
  deriving DecidableEq

/-- `Number(units) / 10 ** TOKEN_DECIMALS` -/
def fromUnits (units : Int) : ℚ := units / 10 ^ 7

/-- `Math.round` -/
def mathRound (x : ℚ) : Int := ⌊x + 1 / 2⌋

/-- `toFixed(2)` of an amount. -/
def formatAmount (d : ℚ) : ℚ := ⌊d * 100 + 1 / 2⌋ / 100

/-- The row that `insertMissingLoan` builds from an event. -/
def missingLoan (id userId : Nat) (event : ChainLoanOpenedEvent) : Loan where
  id := id
  userId := userId
  borrowerAddress := event.borrower
  principal := fromUnits event.principal
  amountDueAtOpen := fromUnits event.amountDue
  amountPaid := 0
  tenorDays := mathRound ((event.due - event.timestamp) / 86400)
  feeBps := event.feeBps
  startAt := event.timestamp * 1000
  dueAt := event.due * 1000
  status := .open
  repaidOnTime := false
  openTxHash := some event.txHash
  syncedByChain := true

/-- The row that `informLoanOpened` builds from a request, at a fee and a time of the
server's. -/
def informedLoan (id userId : Nat) (wallet : Text) (principalDec : ℚ) (tenor : Nat) (feeBps : Int)
    (txHash : Text) (now : Int) : Loan where
  id := id
  userId := userId
  borrowerAddress := wallet
  principal := formatAmount principalDec
  amountDueAtOpen := formatAmount (principalDec + principalDec * feeBps / 10000)
  amountPaid := 0
  tenorDays := tenor
  feeBps := feeBps
  startAt := now
  dueAt := now + tenor * 24 * 60 * 60 * 1000
  status := .open
  repaidOnTime := false
  openTxHash := some txHash

/-! ## The terms of an opened loan -/

/-- The terms of two rows are the same, up to the two decimals of the second. -/
structure SameTerms (scanned informed : Loan) : Prop where
  principal : informed.principal = formatAmount scanned.principal
  tenorDays : informed.tenorDays = scanned.tenorDays
  feeBps : informed.feeBps = scanned.feeBps
  amountDueAtOpen : informed.amountDueAtOpen = formatAmount scanned.amountDueAtOpen

/-- The row records the loan of `principal` units for `tenor` days at `feeBps`. -/
structure RecordsTerms (row : Loan) (units : Int) (tenor bps : Nat) : Prop where
  feeBps : row.feeBps = bps
  tenorDays : row.tenorDays = tenor
  principal : row.principal = fromUnits units
  amountDueAtOpen : row.amountDueAtOpen = fromUnits (units + units * bps / 10000)

/-- The server reports a published event, with the time at which its ledger closed. -/
structure Reports (g : Gateway) (reported : ContractEvent) (event : Event) (time : Nat) : Prop where
  topic : reported.topic = event.topics
  value : reported.value = event.data
  closed : g.dateParse reported.ledgerClosedAt = some (time * 1000)

section Terms

variable {principal : Int} {tenor feeBps : Nat}

/-- The first day's charge reads back as the fee exactly if it is the whole fee, without a
rest. -/
theorem firstDay_bps_iff (hprincipal : 0 < principal) (htenor : 1 < tenor) (hfee : 1 ≤ feeBps) :
    (LoanManager.firstDay principal tenor feeBps * 10000).tdiv principal = feeBps ↔
      10000 ∣ principal * feeBps ∧ principal * feeBps / 10000 < tenor := by
  have hnonneg := LoanManager.firstDay_nonneg hprincipal tenor feeBps
  have hfull : 0 ≤ principal * feeBps / 10000 := Int.ediv_nonneg (by positivity) (by decide)
  rw [Int.tdiv_eq_ediv_of_nonneg (by omega), Int.ediv_eq_iff_of_pos hprincipal]
  unfold LoanManager.firstDay LoanManager.bpsDenom
  split
  · -- a day of the fee is at most half of it
    rename_i hday
    have hle : principal * feeBps / 10000 / tenor * tenor ≤ principal * feeBps / 10000 :=
      Int.ediv_mul_le _ (by omega)
    have hle' : principal * feeBps / 10000 * 10000 ≤ principal * feeBps :=
      Int.ediv_mul_le _ (by decide)
    constructor
    · rintro ⟨hcharge, -⟩
      nlinarith
    · rintro ⟨-, hlt⟩
      nlinarith
  · rename_i hday
    have hlt : principal * feeBps / 10000 < tenor := by
      by_contra hle
      exact hday ((Int.le_ediv_iff_mul_le (by omega)).mpr (by omega))
    have hrest := Int.mul_ediv_add_emod (principal * feeBps) 10000
    have hpos := Int.emod_nonneg (principal * feeBps) (by decide : (10000 : Int) ≠ 0)
    rw [and_iff_left hlt, Int.dvd_iff_emod_eq_zero, Int.mul_comm (feeBps : Int)]
    constructor
    · rintro ⟨hcharge, -⟩
      omega
    · intro hzero
      exact ⟨by omega, by omega⟩

theorem firstDay_of_lt (hprincipal : 0 < principal) (hlt : principal * feeBps / 10000 < tenor) :
    LoanManager.firstDay principal tenor feeBps = principal * feeBps / 10000 := by
  have hfull : 0 ≤ principal * feeBps / 10000 := Int.ediv_nonneg (by positivity) (by decide)
  refine if_neg ?_
  rw [LoanManager.bpsDenom, Int.ediv_eq_zero_of_lt hfull hlt]
  decide

theorem mathRound_intCast (n : Int) : mathRound n = n := by
  rw [mathRound, Int.floor_eq_iff]
  constructor <;> linarith

/-- What the gateway reads from the event of an opened loan. -/
theorem loanOpenedOf_openLoan {g : Gateway} {e : Env} {s : LoanManager.State} {borrower : Address}
    {o : Outcome LoanManager.State Unit} {event : Event} {reported : ContractEvent}
    (htenor : 1 ≤ tenor)
    (hopen : LoanManager.openLoan e s borrower principal tenor feeBps = .ok o)
    (hevent : event ∈ o.events)
    (hreports : Reports g reported event e.timestamp) :
    0 < principal ∧ ∃ opened, g.loanOpenedOf reported = .ok opened ∧ opened.principal = principal ∧
      opened.amountDue = principal + LoanManager.firstDay principal tenor feeBps ∧
      (opened.due : Int) = opened.timestamp + tenor * 86400 ∧
      opened.feeBps = (LoanManager.firstDay principal tenor feeBps * 10000).tdiv principal := by
  rcases LoanManager.openLoan_spec hopen with ⟨-, hpos, -, -, -, -, l, hl, -, hevents⟩
  rcases LoanManager.openedLoan_spec hpos htenor hl with ⟨-, rfl⟩
  rw [hevents, List.mem_singleton] at hevent
  subst hevent
  have htime : g.eventTimestamp reported.ledgerClosedAt = e.timestamp := by
    rw [Gateway.eventTimestamp, hreports.closed]
    change (e.timestamp * 1000 : Int) / 1000 = e.timestamp
    omega
  refine ⟨hpos, _, by rw [Gateway.loanOpenedOf, hreports.value]; rfl, rfl, rfl, ?_, ?_⟩
  · simp [htime, LoanManager.secondsPerDay]
  · simp [hpos]

/-- The scanner records the terms of an opened loan exactly if the whole fee has no rest and
is less than a unit a day: then the first day is charged all of it. -/
theorem openLoan_scanned_iff {g : Gateway} {e : Env} {s : LoanManager.State} {borrower : Address}
    {o : Outcome LoanManager.State Unit} {event : Event} {reported : ContractEvent}
    (id userId : Nat) (htenor : 1 < tenor) (hfee : 1 ≤ feeBps)
    (hopen : LoanManager.openLoan e s borrower principal tenor feeBps = .ok o)
    (hevent : event ∈ o.events) (hreports : Reports g reported event e.timestamp) :
    ∃ opened, g.loanOpenedOf reported = .ok opened ∧
      (RecordsTerms (missingLoan id userId opened) principal tenor feeBps ↔
        10000 ∣ principal * feeBps ∧ principal * feeBps / 10000 < tenor) := by
  rcases loanOpenedOf_openLoan (by omega) hopen hevent hreports with
    ⟨hpos, opened, hopened, hprincipal, hdue, htime, hbps⟩
  refine ⟨opened, hopened, ?_⟩
  constructor
  · intro hrecords
    rw [← firstDay_bps_iff hpos htenor hfee, ← hbps]
    exact hrecords.feeBps
  · intro hwhole
    rw [firstDay_of_lt hpos hwhole.2] at hdue
    have hfeeBps : opened.feeBps = feeBps :=
      hbps.trans ((firstDay_bps_iff hpos htenor hfee).mpr hwhole)
    have hdays : ((opened.due : ℚ) - opened.timestamp) / 86400 = (tenor : Int) := by
      have hcast : (opened.due : ℚ) = opened.timestamp + tenor * 86400 := by exact_mod_cast htime
      rw [hcast]
      push_cast
      ring
    refine ⟨hfeeBps, ?_, by rw [missingLoan, hprincipal], by rw [missingLoan, hdue]⟩
    rw [missingLoan, hdays, mathRound_intCast]

end Terms

end LoanBook

end Lendoor.Backend
