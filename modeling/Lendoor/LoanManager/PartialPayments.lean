import Mathlib.Data.Rat.Floor
import Lendoor.Core.PiecewiseRate
import Lendoor.LoanManager.PreLate

/-! # Interest under partial payments

Before the late period the interest of a loan is a charge at a rate that each payment
of principal lowers. What is charged stays within one unit a payment of the interest on
the daily balance.
-/

namespace Lendoor.LoanManager

open PiecewiseRate (accrued charged rateAfter Falling)

/-! ## What the calls of a run report -/

/-- A call with the events and the result it returned. -/
abbrev CallResult := Call × (List Event × Ret)

/-- Principal paid on `b`'s loan, as `apply_payment` returns it. -/
def principalPaid (b : Address) : CallResult → Int
  | ((_, .applyPayment c _), (_, .payment principalPaid _ _)) => if c = b then principalPaid else 0
  | _ => 0

def interestPaid (b : Address) : CallResult → Int
  | ((_, .applyPayment c _), (_, .payment _ interestPaid _)) => if c = b then interestPaid else 0
  | _ => 0

/-- The call does not close `b`'s loan: every payment on it is partial. -/
def KeepsOpen (b : Address) : CallResult → Prop
  | ((_, .closeLoan c _), _) => c ≠ b
  | ((_, .applyPayment c _), (_, .payment _ _ remaining)) => c = b → 0 < remaining
  | _ => True

/-- A payment that reduced the principal: its time, and the principal after it. -/
structure Reduction where
  time : Nat
  principal : Int
  deriving DecidableEq

/-- The payments that reduced `b`'s principal, from `principal` on. -/
def reductions (b : Address) (principal : Int) : List CallResult → List Reduction
  | [] => []
  | label :: rest =>
      let left := principal - principalPaid b label
      if 0 < principalPaid b label then ⟨label.1.time, left⟩ :: reductions b left rest
      else reductions b left rest

theorem reductions_concat (b : Address) (principal : Int) (labels : List CallResult)
    (label : CallResult) :
    reductions b principal (labels ++ [label]) = reductions b principal labels ++
      if 0 < principalPaid b label then
        [⟨label.1.time, principal - ((labels ++ [label]).map (principalPaid b)).sum⟩]
      else [] := by
  induction labels generalizing principal with
  | nil => simp [reductions]
  | cons first rest ih =>
      have hleft : principal - principalPaid b first -
          ((rest ++ [label]).map (principalPaid b)).sum =
          principal - ((first :: rest ++ [label]).map (principalPaid b)).sum := by
        simp only [List.cons_append, List.map_cons, List.sum_cons]
        omega
      simp only [List.cons_append, reductions, ih, hleft]
      split <;> rfl

/-! ## Interest on the daily balance -/

namespace Terms

/-- Seconds of the tenor that interest is charged for at `t`: at least the first day,
at most all of them. -/
def billed (k : Terms) (t : Nat) : Nat :=
  max (min t k.due) (min (k.start + secondsPerDay) k.due) - k.start

/-- Interest a second, on a principal of `principal`. -/
def rate (k : Terms) (principal : Int) : ℚ :=
  principal * k.feeBps / (10000 * (k.tenorDays * secondsPerDay) : Nat)

def switches (k : Terms) (paid : List Reduction) : List (ℚ × ℚ) :=
  paid.map fun r => ((k.billed r.time : ℚ), k.rate r.principal)

/-- The exact interest at `now`: each principal for the time it was owed. -/
def idealInterest (k : Terms) (paid : List Reduction) (now : Nat) : ℚ :=
  accrued (k.rate k.principal) 0 (k.switches paid) (k.billed now)

/-- The interest charged for it. -/
def chargedInterest (k : Terms) (paid : List Reduction) (now : Nat) : Int :=
  charged (k.rate k.principal) 0 (k.switches paid) (k.billed now)

variable {k : Terms}

theorem floor_rate (k : Terms) (principal : Int) (elapsed : Nat) :
    ⌊k.rate principal * elapsed⌋ = prorata principal k.feeBps k.tenorDays elapsed := by
  have hquot : k.rate principal * elapsed =
      ((principal * k.feeBps * elapsed : Int) : ℚ) /
      ((10000 * (k.tenorDays * secondsPerDay) : Nat) : ℚ) := by
    rw [rate]
    push_cast
    ring
  rw [hquot, Rat.floor_intCast_div_natCast, prorata, bpsDenom]
  push_cast
  rfl

theorem rate_mono {p q : Int} (h : p ≤ q) : k.rate p ≤ k.rate q := by
  unfold rate
  gcongr

theorem billed_mono {t u : Nat} (h : t ≤ u) : k.billed t ≤ k.billed u := by
  unfold billed
  omega

theorem billed_first {t : Nat} (h : t ≤ k.start + secondsPerDay) :
    k.billed t = min (k.start + secondsPerDay) k.due - k.start := by
  rw [billed, max_eq_right (min_le_min_right _ h)]

theorem billed_day (ht : 1 ≤ k.tenorDays) : k.billed (k.start + secondsPerDay) = secondsPerDay := by
  rw [billed_first le_rfl, min_eq_left]
  · exact Nat.add_sub_cancel_left _ _
  · unfold due secondsPerDay
    omega

theorem chargedInterest_nil (k : Terms) (t : Nat) :
    k.chargedInterest [] t = ⌊k.idealInterest [] t⌋ :=
  PiecewiseRate.charged_unswitched _ _

theorem chargedInterest_day (ht : 1 ≤ k.tenorDays) :
    k.chargedInterest [] (k.start + secondsPerDay) =
      prorata k.principal k.feeBps k.tenorDays secondsPerDay := by
  have hzero : ⌊k.rate k.principal * 0⌋ = 0 := by rw [mul_zero, Int.floor_zero]
  change ⌊_⌋ - _ = _
  rw [hzero, sub_zero, billed_day ht, floor_rate]

theorem billed_le (k : Terms) (t : Nat) (ht : 1 ≤ k.tenorDays) :
    k.billed t ≤ k.tenorDays * secondsPerDay := by
  unfold billed due secondsPerDay
  omega

end Terms

/-! ## The invariant of a loan under repayment -/

/-- The record of a loan under the terms `k` after the calls `labels`: what was charged
is the interest that was paid and the balance beyond the principal. -/
structure Repays (k : Terms) (b : Address) (labels : List CallResult) (now : Nat) (l : Loan) :
    Prop where
  active : l.active = true
  start : l.start = k.start
  due : l.due = k.due
  feeBps : l.feeBps = k.feeBps
  gracePeriod : l.gracePeriod = k.gracePeriod
  tenorDays : l.tenorDays = k.tenorDays
  principal : l.principal = k.principal - (labels.map (principalPaid b)).sum
  principal_pos : 0 < l.principal
  principal_le : l.principal ≤ l.amountDue
  reduced : l.principal ≤ k.principal
  charged : (labels.map (interestPaid b)).sum + (l.amountDue - l.principal) =
    k.chargedInterest (reductions b k.principal labels) l.lastAccrued
  rate : rateAfter (k.rate k.principal) (k.switches (reductions b k.principal labels)) =
    k.rate l.principal
  falling : Falling (k.rate k.principal) 0 (k.switches (reductions b k.principal labels))
    (k.billed l.lastAccrued)
  anchor_le : k.start + secondsPerDay ≤ l.lastAccrued
  lastAccrued_le : l.lastAccrued ≤ max (k.start + secondsPerDay) now

/-- Terms that can be opened. -/
structure Terms.Billable (k : Terms) : Prop where
  tenor_pos : 1 ≤ k.tenorDays
  fee_pos : 1 ≤ k.feeBps
  due_fits : U64.Fits k.due

variable {k : Terms} {b : Address} {labels : List CallResult} {now : Nat} {l : Loan}

theorem Repays.live (hk : k.Billable) (h : Repays k b labels now l) : l.Live := by
  have hanchor := h.anchor_le
  refine ⟨h.principal_pos, h.principal_le, by rw [h.tenorDays]; exact hk.tenor_pos,
    by rw [h.feeBps]; exact hk.fee_pos, by rw [h.due, h.start, h.tenorDays]; rfl,
    by rw [h.due]; exact hk.due_fits, ?_⟩
  rw [h.start]
  unfold secondsPerDay at hanchor
  omega

theorem Repays.later {later : Nat} (h : Repays k b labels now l) (hle : now ≤ later) :
    Repays k b labels later l :=
  { h with lastAccrued_le := h.lastAccrued_le.trans (max_le_max_left _ hle) }

/-- Nothing more is billed between a call and the anchor it leaves. -/
theorem Repays.billed_advance {t : Nat} (h : Repays k b labels now l) (hclock : now ≤ t) :
    k.billed (max l.lastAccrued t) = k.billed t := by
  rcases Nat.le_total (k.start + secondsPerDay) t with hafter | hbefore
  · rw [max_eq_right (h.lastAccrued_le.trans (max_le hafter hclock))]
  · have hlast : l.lastAccrued ≤ k.start + secondsPerDay :=
      h.lastAccrued_le.trans (max_le le_rfl (hclock.trans hbefore))
    rw [Terms.billed_first (max_le hlast hbefore), Terms.billed_first hbefore]

theorem Repays.elapsed_eq {t : Nat} (hk : k.Billable) (h : Repays k b labels now l)
    (ht : k.start + secondsPerDay ≤ t) : l.elapsed t = k.billed t := by
  have htenor := hk.tenor_pos
  rw [Loan.elapsed, h.due, h.start]
  unfold Terms.billed Terms.due secondsPerDay at *
  omega

theorem Repays.cumulative_eq {t : Nat} (hk : k.Billable) (h : Repays k b labels now l)
    (ht : k.start + secondsPerDay ≤ t) : l.cumulative t = ⌊k.rate l.principal * k.billed t⌋ := by
  rw [Terms.floor_rate, prorata, Loan.cumulative, Loan.denominator,
    Loan.tenorSecs, h.elapsed_eq hk ht, h.feeBps, h.tenorDays]

/-- Accrual up to the end of grace charges the current principal for the time since the
anchor. -/
theorem Repays.accrued_eq {e : Env} {p : PremiumConfig} {acc : Loan} (hk : k.Billable)
    (h : Repays k b labels now l) (hclock : now ≤ e.timestamp)
    (hgrace : e.timestamp ≤ k.due + k.gracePeriod)
    (hfit : I128.Fits (k.principal * k.feeBps * k.billed e.timestamp))
    (hacc : accruedInMemory e l p = .ok acc) :
    acc = { l with amountDue := l.amountDue +
      (⌊k.rate l.principal * k.billed e.timestamp⌋ - ⌊k.rate l.principal * k.billed l.lastAccrued⌋)
        } := by
  have hlive := h.live hk
  have hanchor := h.anchor_le
  by_cases hlt : l.lastAccrued < e.timestamp
  · rw [accruedInMemory, if_neg (by simp [h.active]), hlive.accruedUntil_eq, if_neg (by omega)]
      at hacc
    rcases bind_eq_ok.mp hacc with ⟨charged, hcharged, hlate⟩
    have hinterest := hlive.accrueInterest_ok hlive.start_lt hcharged
    have hquiet : acc = charged := by
      have hnn := hlive.interestBetween_nonneg l.lastAccrued e.timestamp
      have hpos := hlive.amountDue_pos
      refine accrueLateFee_ok_of_le ?_ ?_ hlate
      · rw [hinterest]
        simp only
        omega
      · rw [hinterest]
        simp only [h.due, h.gracePeriod]
        exact hgrace
    have hproduct : l.ProductFits e.timestamp := by
      have hle := h.reduced
      refine I128.Fits.of_le (hlive.product_nonneg _) ?_ hfit
      rw [h.elapsed_eq hk (by omega), h.feeBps]
      gcongr
    rw [hquiet, hinterest, Loan.interestBetween_eq hlt.le hproduct, h.cumulative_eq hk (by omega),
      h.cumulative_eq hk hanchor]
  · have hsame := h.billed_advance hclock
    rw [max_eq_left (by omega)] at hsame
    rw [accruedInMemory_of_le (by rw [hlive.accruedUntil_eq]; omega)] at hacc
    rw [hsame, sub_self, add_zero]
    exact (Except.ok.inj hacc).symm

theorem Repays.accrue {e : Env} {p : PremiumConfig} {acc : Loan} (hk : k.Billable)
    (h : Repays k b labels now l) (hclock : now ≤ e.timestamp)
    (hgrace : e.timestamp ≤ k.due + k.gracePeriod)
    (hfit : I128.Fits (k.principal * k.feeBps * k.billed e.timestamp))
    (hacc : accruedInMemory e l p = .ok acc) :
    Repays k b labels e.timestamp (acc.advance e.timestamp) := by
  have hle := h.principal_le
  have hgrows : l.amountDue ≤ acc.amountDue := by
    rcases accruedInMemory_spec (h.live hk).amountDue_pos.le hacc with ⟨x, hx, rfl⟩
    simp only
    omega
  have hbilled := h.billed_advance hclock
  rw [h.accrued_eq hk hclock hgrace hfit hacc] at hgrows ⊢
  rw [Loan.advance_eq]
  refine { h with principal_le := hle.trans hgrows, charged := ?_, falling := ?_,
                  anchor_le := h.anchor_le.trans (le_max_left _ _),
                  lastAccrued_le := max_le ?_ (le_max_right _ _) }
  · have hcharged := h.charged
    simp only [hbilled, Terms.chargedInterest] at hcharged ⊢
    rw [PiecewiseRate.charged_later (k.billed l.lastAccrued : ℚ), h.rate]
    omega
  · refine h.falling.later ?_
    exact_mod_cast Terms.billed_mono (le_max_left _ _)
  · exact h.lastAccrued_le.trans (max_le_max_left _ hclock)

/-- A call that pays nothing on the loan leaves no trace in the schedule. -/
theorem Repays.quiet {label : CallResult} (h : Repays k b labels now l)
    (hprincipal : principalPaid b label = 0) (hinterest : interestPaid b label = 0) :
    Repays k b (labels ++ [label]) now l := by
  have hsame : reductions b k.principal (labels ++ [label]) = reductions b k.principal labels := by
    rw [reductions_concat, hprincipal, if_neg (by omega), List.append_nil]
  refine { h with principal := ?_, charged := ?_, rate := ?_, falling := ?_ }
  · rw [h.principal]
    simp [hprincipal]
  · rw [hsame, ← h.charged]
    simp [hinterest]
  · rw [hsame]
    exact h.rate
  · rw [hsame]
    exact h.falling

/-- A partial payment at the anchor: interest first, and what is left lowers the rate. -/
theorem Repays.pay {label : CallResult} {paid interest : Int} (h : Repays k b labels now l)
    (htime : k.billed label.1.time = k.billed l.lastAccrued)
    (hshort : paid < l.amountDue) (hsplit : interest = min paid (l.amountDue - l.principal))
    (hprincipal : principalPaid b label = paid - interest)
    (hinterest : interestPaid b label = interest) :
    Repays k b (labels ++ [label]) now { l with
      amountDue := l.amountDue - paid
      principal := l.principal - (paid - interest) } := by
  have hle := h.principal_le
  have hprincipal_pos := h.principal_pos
  have hreduced := h.reduced
  have hpaid : k.principal - ((labels ++ [label]).map (principalPaid b)).sum =
      l.principal - (paid - interest) := by
    rw [h.principal]
    simp [hprincipal]
    omega
  have hinterests : ((labels ++ [label]).map (interestPaid b)).sum =
      (labels.map (interestPaid b)).sum + interest := by
    simp [hinterest]
  have hcharged := h.charged
  rcases (show 0 ≤ paid - interest by omega).eq_or_lt with hnone | hsome
  · have hsame : reductions b k.principal (labels ++ [label]) =
        reductions b k.principal labels := by
      rw [reductions_concat, hprincipal, if_neg (by omega), List.append_nil]
    refine { h with principal := hpaid.symm, principal_pos := ?_, principal_le := ?_, reduced := ?_,
                    charged := ?_, rate := ?_, falling := ?_ }
    · simp only; omega
    · simp only; omega
    · simp only; omega
    · rw [hsame, ← hcharged, hinterests]
      simp only
      omega
    · rw [hsame, ← hnone, sub_zero]
      exact h.rate
    · rw [hsame]
      exact h.falling
  · have hswitches : k.switches (reductions b k.principal (labels ++ [label])) =
        k.switches (reductions b k.principal labels) ++
          [((k.billed l.lastAccrued : ℚ), k.rate (l.principal - (paid - interest)))] := by
      rw [reductions_concat, hprincipal, if_pos hsome, hpaid, Terms.switches,
        List.map_append, ← htime]
      rfl
    refine { h with principal := hpaid.symm, principal_pos := ?_, principal_le := ?_, reduced := ?_,
                    charged := ?_, rate := ?_, falling := ?_ }
    · simp only; omega
    · simp only; omega
    · simp only; omega
    · rw [Terms.chargedInterest, hswitches, PiecewiseRate.charged_concat, hinterests]
      rw [Terms.chargedInterest] at hcharged
      simp only
      omega
    · rw [hswitches, PiecewiseRate.rateAfter_concat]
    · rw [hswitches]
      refine h.falling.concat ?_ le_rfl
      rw [h.rate]
      exact Terms.rate_mono (by omega)

/-! ## Runs -/

theorem paid_of_ne {label : CallResult} (h : ∀ paid, label.1.2 ≠ .applyPayment b paid) :
    principalPaid b label = 0 ∧ interestPaid b label = 0 := by
  rcases label with ⟨⟨e, op⟩, events, ret⟩
  cases op with
  | applyPayment c paid =>
      have hne : c ≠ b := fun hc => h paid (by rw [hc])
      cases ret <;> simp [principalPaid, interestPaid, hne]
  | _ => exact ⟨rfl, rfl⟩

theorem KeepsOpen.closeLoan_ne {label : CallResult} (h : KeepsOpen b label) (paid : Int) :
    label.1.2 ≠ .closeLoan b paid := by
  rcases label with ⟨⟨e, op⟩, events, ret⟩
  rintro rfl
  exact h rfl

theorem Step.applyPayment_ok {c c' : Clocked State} {label : CallResult} {paid : Int}
    (h : Step c label c') (hop : label.1.2 = .applyPayment b paid) (hopen : KeepsOpen b label) :
    ∃ acc, accruedInMemory label.1.1 (c.state.readLoan b) (c.state.readPremium b) = .ok acc ∧
      paid < acc.amountDue ∧ ∃ interest, interest = min paid (acc.amountDue - acc.principal) ∧
        principalPaid b label = paid - interest ∧ interestPaid b label = interest ∧
        c'.state.readLoan b = { acc.advance label.1.1.timestamp with
          amountDue := acc.amountDue - paid
          principal := acc.principal - (paid - interest) } := by
  rcases label with ⟨⟨e, op⟩, events, ret⟩
  cases hop
  rcases map_eq_ok.mp h.exec_eq with ⟨o, ho, hsplit⟩
  rcases map_eq_ok.mp ho with ⟨paidOut, hpaid, rfl⟩
  rcases applyPayment_spec hpaid
    with ⟨-, -, -, acc, hacc, ⟨-, -, rfl⟩ | ⟨hshort, -, interest, hsplit', rfl⟩⟩
  · have hret : ret = .payment acc.principal (paid - acc.principal) 0 :=
      (Prod.mk.inj (Prod.mk.inj hsplit).2).2.symm
    subst hret
    exact absurd (hopen rfl) (by simp)
  · rcases Prod.mk.inj hsplit with ⟨hstate, hlabel⟩
    have hret : ret = .payment (paid - interest) interest (acc.amountDue - paid) :=
      (Prod.mk.inj hlabel).2.symm
    subst hret
    refine ⟨acc, hacc, hshort, interest, hsplit', by simp [principalPaid],
      by simp [interestPaid], ?_⟩
    rw [← hstate]
    exact State.readLoan_writeLoan_self _ _ _

theorem Step.repays {c c' : Clocked State} {label : CallResult} (hk : k.Billable)
    (h : Step c label c') (hopen : KeepsOpen b label)
    (hrepays : Repays k b labels c.now (c.state.readLoan b))
    (hgrace : c'.now ≤ k.due + k.gracePeriod)
    (hfit : I128.Fits (k.principal * k.feeBps * k.billed c'.now)) :
    Repays k b (labels ++ [label]) c'.now (c'.state.readLoan b) := by
  have hclock := h.clock
  have hnow : c'.now = label.1.1.timestamp := h.now_eq
  rw [hnow] at hgrace hfit ⊢
  by_cases hpays : ∃ paid, label.1.2 = .applyPayment b paid
  · rcases hpays with ⟨paid, hop⟩
    rcases h.applyPayment_ok hop hopen with
      ⟨acc, hacc, hshort, interest, hsplit, hprincipal, hinterest, hread⟩
    have haccrued := hrepays.accrue hk hclock hgrace hfit hacc
    rw [hread]
    simp only [← Loan.advance_amountDue acc label.1.1.timestamp,
      ← Loan.advance_principal acc label.1.1.timestamp] at hshort hsplit ⊢
    refine haccrued.pay ?_ hshort hsplit hprincipal hinterest
    have hbilled := haccrued.billed_advance le_rfl
    rw [max_eq_left] at hbilled
    · exact hbilled.symm
    · rw [Loan.advance_eq]
      exact le_max_right _ _
  · have hquiet := paid_of_ne fun paid hop => hpays ⟨paid, hop⟩
    refine Repays.quiet ?_ hquiet.1 hquiet.2
    have hspares : label.1.2.SparesLoan b :=
      fun paid => ⟨hopen.closeLoan_ne paid, fun hop => hpays ⟨paid, hop⟩⟩
    have hloangrace : label.1.1.timestamp ≤
        (c.state.readLoan b).due + (c.state.readLoan b).gracePeriod := by
      rw [hrepays.due, hrepays.gracePeriod]
      exact hgrace
    rcases h.exec_ok with ⟨o, ho, hstate⟩
    rw [← hstate]
    rcases (exec_effect ho).kept_or_accrued hspares hrepays.active hloangrace with
      hkept | ⟨acc, hacc, hread⟩
    · rw [hkept]
      exact hrepays.later hclock
    · rw [hread]
      exact hrepays.accrue hk hclock hgrace hfit hacc

theorem Terms.product_fits_of_le {t u : Nat} (hp : 0 < k.principal) (htu : t ≤ u)
    (h : I128.Fits (k.principal * k.feeBps * k.billed u)) :
    I128.Fits (k.principal * k.feeBps * k.billed t) := by
  have hle := Terms.billed_mono (k := k) htu
  refine I128.Fits.of_le (by positivity) ?_ h
  gcongr

theorem run_repays {c₀ c : Clocked State} (hk : k.Billable) (hp : 0 < k.principal)
    (run : Run (fun s label t => Step s label t ∧ KeepsOpen b label) c₀ labels c)
    (hstart : Repays k b [] c₀.now (c₀.state.readLoan b)) (hgrace : c.now ≤ k.due + k.gracePeriod)
    (hfit : I128.Fits (k.principal * k.feeBps * k.billed c.now)) :
    Repays k b labels c.now (c.state.readLoan b) := by
  induction run with
  | nil => exact hstart
  | snoc _ hstep ih =>
      have hle : _ ≤ _ := hstep.1.clock.trans hstep.1.now_eq.ge
      exact hstep.1.repays hk hstep.2 (ih (hle.trans hgrace) (Terms.product_fits_of_le hp hle hfit))
        hgrace hfit

/-- The terms that `open_loan` gives a loan. -/
def openedTerms (e : Env) (s : State) (principal : Int) (tenorDays feeBps : Nat) : Terms :=
  ⟨principal, e.timestamp, tenorDays, feeBps, s.config.defaultGracePeriod⟩

theorem openLoan_repays {e : Env} {s : State} {principal : Int} {tenorDays feeBps : Nat}
    {o : Outcome State Unit} (h : openLoan e s b principal tenorDays feeBps = .ok o)
    (hday : 1 ≤ principal * feeBps / bpsDenom / tenorDays) :
    (openedTerms e s principal tenorDays feeBps).Billable ∧ 0 < principal ∧
      Repays (openedTerms e s principal tenorDays feeBps) b [] e.timestamp
        (o.state.readLoan b) := by
  rcases openLoan_spec h with ⟨_, hpos, _, _, _, _, l, hl, hstate, _⟩
  have ht : 1 ≤ tenorDays := by
    rcases Nat.eq_zero_or_pos tenorDays with rfl | ht
    · simp at hday
    · exact ht
  have hf : 1 ≤ feeBps := by
    rcases Nat.eq_zero_or_pos feeBps with rfl | hf
    · simp at hday
    · exact hf
  rcases openedLoan_spec hpos ht hl with ⟨hdue, rfl⟩
  have hfirst : firstDay principal tenorDays feeBps =
      prorata principal feeBps tenorDays secondsPerDay := by
    rw [prorata_day, firstDay, if_pos (by omega)]
  have hnn := firstDay_nonneg hpos tenorDays feeBps
  have hanchor : firstAnchor e.timestamp principal tenorDays feeBps = e.timestamp + secondsPerDay :=
    if_pos (by omega)
  refine ⟨⟨ht, hf, hdue⟩, hpos, ?_⟩
  rw [hstate, State.readLoan_writeLoan_self, hanchor]
  refine ⟨rfl, rfl, rfl, rfl, rfl, rfl, by simp [openedTerms], hpos,
    by simp only; omega, le_rfl, ?_, rfl, ?_, le_rfl, le_max_left _ _⟩
  · refine Eq.trans ?_
      (Terms.chargedInterest_day (k := openedTerms e s principal tenorDays feeBps) ht).symm
    rw [hfirst]
    simp [openedTerms]
  · exact Nat.cast_nonneg _

/-- What is charged is within one unit a reduction of the ideal interest. -/
theorem Repays.interest_bounds {t : Nat} (hk : k.Billable) (hp : 0 < k.principal)
    (h : Repays k b labels now l) (ht : k.billed l.lastAccrued = k.billed t) :
    let paid := reductions b k.principal labels
    let ideal := k.idealInterest paid t
    let interest := k.chargedInterest paid t
    ideal - (paid.length + 1) < interest ∧ (interest : ℚ) ≤ ideal + paid.length ∧
      interest ≤ k.principal * k.feeBps / bpsDenom + paid.length ∧
      (paid = [] → interest = ⌊ideal⌋) := by
  intro paid ideal interest
  have hlength : (k.switches paid).length = paid.length := List.length_map _
  have hbounds :=
    PiecewiseRate.charged_bounds_zero (k.rate k.principal) (k.switches paid) (k.billed t)
  rw [hlength] at hbounds
  refine ⟨hbounds.1, hbounds.2, ?_, ?_⟩
  · have hfalls : ideal ≤ k.rate k.principal * k.billed t := by
      have hfalls := h.falling.accrued_le
      rw [ht, sub_zero] at hfalls
      exact hfalls
    have hfloor : interest - paid.length ≤
        prorata k.principal k.feeBps k.tenorDays (k.billed t) := by
      rw [← Terms.floor_rate, Int.le_floor]
      have hupper : (interest : ℚ) ≤ ideal + paid.length := hbounds.2
      push_cast
      linarith
    calc interest ≤ prorata k.principal k.feeBps k.tenorDays (k.billed t) + paid.length := by omega
      _ ≤ prorata k.principal k.feeBps k.tenorDays (k.tenorDays * secondsPerDay) + paid.length :=
          Int.add_le_add_right (prorata_mono hp hk.tenor_pos (k.billed_le t hk.tenor_pos)) _
      _ = k.principal * k.feeBps / bpsDenom + paid.length := by rw [prorata_tenor hk.tenor_pos]
  · intro hnone
    change k.chargedInterest paid t = ⌊k.idealInterest paid t⌋
    rw [hnone]
    exact Terms.chargedInterest_nil k t

/-- Up to the end of grace the interest charged on a loan, paid or owed, is within one
unit for each reducing payment of the exact interest on its daily balance, and exceeds the
whole fee by at most as much. -/
theorem interest_within_one_unit {e₀ e : Env} {s₀ : State} {principal owed : Int}
    {tenorDays feeBps : Nat} {o : Outcome State Unit} {c : Clocked State}
    (hopen : openLoan e₀ s₀ b principal tenorDays feeBps = .ok o)
    (hday : 1 ≤ principal * feeBps / bpsDenom / tenorDays)
    (run : Run (fun s label t => Step s label t ∧ KeepsOpen b label) ⟨e₀.timestamp,
      o.state⟩ labels c)
    (hclock : c.now ≤ e.timestamp)
    (hgrace : e.timestamp ≤ e₀.timestamp + tenorDays * secondsPerDay + s₀.config.defaultGracePeriod)
    (hfit : I128.Fits (principal * feeBps *
      (openedTerms e₀ s₀ principal tenorDays feeBps).billed e.timestamp))
    (howed : previewOwed e c.state b = .ok owed) :
    let paid := reductions b principal labels
    let ideal := (openedTerms e₀ s₀ principal tenorDays feeBps).idealInterest paid e.timestamp
    let interest := (labels.map (interestPaid b)).sum + (owed - (c.state.readLoan b).principal)
    ideal - (paid.length + 1) < interest ∧ (interest : ℚ) ≤ ideal + paid.length ∧
      interest ≤ principal * feeBps / bpsDenom + paid.length ∧
      (paid = [] → interest = ⌊ideal⌋) := by
  intro paid ideal interest
  rcases openLoan_repays hopen hday with ⟨hk, hp, hstart⟩
  have hrepays := run_repays hk hp run hstart (hclock.trans hgrace)
    (Terms.product_fits_of_le hp hclock hfit)
  rcases bind_eq_ok.mp howed with ⟨acc, hacc, hdue⟩
  have haccrued := hrepays.accrue hk hclock hgrace hfit hacc
  have hbilled := haccrued.billed_advance le_rfl
  rw [max_eq_left (by rw [Loan.advance_eq]; exact le_max_right _ _)] at hbilled
  have hcharged : interest =
      (openedTerms e₀ s₀ principal tenorDays feeBps).chargedInterest paid e.timestamp := by
    have htotal := haccrued.charged
    rw [Loan.advance_amountDue, Loan.advance_principal, pure_eq_ok.mp hdue,
      ((hrepays.live hk).accrued_bounds hacc).1] at htotal
    rw [Terms.chargedInterest, ← hbilled]
    exact htotal
  rw [hcharged]
  exact haccrued.interest_bounds hk hp hbilled

/-- Ten units at five percent for a week, three of them paid on the third day: the
interest that was paid and the interest owed on the seventh. -/
theorem interest_within_one_unit_sample :
    ∃ o c label,
      openLoan (.signedBy ⟨2⟩ 1000) (lateRateOffered 86400) ⟨3⟩ 10000000 7 500 = .ok o ∧
      Run (fun s label t => Step s label t ∧ KeepsOpen ⟨3⟩ label) ⟨1000, o.state⟩ [label] c ∧
      label.1 = (.signedBy ⟨2⟩ 201000, .applyPayment ⟨3⟩ 3000000) ∧
      reductions ⟨3⟩ 10000000 [label] = [⟨201000, 7165343⟩] ∧
      previewOwed (.signedBy ⟨3⟩ 600000) c.state ⟨3⟩ = .ok 7401700 ∧
      interestPaid ⟨3⟩ label + (7401700 - (c.state.readLoan ⟨3⟩).principal) ≤ 500000 + 1 := by
  have hrun : ∃ o, openLoan (.signedBy ⟨2⟩ 1000) (lateRateOffered 86400) ⟨3⟩ 10000000 7 500 =
      .ok o ∧
      ∃ q, exec (.signedBy ⟨2⟩ 201000) o.state (.applyPayment ⟨3⟩ 3000000) = .ok q ∧
        q.value = .payment 2834657 165343 7165343 ∧
        previewOwed (.signedBy ⟨3⟩ 600000) q.state ⟨3⟩ = .ok 7401700 := by decide
  rcases hrun with ⟨o, ho, q, hq, hvalue, howed⟩
  let label : CallResult := ((.signedBy ⟨2⟩ 201000, .applyPayment ⟨3⟩ 3000000), (q.events, q.value))
  have hstep : Step ⟨1000, o.state⟩ label ⟨201000, q.state⟩ :=
    ⟨show 1000 ≤ 201000 by decide, rfl, by simp only [Call.exec, label, hq]; rfl⟩
  have hopen : KeepsOpen ⟨3⟩ label := by
    simp only [label, hvalue, KeepsOpen]
    exact fun _ => by decide
  have hpaid : reductions ⟨3⟩ 10000000 [label] = [⟨201000, 7165343⟩] := by
    simp only [label, hvalue]
    rfl
  have hbounds := interest_within_one_unit (e := .signedBy ⟨3⟩ 600000) ho (by decide)
    (Run.single ⟨hstep, hopen⟩) (show 201000 ≤ 600000 by decide) (by decide) (by decide) howed
  have hmost := hbounds.2.2.1
  simp only [List.map_cons, List.map_nil, List.sum_cons, List.sum_nil, hpaid, List.length_cons,
    List.length_nil] at hmost
  refine ⟨o, ⟨201000, q.state⟩, label, ho, Run.single ⟨hstep, hopen⟩, rfl, hpaid, howed, ?_⟩
  simpa [bpsDenom] using hmost

end Lendoor.LoanManager
