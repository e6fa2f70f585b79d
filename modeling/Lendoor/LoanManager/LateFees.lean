import Lendoor.LoanManager.Repayment

/-! # An accrual in between

Late fees compound when an accrual writes them into the balance, and each accrual rounds
its fee down. An accrual at `s` leaves a later balance no lower exactly when the units
that the roundings lose are made up for by the fee on the first fee.
-/

namespace Lendoor.LoanManager

/-! ## What is owed at a time -/

/-- The balance that accrual at `t` computes. -/
def Loan.owedAt (l : Loan) (p : PremiumConfig) (t : Nat) : Int :=
  if l.lastAccrued < t then (l.charged t).amountDue + (l.charged t).lateFee p l.lastAccrued t
  else l.amountDue

/-- The record that `accrue_late` writes at `s`. -/
def Loan.accruedTo (l : Loan) (p : PremiumConfig) (s : Nat) : Loan :=
  { l with amountDue := l.owedAt p s, lastAccrued := max l.lastAccrued s }

variable {l : Loan} {p : PremiumConfig} {s t : Nat}

theorem Loan.Live.charged_pos (h : l.Live) (t : Nat) : 0 < (l.charged t).amountDue := by
  have hpos := h.amountDue_pos
  have hnn := h.interestBetween_nonneg l.lastAccrued t
  simp only [Loan.charged]
  omega

theorem Loan.Live.accrued_eq {e : Env} {acc : Loan} (h : l.Live) (hactive : l.active = true)
    (hacc : accruedInMemory e l p = .ok acc) :
    acc = { l with amountDue := l.owedAt p e.timestamp } := by
  unfold Loan.owedAt
  split
  · rename_i hlt
    rw [accruedInMemory, if_neg (by simp [hactive]), h.accruedUntil_eq, if_neg (by omega)] at hacc
    rcases bind_eq_ok.mp hacc with ⟨charged, hcharged, hlate⟩
    have hinterest : charged = l.charged e.timestamp := h.accrueInterest_ok h.start_lt hcharged
    rw [hinterest] at hlate
    exact accrueLateFee_ok (h.charged_pos _) hlate
  · rw [accruedInMemory_of_le (by rw [h.accruedUntil_eq]; omega)] at hacc
    exact (Except.ok.inj hacc).symm

theorem previewOwed_eq {e : Env} {st : State} {b : Address} {owed : Int} (h : (st.readLoan b).Live)
    (hactive : (st.readLoan b).active = true) (howed : previewOwed e st b = .ok owed) :
    owed = (st.readLoan b).owedAt (st.readPremium b) e.timestamp := by
  rcases bind_eq_ok.mp howed with ⟨acc, hacc, hdue⟩
  rw [← pure_eq_ok.mp hdue, h.accrued_eq hactive hacc]

theorem accrueLate_reads {e : Env} {st : State} {b : Address} {o : Outcome State Unit}
    (h : (st.readLoan b).Live) (hactive : (st.readLoan b).active = true)
    (hcall : accrueLate e st b = .ok o) :
    o.state.readLoan b = (st.readLoan b).accruedTo (st.readPremium b) e.timestamp ∧
      (o.state.readLoan b).Live ∧ o.state.readPremium b = st.readPremium b := by
  rcases accrueLate_spec hcall with ⟨hinactive, _⟩ | ⟨_, acc, hacc, hstate⟩
  · rw [hactive] at hinactive
    cases hinactive
  · rcases accruedInMemory_spec h.amountDue_pos.le hacc with ⟨x, hx, hraised⟩
    have hlive := h.accrue hx e.timestamp
    rw [← hraised] at hlive
    rw [hstate, State.readLoan_writeLoan_self]
    refine ⟨?_, hlive, rfl⟩
    rw [h.accrued_eq hactive hacc, Loan.advance_eq]
    rfl

/-! ## The two phases of an accrual in between -/

theorem Loan.Live.interestBetween_add (h : l.Live) {since : Nat} (hs : since ≤ s) (ht : s ≤ t)
    (hfit : l.ProductFits t) :
    l.interestBetween since s + l.interestBetween s t = l.interestBetween since t := by
  rw [Loan.interestBetween_eq hs (h.productFits_mono ht hfit), Loan.interestBetween_eq ht hfit,
    Loan.interestBetween_eq (hs.trans ht) hfit]
  omega

theorem Loan.interestBetween_of_due_le (l : Loan) (hdue : l.due ≤ s) :
    l.interestBetween s t = 0 := by
  rw [Loan.interestBetween, if_neg]
  omega

/-- The time from which late fees are due. -/
def Loan.lateSince (l : Loan) : Nat := max l.lastAccrued (l.due + l.gracePeriod)

/-- The balance that late fees are charged on: with the interest up to the due time. -/
def Loan.lateBalance (l : Loan) : Int := (l.charged l.due).amountDue

theorem Loan.charged_of_due_le (l : Loan) (hdue : l.due ≤ t) :
    (l.charged t).amountDue = l.lateBalance := by
  have hfit : l.ProductFits t = l.ProductFits l.due := by
    rw [← l.productFits_min_due t, min_eq_right hdue]
  have hcum : l.cumulative t = l.cumulative l.due := by
    rw [← l.cumulative_min_due t, min_eq_right hdue]
  simp only [Loan.lateBalance, Loan.charged, Loan.interestBetween, hfit, hcum,
    min_eq_right hdue, min_self]

/-- Rate times seconds times the balance: the fee is its quotient by `wad`. -/
def Loan.feeProduct (l : Loan) (p : PremiumConfig) (secs : Nat) : Int :=
  p.lateRatePerSecWad * secs * l.lateBalance

/-- Every product that the two accruals form fits. -/
structure ProductsFit (l : Loan) (p : PremiumConfig) (s t : Nat) : Prop where
  interest : l.ProductFits t
  fee : 0 < p.lateRatePerSecWad → l.lateSince < s → I128.Fits (l.feeProduct p (t - l.lateSince))
  compounded : 0 < p.lateRatePerSecWad → l.lateSince < s →
    I128.Fits (p.lateRatePerSecWad * (t - s : Nat) *
      (l.lateBalance + l.feeProduct p (s - l.lateSince) / wad))

/-- The fractions of a unit that the two periods leave do not make up a whole one, or the
second period's fee on the first fee makes up for it. -/
def KeepsUnits (l : Loan) (p : PremiumConfig) (s t : Nat) : Prop :=
  0 < p.lateRatePerSecWad → l.lateSince < s →
    l.feeProduct p (s - l.lateSince) % wad + l.feeProduct p (t - s) % wad < wad ∨
      wad ≤ l.feeProduct p (t - s) % wad +
        p.lateRatePerSecWad * (t - s : Nat) * (l.feeProduct p (s - l.lateSince) / wad)

instance (l : Loan) (p : PremiumConfig) (s t : Nat) : Decidable (KeepsUnits l p s t) :=
  inferInstanceAs (Decidable (_ → _ → _))

/-- One quotient against two: the fractions that each drops, and what the second gains. -/
theorem floor_split_le_iff (a b c : Int) (hc : 0 ≤ c) :
    (a + b) / wad ≤ a / wad + (b + c) / wad ↔ a % wad + b % wad < wad ∨ wad ≤ b % wad + c := by
  unfold wad
  omega

/-! ## One accrual in between -/

theorem Loan.Live.feeProduct_nonneg (h : l.Live) (hrate : 0 < p.lateRatePerSecWad) (secs : Nat) :
    0 ≤ l.feeProduct p secs := by
  have hpos : 0 < l.lateBalance := h.charged_pos l.due
  unfold Loan.feeProduct
  positivity

theorem Loan.lateFee_eq {l : Loan} {since now : Nat} (hrate : 0 < p.lateRatePerSecWad)
    (hlate : max since (l.due + l.gracePeriod) < now) (hpos : 0 < l.amountDue)
    (hfit : I128.Fits (p.lateRatePerSecWad * (now - max since (l.due + l.gracePeriod) : Nat) *
      l.amountDue)) :
    l.lateFee p since now =
      p.lateRatePerSecWad * (now - max since (l.due + l.gracePeriod) : Nat) *
        l.amountDue / wad := by
  rw [Loan.lateFee_of_charges ⟨hrate, hlate, hfit⟩]
  exact Int.tdiv_eq_ediv_of_nonneg (by unfold Loan.lateProduct; positivity)

theorem Loan.lateFee_congr {l l' : Loan} {since since' now : Nat} (hdue : l'.due = l.due)
    (hgrace : l'.gracePeriod = l.gracePeriod) (hbalance : l'.amountDue = l.amountDue)
    (hsince : max since' (l.due + l.gracePeriod) = max since (l.due + l.gracePeriod)) :
    l'.lateFee p since' now = l.lateFee p since now := by
  have hproduct : l'.lateProduct p since' now = l.lateProduct p since now := by
    simp only [Loan.lateProduct, hdue, hgrace, hbalance, hsince]
  have hcharges : l'.Charges p since' now ↔ l.Charges p since now := by
    simp only [Loan.Charges, hproduct, hdue, hgrace, hsince]
  by_cases hc : l.Charges p since now
  · rw [Loan.lateFee_of_charges hc, Loan.lateFee_of_charges (hcharges.mpr hc), hproduct]
  · rw [Loan.lateFee_of_not_charges hc, Loan.lateFee_of_not_charges (hcharges.not.mpr hc)]

theorem Loan.accruedTo_of_le (hs : s ≤ l.lastAccrued) : l.accruedTo p s = l := by
  rw [Loan.accruedTo, Loan.owedAt, if_neg (by omega), max_eq_left hs]

/-- Before the late period the accrual in between only splits the interest. -/
theorem Loan.Live.charged_accruedTo (h : l.Live) (hs : l.lastAccrued < s) (hst : s ≤ t)
    (hfit : l.ProductFits t) (hfee : (l.charged s).lateFee p l.lastAccrued s = 0) :
    ((l.accruedTo p s).charged t).amountDue = (l.charged t).amountDue := by
  have howed : l.owedAt p s = (l.charged s).amountDue := by
    rw [Loan.owedAt, if_pos hs, hfee, add_zero]
  have hsplit := h.interestBetween_add hs.le hst hfit
  have hlast : max l.lastAccrued s = s := max_eq_right hs.le
  change l.owedAt p s + l.interestBetween (max l.lastAccrued s) t = _
  rw [howed, hlast]
  simp only [Loan.charged]
  omega

/-- Up to the start of the late period, or without a rate, the accrual in between changes
nothing. -/
theorem Loan.Live.owedAt_accruedTo_early (h : l.Live) (hst : s ≤ t) (hfit : l.ProductFits t)
    (hearly : ¬ (0 < p.lateRatePerSecWad ∧ l.lateSince < s)) :
    (l.accruedTo p s).owedAt p t = l.owedAt p t := by
  rcases Nat.lt_or_ge l.lastAccrued s with hs | hs
  · have hgrace : 0 < p.lateRatePerSecWad → s ≤ l.due + l.gracePeriod := by
      intro hrate
      by_contra hpast
      exact hearly ⟨hrate, max_lt hs (Nat.lt_of_not_le hpast)⟩
    have hnofee : (l.charged s).lateFee p l.lastAccrued s = 0 := by
      by_cases hrate : 0 < p.lateRatePerSecWad
      · exact Loan.lateFee_of_le (hgrace hrate)
      · exact Loan.lateFee_of_not_charges fun hc => hrate hc.1
    have hcharged := h.charged_accruedTo hs hst hfit hnofee
    have hlast : (l.accruedTo p s).lastAccrued = s := max_eq_right hs.le
    rcases hst.eq_or_lt with rfl | hlt
    · rw [Loan.owedAt, hlast, if_neg (lt_irrefl s)]
      rfl
    · have hfee : ((l.accruedTo p s).charged t).lateFee p s t =
          (l.charged t).lateFee p l.lastAccrued t := by
        by_cases hrate : 0 < p.lateRatePerSecWad
        · have hle := hgrace hrate
          exact Loan.lateFee_congr rfl rfl hcharged
            ((max_eq_right hle).trans (max_eq_right (hs.le.trans hle)).symm)
        · rw [Loan.lateFee_of_not_charges fun hc => hrate hc.1,
            Loan.lateFee_of_not_charges fun hc => hrate hc.1]
      rw [Loan.owedAt, Loan.owedAt, hlast, if_pos hlt, if_pos (hs.trans hlt), hcharged, hfee]
  · rw [Loan.accruedTo_of_le hs]

theorem Loan.Live.owedAt_late (h : l.Live) (hrate : 0 < p.lateRatePerSecWad)
    (hlate : l.lateSince < t)
    (hfit : I128.Fits (l.feeProduct p (t - l.lateSince))) :
    l.owedAt p t = l.lateBalance + l.feeProduct p (t - l.lateSince) / wad := by
  have hlast : l.lastAccrued < t := (le_max_left _ _).trans_lt hlate
  have hgrace : l.due + l.gracePeriod < t := (le_max_right _ _).trans_lt hlate
  have hbalance := l.charged_of_due_le (show l.due ≤ t by omega)
  rw [Loan.owedAt, if_pos hlast, Loan.lateFee_eq (l := l.charged t) hrate hlate (h.charged_pos t)]
  · rw [hbalance]
    rfl
  · rw [hbalance]
    exact hfit

theorem Loan.Live.feeProduct_mono (h : l.Live) (hrate : 0 < p.lateRatePerSecWad) {u v : Nat}
    (huv : u ≤ v) : l.feeProduct p u ≤ l.feeProduct p v := by
  have hpos : 0 < l.lateBalance := h.charged_pos l.due
  unfold Loan.feeProduct
  gcongr

theorem Loan.Live.owedAt_accruedTo_late (h : l.Live) (hst : s ≤ t) (hfits : ProductsFit l p s t)
    (hrate : 0 < p.lateRatePerSecWad) (hlate : l.lateSince < s) :
    (l.accruedTo p s).owedAt p t = l.lateBalance + l.feeProduct p (s - l.lateSince) / wad +
      (l.feeProduct p (t - s) +
        p.lateRatePerSecWad * (t - s : Nat) * (l.feeProduct p (s - l.lateSince) / wad)) / wad := by
  have hlast : l.lastAccrued < s := (le_max_left _ _).trans_lt hlate
  have hgrace : l.due + l.gracePeriod < s := (le_max_right _ _).trans_lt hlate
  have hfirst : l.owedAt p s = l.lateBalance + l.feeProduct p (s - l.lateSince) / wad :=
    h.owedAt_late hrate hlate (I128.Fits.of_le (h.feeProduct_nonneg hrate _)
      (h.feeProduct_mono hrate (by omega)) (hfits.fee hrate hlate))
  have hlast' : (l.accruedTo p s).lastAccrued = s := max_eq_right hlast.le
  have hproduct : l.feeProduct p (t - s) +
      p.lateRatePerSecWad * (t - s : Nat) * (l.feeProduct p (s - l.lateSince) / wad) =
        p.lateRatePerSecWad * (t - s : Nat) *
          (l.lateBalance + l.feeProduct p (s - l.lateSince) / wad) := by
    simp only [Loan.feeProduct]
    ring
  rw [hproduct, Loan.owedAt, hlast']
  rcases hst.eq_or_lt with rfl | hlt
  · rw [if_neg (lt_irrefl s), Nat.sub_self, Nat.cast_zero, mul_zero, zero_mul,
      Int.zero_ediv, add_zero]
    exact hfirst
  · have hbalance : ((l.accruedTo p s).charged t).amountDue =
        l.lateBalance + l.feeProduct p (s - l.lateSince) / wad := by
      change l.owedAt p s + l.interestBetween (l.accruedTo p s).lastAccrued t = _
      rw [hlast', l.interestBetween_of_due_le (by omega), add_zero, hfirst]
    have hsince : max s (((l.accruedTo p s).charged t).due +
        ((l.accruedTo p s).charged t).gracePeriod) = s :=
      max_eq_left hgrace.le
    have hpos : 0 < l.lateBalance + l.feeProduct p (s - l.lateSince) / wad := by
      have hbase : 0 < l.lateBalance := h.charged_pos l.due
      have hnn :=
        Int.ediv_nonneg (h.feeProduct_nonneg hrate (s - l.lateSince)) (show 0 ≤ wad by decide)
      omega
    rw [if_pos hlt, Loan.lateFee_eq hrate (by rw [hsince]; exact hlt) (by rw [hbalance]; exact hpos)
      (by rw [hsince, hbalance]; exact hfits.compounded hrate hlate), hsince, hbalance]

theorem Loan.Live.owedAt_le_iff (h : l.Live) (hst : s ≤ t) (hfits : ProductsFit l p s t) :
    l.owedAt p t ≤ (l.accruedTo p s).owedAt p t ↔ KeepsUnits l p s t := by
  by_cases hlate : 0 < p.lateRatePerSecWad ∧ l.lateSince < s
  · have hwithout := h.owedAt_late hlate.1 (hlate.2.trans_le hst) (hfits.fee hlate.1 hlate.2)
    have hwith := h.owedAt_accruedTo_late hst hfits hlate.1 hlate.2
    have hsum : l.feeProduct p (t - l.lateSince) =
        l.feeProduct p (s - l.lateSince) + l.feeProduct p (t - s) := by
      have hsecs : t - l.lateSince = (s - l.lateSince) + (t - s) := by omega
      simp only [Loan.feeProduct, hsecs]
      push_cast
      ring
    have hfee : 0 ≤ p.lateRatePerSecWad * (t - s : Nat) *
        (l.feeProduct p (s - l.lateSince) / wad) := by
      have hnn :=
        Int.ediv_nonneg (h.feeProduct_nonneg hlate.1 (s - l.lateSince)) (show 0 ≤ wad by decide)
      have hrate := hlate.1
      positivity
    have hsplit :=
      floor_split_le_iff (l.feeProduct p (s - l.lateSince)) (l.feeProduct p (t - s)) _ hfee
    rw [hwithout, hwith, hsum, add_assoc, Int.add_le_add_iff_left, hsplit]
    exact ⟨fun hkeeps _ _ => hkeeps, fun hkeeps => hkeeps hlate.1 hlate.2⟩
  · rw [h.owedAt_accruedTo_early hst hfits.interest hlate]
    exact iff_of_true le_rfl fun hrate hsince => absurd ⟨hrate, hsince⟩ hlate

/-! ## Accruals in a run -/

/-- An accrual of `b`'s loan no later than `t` that loses no unit of what is owed then. -/
structure AccruesWhole (b : Address) (t : Nat) (c : Clocked State)
    (label : Call × (List Event × Ret)) :
    Prop where
  call : label.1.2 = .accrueLate b
  before : label.1.time ≤ t
  fits : ProductsFit (c.state.readLoan b) (c.state.readPremium b) label.1.time t
  keeps : KeepsUnits (c.state.readLoan b) (c.state.readPremium b) label.1.time t

theorem Step.accrueLate_ok {c c' : Clocked State} {label : Call × (List Event × Ret)} {b : Address}
    (h : Step c label c') (hop : label.1.2 = .accrueLate b) :
    ∃ o, accrueLate label.1.1 c.state b = .ok o ∧ o.state = c'.state := by
  rcases h.exec_ok with ⟨o, ho, hstate⟩
  rw [hop] at ho
  rcases map_eq_ok.mp ho with ⟨o', ho', rfl⟩
  exact ⟨o', ho', hstate⟩

theorem run_owedAt_le {c c' : Clocked State} {labels : List (Call × (List Event × Ret))}
    {b : Address}
    (hsound : c.state.Sound c.now) (hactive : (c.state.readLoan b).active = true)
    (run : Run (fun u label v => Step u label v ∧ AccruesWhole b t u label) c labels c') :
    c'.state.Sound c'.now ∧ (c'.state.readLoan b).active = true ∧
      c'.state.readPremium b = c.state.readPremium b ∧
      (c.state.readLoan b).owedAt (c.state.readPremium b) t ≤
        (c'.state.readLoan b).owedAt (c.state.readPremium b) t := by
  induction run with
  | nil => exact ⟨hsound, hactive, rfl, le_rfl⟩
  | @snoc u v before label _ hstep ih =>
      rcases ih with ⟨hsound', hactive', hpremium, hle⟩
      rcases hstep with ⟨hstep, hwhole⟩
      have hlive := (hsound'.loans b).live hactive'
      rcases hstep.accrueLate_ok hwhole.call with ⟨o, ho, hstate⟩
      rcases accrueLate_reads hlive hactive' ho with ⟨hread, -, hpremium'⟩
      rw [hstate] at hread hpremium'
      have hnext := (hlive.owedAt_le_iff hwhole.before hwhole.fits).mpr hwhole.keeps
      refine ⟨hstep.sound hsound', by rw [hread]; exact hactive', hpremium'.trans hpremium, ?_⟩
      rw [hpremium] at hnext hread
      rw [hread]
      exact hle.trans hnext

/-- An accrual at `s` leaves the preview at `t` no lower exactly when no unit is lost, and
a run of such accruals never lowers it. -/
theorem accrueLate_never_cheaper {c : Clocked State} {b : Address} {e : Env} (hreach : Reachable c)
    (hactive : (c.state.readLoan b).active = true) :
    (∀ eₛ o owed owed', eₛ.timestamp ≤ e.timestamp →
      ProductsFit (c.state.readLoan b) (c.state.readPremium b) eₛ.timestamp e.timestamp →
      accrueLate eₛ c.state b = .ok o → previewOwed e c.state b = .ok owed →
      previewOwed e o.state b = .ok owed' →
        (owed ≤ owed' ↔
          KeepsUnits (c.state.readLoan b) (c.state.readPremium b) eₛ.timestamp e.timestamp)) ∧
    ∀ labels c' owed owed',
      Run (fun u label v => Step u label v ∧ AccruesWhole b e.timestamp u label) c labels c' →
      previewOwed e c.state b = .ok owed → previewOwed e c'.state b = .ok owed' → owed ≤ owed' := by
  have hlive := (hreach.sound.loans b).live hactive
  constructor
  · intro eₛ o owed owed' hst hfits hcall howed howed'
    rcases accrueLate_reads hlive hactive hcall with ⟨hread, hlive', hpremium⟩
    rw [previewOwed_eq hlive hactive howed,
      previewOwed_eq hlive' (by rw [hread]; exact hactive) howed', hread, hpremium]
    exact hlive.owedAt_le_iff hst hfits
  · intro labels c' owed owed' run howed howed'
    rcases run_owedAt_le hreach.sound hactive run with ⟨hsound, hactive', hpremium, hle⟩
    rw [previewOwed_eq hlive hactive howed,
      previewOwed_eq ((hsound.loans b).live hactive') hactive' howed',
      hpremium]
    exact hle

/-! ## Five seconds at a time -/

/-- A loan of ten units at a late rate of a tenth of a percent a day. -/
def lateCalls : List Call :=
  lateRateCalls 86400 ++ [(.signedBy ⟨1⟩ 1000, .setPremiumConfig ⟨3⟩ 0 11574074074)]

def lateState : Clocked State :=
  (Clocked.run? Call.time Call.exec ⟨1000, construct ⟨1⟩ ⟨2⟩⟩ lateCalls).getD
    ⟨1000, construct ⟨1⟩ ⟨2⟩⟩

theorem lateState_reachable : Reachable lateState :=
  reachable_of_run? ⟨1⟩ ⟨2⟩ 1000 lateCalls rfl

/-- An accrual a day into the late period raises what is owed a day later. -/
theorem accrueLate_never_cheaper_daily :
    ∃ o owed owed', accrueLate (.signedBy ⟨3⟩ 778600) lateState.state ⟨3⟩ = .ok o ∧
      previewOwed (.signedBy ⟨3⟩ 865000) lateState.state ⟨3⟩ = .ok owed ∧
      previewOwed (.signedBy ⟨3⟩ 865000) o.state ⟨3⟩ = .ok owed' ∧ owed ≤ owed' := by
  have hrun : ∃ o, accrueLate (.signedBy ⟨3⟩ 778600) lateState.state ⟨3⟩ = .ok o ∧
      previewOwed (.signedBy ⟨3⟩ 865000) lateState.state ⟨3⟩ = .ok 10520999 ∧
      previewOwed (.signedBy ⟨3⟩ 865000) o.state ⟨3⟩ = .ok 10521009 := by decide
  rcases hrun with ⟨o, ho, howed, howed'⟩
  have hfits : ProductsFit (lateState.state.readLoan ⟨3⟩)
      (lateState.state.readPremium ⟨3⟩) 778600 865000 :=
    ⟨by decide, fun _ _ => by decide, fun _ _ => by decide⟩
  exact ⟨o, _, _, ho, howed, howed',
    ((accrueLate_never_cheaper (e := .signedBy ⟨3⟩ 865000) lateState_reachable (by decide)).1
      (.signedBy ⟨3⟩ 778600) o _ _ (by decide) hfits ho howed howed').mpr (by decide)⟩

/-- An accrual five seconds into the late period rounds the fee of these seconds away,
and again that of the next five. -/
theorem accrueLate_cheaper :
    ∃ (c : Clocked State) (eₛ eₜ : Env) (b : Address) (o : Outcome State Unit) (owed owed' : Int),
      Reachable c ∧ (c.state.readLoan b).active = true ∧ c.now ≤ eₛ.timestamp ∧
      eₛ.timestamp ≤ eₜ.timestamp ∧
      ProductsFit (c.state.readLoan b) (c.state.readPremium b) eₛ.timestamp eₜ.timestamp ∧
      accrueLate eₛ c.state b = .ok o ∧ previewOwed eₜ c.state b = .ok owed ∧
      previewOwed eₜ o.state b = .ok owed' ∧ owed' < owed := by
  have hrun : ∃ o, accrueLate (.signedBy ⟨3⟩ 692205) lateState.state ⟨3⟩ = .ok o ∧
      previewOwed (.signedBy ⟨3⟩ 692210) lateState.state ⟨3⟩ = .ok 10500001 ∧
      previewOwed (.signedBy ⟨3⟩ 692210) o.state ⟨3⟩ = .ok 10500000 := by decide
  rcases hrun with ⟨o, ho, howed, howed'⟩
  exact ⟨lateState, .signedBy ⟨3⟩ 692205, .signedBy ⟨3⟩ 692210, ⟨3⟩, o, _, _, lateState_reachable,
    by decide, by decide, by decide, ⟨by decide, fun _ _ => by decide, fun _ _ => by decide⟩, ho,
    howed, howed', by decide⟩

end Lendoor.LoanManager
