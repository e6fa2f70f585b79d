import Lendoor.LoanManager.Repayment

/-! # Accrual before the late period

Up to the end of grace an unpaid loan owes its principal plus the larger of the
opening charge and the cumulative pro-rata interest, whatever calls happened in
between: every accrual adds a difference of the same cumulative formula, and the
opening charge is that formula at the first anchor.
-/

namespace Lendoor.LoanManager

/-! ## The opening charge is a cumulative amount -/

/-- `floor(P * F * elapsed / (10000 * T * 86400))`. -/
def prorata (principal : Int) (feeBps tenorDays elapsed : Nat) : Int :=
  principal * feeBps * elapsed / (bpsDenom * (tenorDays * secondsPerDay : Nat))

section Prorata

variable {principal : Int} {feeBps tenorDays : Nat}

theorem prorata_denominator_pos (ht : 1 ≤ tenorDays) :
    0 < bpsDenom * (tenorDays * secondsPerDay : Nat) := by
  unfold bpsDenom secondsPerDay
  omega

theorem prorata_mono (hp : 0 < principal) (ht : 1 ≤ tenorDays) {x y : Nat} (hxy : x ≤ y) :
    prorata principal feeBps tenorDays x ≤ prorata principal feeBps tenorDays y := by
  refine Int.ediv_le_ediv (prorata_denominator_pos ht) ?_
  gcongr

/-- One day of interest: the nested floors of the opening collapse to one. -/
theorem prorata_day (principal : Int) (feeBps tenorDays : Nat) :
    prorata principal feeBps tenorDays secondsPerDay =
      principal * feeBps / bpsDenom / tenorDays := by
  rw [Int.ediv_ediv_of_nonneg (by decide), prorata]
  push_cast
  rw [← mul_assoc]
  exact Int.mul_ediv_mul_of_pos_left _ _ (by decide)

theorem prorata_tenor (ht : 1 ≤ tenorDays) :
    prorata principal feeBps tenorDays (tenorDays * secondsPerDay) =
      principal * feeBps / bpsDenom := by
  refine Int.mul_ediv_mul_of_pos_left _ _ ?_
  unfold secondsPerDay
  omega

theorem firstDay_eq_prorata (principal : Int) (feeBps tenorDays : Nat) :
    firstDay principal tenorDays feeBps =
      if 0 < prorata principal feeBps tenorDays secondsPerDay then
        prorata principal feeBps tenorDays secondsPerDay
      else principal * feeBps / bpsDenom := by
  rw [prorata_day]
  rfl

end Prorata

/-! ## What an unpaid loan owes -/

/-- Principal, start, tenor, fee and grace of an opened loan. -/
structure Terms where
  principal : Int
  start : Nat
  tenorDays : Nat
  feeBps : Nat
  gracePeriod : Nat

namespace Terms

def due (k : Terms) : Nat := k.start + k.tenorDays * secondsPerDay

/-- Cumulative interest at `t`, capped at the due time. -/
def cum (k : Terms) (t : Nat) : Int :=
  prorata k.principal k.feeBps k.tenorDays (min t k.due - k.start)

/-- Interest owed at `t` before any late fee. -/
def interest (k : Terms) (t : Nat) : Int :=
  max (firstDay k.principal k.tenorDays k.feeBps) (k.cum t)

def anchor (k : Terms) : Nat := firstAnchor k.start k.principal k.tenorDays k.feeBps

structure Valid (k : Terms) : Prop where
  principal_pos : 0 < k.principal
  tenor_pos : 1 ≤ k.tenorDays
  fee_pos : 1 ≤ k.feeBps
  due_fits : U64.Fits k.due
  product_fits : I128.Fits (k.principal * k.feeBps * (k.tenorDays * secondsPerDay : Nat))

theorem Valid.cum_mono {k : Terms} (h : k.Valid) {t u : Nat} (htu : t ≤ u) : k.cum t ≤ k.cum u :=
  prorata_mono h.principal_pos h.tenor_pos (by omega)

theorem Valid.cum_of_due_le {k : Terms} (h : k.Valid) {t : Nat} (ht : k.due ≤ t) :
    k.cum t = k.principal * k.feeBps / bpsDenom := by
  rw [cum, min_eq_right ht]
  simp only [due, Nat.add_sub_cancel_left]
  exact prorata_tenor h.tenor_pos

theorem Valid.cum_anchor {k : Terms} (h : k.Valid) :
    k.cum k.anchor = firstDay k.principal k.tenorDays k.feeBps := by
  by_cases hf : 0 < k.principal * k.feeBps / bpsDenom / k.tenorDays
  · have hday : min (k.start + secondsPerDay) k.due - k.start = secondsPerDay := by
      have := h.tenor_pos
      unfold due secondsPerDay
      omega
    rw [anchor, firstAnchor, if_pos hf, firstDay, if_pos hf, cum, hday, prorata_day]
  · rw [anchor, firstAnchor, if_neg hf, firstDay, if_neg hf]
    exact h.cum_of_due_le le_rfl

theorem start_lt_anchor {k : Terms} (h : k.Valid) : k.start < k.anchor := by
  have := h.tenor_pos
  unfold anchor firstAnchor secondsPerDay
  split <;> omega

theorem Valid.interest_of_le_anchor {k : Terms} (h : k.Valid) {t : Nat} (ht : t ≤ k.anchor) :
    k.interest t = firstDay k.principal k.tenorDays k.feeBps := by
  rw [interest, max_eq_left]
  exact h.cum_anchor ▸ h.cum_mono ht

/-- From the anchor on the cumulative amount is what is owed. -/
theorem Valid.interest_of_anchor_le {k : Terms} (h : k.Valid) {t : Nat} (ht : k.anchor ≤ t) :
    k.interest t = k.cum t := by
  rw [interest, max_eq_right]
  exact h.cum_anchor ▸ h.cum_mono ht

theorem Valid.interest_le_fee {k : Terms} (h : k.Valid) (t : Nat) :
    k.interest t ≤ k.principal * k.feeBps / bpsDenom := by
  have hcap : ∀ u, k.cum u ≤ k.principal * k.feeBps / bpsDenom := fun u =>
    h.cum_of_due_le (le_max_right u k.due) ▸ h.cum_mono (le_max_left u k.due)
  exact max_le (h.cum_anchor ▸ hcap _) (hcap t)

/-- Principal and the whole fee fit together, so every pre-late balance does. -/
theorem Valid.balance_fits {k : Terms} (h : k.Valid) (t : Nat) :
    I128.Fits (k.principal + k.interest t) := by
  have hp := h.principal_pos
  have hf : (1 : Int) ≤ k.feeBps := by exact_mod_cast h.fee_pos
  have hT : (2 : Int) ≤ (k.tenorDays * secondsPerDay : Nat) := by
    have := h.tenor_pos
    unfold secondsPerDay
    omega
  have hint : 0 ≤ k.interest t :=
    (firstDay_nonneg hp k.tenorDays k.feeBps).trans (le_max_left _ _)
  have hfee := h.interest_le_fee t
  have hpf : k.principal ≤ k.principal * k.feeBps := le_mul_of_one_le_right hp.le hf
  have hdiv : k.principal * k.feeBps / bpsDenom ≤ k.principal * k.feeBps :=
    Int.ediv_le_self _ (by positivity)
  refine I128.Fits.of_le (by omega) ?_ h.product_fits
  calc k.principal + k.interest t ≤ k.principal * k.feeBps * 2 := by omega
    _ ≤ k.principal * k.feeBps * (k.tenorDays * secondsPerDay : Nat) :=
        mul_le_mul_of_nonneg_left hT (by positivity)

end Terms

/-! ## The invariant of an unpaid loan -/

/-- The record of a loan under the terms `k`, accrued up to its anchor and not
touched by any payment. -/
structure Tracks (k : Terms) (now : Nat) (l : Loan) : Prop where
  active : l.active = true
  principal : l.principal = k.principal
  start : l.start = k.start
  due : l.due = k.due
  feeBps : l.feeBps = k.feeBps
  gracePeriod : l.gracePeriod = k.gracePeriod
  tenorDays : l.tenorDays = k.tenorDays
  amountDue : l.amountDue = k.principal + k.interest l.lastAccrued
  anchor_le : k.anchor ≤ l.lastAccrued
  lastAccrued_le : l.lastAccrued ≤ max k.anchor now

theorem Tracks.later {k : Terms} {now later : Nat} {l : Loan} (h : Tracks k now l)
    (hle : now ≤ later) : Tracks k later l :=
  { h with lastAccrued_le := h.lastAccrued_le.trans (max_le_max_left _ hle) }

theorem Tracks.live {k : Terms} {now : Nat} {l : Loan} (hk : k.Valid) (h : Tracks k now l) :
    l.Live := by
  have hnn := firstDay_nonneg hk.principal_pos k.tenorDays k.feeBps
  have hint : 0 ≤ k.interest l.lastAccrued := hnn.trans (le_max_left _ _)
  have hanchor := Terms.start_lt_anchor hk
  have hle := h.anchor_le
  refine ⟨by rw [h.principal]; exact hk.principal_pos, by rw [h.principal, h.amountDue]; omega,
    by rw [h.tenorDays]; exact hk.tenor_pos, by rw [h.feeBps]; exact hk.fee_pos,
    by rw [h.due, h.start, h.tenorDays]; rfl, by rw [h.due]; exact hk.due_fits,
    by rw [h.start]; omega⟩

theorem Tracks.cumulative_eq {k : Terms} {now : Nat} {l : Loan} (h : Tracks k now l) (t : Nat) :
    l.cumulative t = k.cum t := by
  simp only [Loan.cumulative, Loan.elapsed, Loan.denominator, Loan.tenorSecs, h.principal, h.feeBps,
    h.tenorDays, h.due, h.start, Terms.cum, prorata]

theorem Tracks.productFits {k : Terms} {now : Nat} {l : Loan} (hk : k.Valid) (h : Tracks k now l)
    (t : Nat) : l.ProductFits t := by
  have hp := hk.principal_pos
  have hel : l.elapsed t ≤ k.tenorDays * secondsPerDay := by
    rw [Loan.elapsed, h.due, h.start, Terms.due]
    omega
  refine I128.Fits.of_le ((h.live hk).product_nonneg t) ?_ hk.product_fits
  rw [h.principal, h.feeBps]
  gcongr

theorem Tracks.charged_eq {k : Terms} {now t : Nat} {l : Loan} (hk : k.Valid) (h : Tracks k now l)
    (ht : l.lastAccrued < t) : (l.charged t).amountDue = k.principal + k.interest t := by
  have hle := h.anchor_le
  simp only [Loan.charged, h.amountDue, hk.interest_of_anchor_le hle,
    hk.interest_of_anchor_le (hle.trans ht.le), Loan.interestBetween, h.cumulative_eq, h.due]
  by_cases hto : l.lastAccrued < min t k.due
  · rw [if_pos ⟨hto, h.productFits hk t⟩]
    omega
  · -- past the due time both cumulative amounts are the whole fee
    rw [if_neg (fun hc => hto hc.1), hk.cum_of_due_le (t := l.lastAccrued) (by omega),
      hk.cum_of_due_le (t := t) (by omega)]
    omega

/-- Accrual of an unpaid loan at a time up to the end of grace: the balance owed
at that time, or a trap when the end of grace is not representable. -/
theorem Tracks.accruedInMemory_eq {k : Terms} {now : Nat} {l : Loan} {e : Env} {p : PremiumConfig}
    (hk : k.Valid) (h : Tracks k now l) (hclock : now ≤ e.timestamp)
    (hgrace : e.timestamp ≤ k.due + k.gracePeriod) :
    accruedInMemory e l p =
      if p.lateRatePerSecWad > 0 ∧ l.lastAccrued < e.timestamp ∧
          ¬ U64.Fits (l.due + l.gracePeriod) then .error .trap
      else .ok { l with amountDue := k.principal + k.interest e.timestamp } := by
  have hlive := h.live hk
  by_cases hlt : l.lastAccrued < e.timestamp
  · have hcharged := h.charged_eq hk hlt
    have hfit : I128.Fits (l.charged e.timestamp).amountDue := hcharged ▸ hk.balance_fits _
    have hnofee : (l.charged e.timestamp).lateFee p l.lastAccrued e.timestamp = 0 := by
      refine Loan.lateFee_of_le ?_
      simp only [Loan.charged, h.due, h.gracePeriod]
      exact hgrace
    have hpos : 0 < (l.charged e.timestamp).amountDue := by
      have := hlive.amountDue_pos
      have := hlive.interestBetween_nonneg l.lastAccrued e.timestamp
      simp only [Loan.charged]
      omega
    rw [hlive.accruedInMemory_eq h.active hlt hfit]
    split
    · rename_i hc
      exact accrueLateFee_trap hc.1 hc.2.2
    · rename_i hc
      rw [accrueLateFee_eq hpos (fun hrate => by_contra fun hf => hc ⟨hrate, hlt, hf⟩)
        (by rw [hnofee, add_zero]; exact hfit), hnofee, add_zero, hcharged]
      rfl
  · -- nothing to accrue: either the time is still before the opening anchor, or it is the anchor
    have hsame : k.interest e.timestamp = k.interest l.lastAccrued := by
      have hle := h.anchor_le
      have hlast := h.lastAccrued_le
      rcases Nat.lt_or_ge e.timestamp k.anchor with hbefore | hafter
      · rw [hk.interest_of_le_anchor hbefore.le, hk.interest_of_le_anchor (by omega)]
      · rw [show e.timestamp = l.lastAccrued by omega]
    rw [if_neg (fun hc => hlt hc.2.1), hsame, ← h.amountDue]
    exact accruedInMemory_of_le (by rw [hlive.accruedUntil_eq]; omega)

/-! ## Runs without a payment -/

/-- The call is no payment on `b`'s loan. -/
def Op.SparesLoan (b : Address) (op : Op) : Prop :=
  ∀ paid, op ≠ .closeLoan b paid ∧ op ≠ .applyPayment b paid

/-- Up to the end of grace, any call but a payment leaves an active loan or accrues it. -/
theorem Effect.kept_or_accrued {e : Env} {s s' : State} {op : Op} {b : Address}
    (h : Effect e s op s') (hspares : op.SparesLoan b) (hactive : (s.readLoan b).active = true)
    (hgrace : e.timestamp ≤ (s.readLoan b).due + (s.readLoan b).gracePeriod) :
    s'.readLoan b = s.readLoan b ∨
      ∃ acc, accruedInMemory e (s.readLoan b) (s.readPremium b) = .ok acc ∧
        s'.readLoan b = acc.advance e.timestamp := by
  cases h with
  | frame hloan => exact .inl (by rw [State.readLoan, hloan]; rfl)
  | @opened c _ _ _ l _ _ _ _ hinactive =>
      have hne : b ≠ c := by
        rintro rfl
        rw [hactive] at hinactive
        cases hinactive
      exact .inl (by rw [State.readLoan_writeLoan, if_neg hne]; rfl)
  | @accrued c acc _ hacc =>
      by_cases hbc : b = c
      · subst hbc
        exact .inr ⟨acc, hacc, State.readLoan_writeLoan_self _ _ _⟩
      · exact .inl (by rw [State.readLoan_writeLoan, if_neg hbc])
  | @closed _ c acc paid hcall =>
      have hne : b ≠ c := by
        rintro rfl
        rcases hcall with hclose | hpay
        · exact (hspares paid).1 hclose
        · exact (hspares paid).2 hpay
      exact .inl (by rw [closedState, State.readLoan_writeLoan, if_neg hne]; rfl)
  | @reduced c acc paid =>
      have hne : b ≠ c := by
        rintro rfl
        exact (hspares paid).2 rfl
      exact .inl (by rw [State.readLoan_writeLoan, if_neg hne])
  | @defaulted c _ _ _ hlate =>
      have hne : b ≠ c := by
        rintro rfl
        omega
      exact .inl (by rw [defaultedState_readLoan, if_neg hne])

theorem Effect.tracks {e : Env} {s s' : State} {op : Op} {k : Terms} {b : Address} {now : Nat}
    (h : Effect e s op s') (hk : k.Valid) (hspares : op.SparesLoan b)
    (htracks : Tracks k now (s.readLoan b)) (hclock : now ≤ e.timestamp)
    (hgrace : e.timestamp ≤ k.due + k.gracePeriod) : Tracks k e.timestamp (s'.readLoan b) := by
  have hloangrace : e.timestamp ≤ (s.readLoan b).due + (s.readLoan b).gracePeriod := by
    rw [htracks.due, htracks.gracePeriod]
    exact hgrace
  rcases h.kept_or_accrued hspares htracks.active hloangrace with hkept | ⟨acc, hacc, hread⟩
  · rw [hkept]
    exact htracks.later hclock
  · rw [htracks.accruedInMemory_eq hk hclock hgrace] at hacc
    split at hacc
    · cases hacc
    · cases hacc
      rw [hread, Loan.advance_eq]
      have hanchor := htracks.anchor_le
      have hlast := htracks.lastAccrued_le
      refine ⟨htracks.active, htracks.principal, htracks.start, htracks.due, htracks.feeBps,
        htracks.gracePeriod, htracks.tenorDays, ?_, by simp only; omega, by simp only; omega⟩
      -- the anchor moved to the accrual time, or stayed at the opening anchor beyond it
      rcases Nat.lt_or_ge e.timestamp k.anchor with hbefore | hafter
      · rw [hk.interest_of_le_anchor hbefore.le, hk.interest_of_le_anchor]
        simp only
        omega
      · rw [show max (s.readLoan b).lastAccrued e.timestamp = e.timestamp by omega]

theorem openLoan_tracks {e : Env} {s : State} {b : Address} {principal : Int}
    {tenorDays feeBps : Nat} {o : Outcome State Unit}
    (h : openLoan e s b principal tenorDays feeBps = .ok o) (hf : 1 ≤ feeBps) (ht : 1 ≤ tenorDays)
    (hfit : I128.Fits (principal * feeBps * (tenorDays * secondsPerDay : Nat))) :
    let k : Terms := ⟨principal, e.timestamp, tenorDays, feeBps, s.config.defaultGracePeriod⟩
    k.Valid ∧ Tracks k e.timestamp (o.state.readLoan b) := by
  intro k
  rcases openLoan_spec h with ⟨_, hpos, _, _, _, _, l, hl, hstate, _⟩
  rcases openedLoan_spec hpos ht hl with ⟨hdue, rfl⟩
  have hk : k.Valid := ⟨hpos, ht, hf, hdue, hfit⟩
  refine ⟨hk, ?_⟩
  rw [hstate, State.readLoan_writeLoan_self]
  refine ⟨rfl, rfl, rfl, rfl, rfl, rfl, rfl, ?_, le_refl _, le_max_left _ _⟩
  rw [hk.interest_of_le_anchor (t := firstAnchor _ _ _ _) le_rfl]

theorem run_tracks {c₀ c : Clocked State} {labels : List (Call × (List Event × Ret))}
    {k : Terms} {b : Address} (hk : k.Valid)
    (run : Run (fun s label t => Step s label t ∧ label.1.2.SparesLoan b) c₀ labels c)
    (hstart : Tracks k c₀.now (c₀.state.readLoan b)) (hgrace : c.now ≤ k.due + k.gracePeriod) :
    Tracks k c.now (c.state.readLoan b) := by
  refine run.invariant (P := fun c => c.now ≤ k.due + k.gracePeriod →
    Tracks k c.now (c.state.readLoan b)) ?_ (fun _ => hstart) hgrace
  rintro s ⟨⟨e, op⟩, ret⟩ t ih ⟨hstep, hspares⟩ hnow
  have hclock := hstep.clock
  rcases hstep.exec_ok with ⟨o, ho, hstate⟩
  rw [hstep.now_eq] at hnow ⊢
  rw [← hstate]
  exact (exec_effect ho).tracks hk hspares (ih (hclock.trans hnow)) hclock hnow

/-! ## The previewed balance -/

/-- Balance of an unpaid loan at `t`, computed from its terms alone. -/
def preLateOwed (principal : Int) (start tenorDays feeBps t : Nat) : Int :=
  principal + max
    (if 0 < prorata principal feeBps tenorDays secondsPerDay then
      prorata principal feeBps tenorDays secondsPerDay
    else principal * feeBps / bpsDenom)
    (prorata principal feeBps tenorDays (min t (start + tenorDays * secondsPerDay) - start))

/-- After any calls but payments on the loan, at any time up to the end of grace,
`preview_owed` is the balance computed from the terms alone, exactly when the end
of grace is representable where accrual computes it. From the due time on that
balance is the principal and the whole fee. -/
theorem previewOwed_preLate_iff {e₀ e : Env} {s₀ : State} {b : Address} {principal : Int}
    {tenorDays feeBps : Nat} {o : Outcome State Unit} {c : Clocked State}
    {labels : List (Call × (List Event × Ret))}
    (hopen : openLoan e₀ s₀ b principal tenorDays feeBps = .ok o) (hf : 1 ≤ feeBps)
    (ht : 1 ≤ tenorDays)
    (hfit : I128.Fits (principal * feeBps * (tenorDays * secondsPerDay : Nat)))
    (run : Run (fun s label t => Step s label t ∧ label.1.2.SparesLoan b)
      ⟨e₀.timestamp, o.state⟩ labels c)
    (hclock : c.now ≤ e.timestamp)
    (hgrace : e.timestamp ≤
      e₀.timestamp + tenorDays * secondsPerDay + s₀.config.defaultGracePeriod) :
    (previewOwed e c.state b =
        .ok (preLateOwed principal e₀.timestamp tenorDays feeBps e.timestamp) ↔
      GraceEndFits e c.state b) ∧
    (e₀.timestamp + tenorDays * secondsPerDay ≤ e.timestamp →
      preLateOwed principal e₀.timestamp tenorDays feeBps e.timestamp =
        principal + principal * feeBps / bpsDenom) := by
  rcases openLoan_tracks hopen hf ht hfit with ⟨hk, hstart⟩
  have htracks := run_tracks hk run hstart (hclock.trans hgrace)
  have hacc := htracks.accruedInMemory_eq (p := c.state.readPremium b) hk hclock hgrace
  have howed : preLateOwed principal e₀.timestamp tenorDays feeBps e.timestamp =
      principal + Terms.interest ⟨principal, e₀.timestamp, tenorDays, feeBps,
        s₀.config.defaultGracePeriod⟩ e.timestamp := by
    rw [preLateOwed, ← firstDay_eq_prorata]
    rfl
  constructor
  · rw [previewOwed, hacc]
    constructor
    · intro hok hrate hlt
      by_contra hfits
      rw [if_pos ⟨hrate, hlt, hfits⟩] at hok
      cases hok
    · intro hgraceEnd
      rw [if_neg (fun hc => hc.2.2 (hgraceEnd hc.1 hc.2.1)), howed]
      rfl
  · intro hdue
    have hanchor : firstAnchor e₀.timestamp principal tenorDays feeBps ≤ e.timestamp := by
      unfold firstAnchor secondsPerDay
      unfold secondsPerDay at hdue
      split <;> omega
    rw [howed, hk.interest_of_anchor_le hanchor, hk.cum_of_due_le hdue]

/-- Three accruals by strangers between opening and due time. -/
def accrualCalls : List Call :=
  [(.signedBy ⟨4⟩ 50000, .accrueLate ⟨3⟩), (.signedBy ⟨5⟩ 90000, .accrueLate ⟨3⟩),
    (.signedBy ⟨4⟩ 300000, .accrueLate ⟨3⟩)]

theorem accrualCalls_spareLoan {labels : List (Call × (List Event × Ret))} (b : Address)
    (h : labels.map Prod.fst = accrualCalls) : ∀ label ∈ labels, label.1.2.SparesLoan b := by
  refine forall_label_of_calls h (P := fun c => c.2.SparesLoan b) ?_
  simp [accrualCalls, Op.SparesLoan]

/-- Ten units at five percent owe ten and a half inside the grace period, after
three accruals by strangers. -/
theorem previewOwed_preLate_iff_accruals :
    ∃ o c labels,
      openLoan (.signedBy ⟨2⟩ 1000) (lateRateOffered 86400) ⟨3⟩ 10000000 7 500 = .ok o ∧
      Run (fun s label t => Step s label t ∧ label.1.2.SparesLoan ⟨3⟩) ⟨1000, o.state⟩ labels c ∧
      labels.map Prod.fst = accrualCalls ∧
      previewOwed (.signedBy ⟨3⟩ 650000) c.state ⟨3⟩ = .ok (10000000 + 500000) := by
  have hrun : ∃ o, openLoan (.signedBy ⟨2⟩ 1000) (lateRateOffered 86400) ⟨3⟩ 10000000 7 500 =
      .ok o ∧
      ∃ c, Clocked.run? Call.time Call.exec ⟨1000, o.state⟩ accrualCalls = some c ∧
        c.now ≤ 650000 ∧ GraceEndFits (.signedBy ⟨3⟩ 650000) c.state ⟨3⟩ := by decide
  rcases hrun with ⟨o, ho, c, hc, hnow, hgrace⟩
  rcases Clocked.run?_run hc with ⟨labels, hlabels, hcalls⟩
  have hrestricted := hlabels.restrict (accrualCalls_spareLoan ⟨3⟩ hcalls)
  have happly := previewOwed_preLate_iff (e := .signedBy ⟨3⟩ 650000) ho (by decide) (by decide)
    (by decide) hrestricted hnow (by decide)
  refine ⟨o, c, labels, ho, hrestricted, hcalls, ?_⟩
  rw [happly.1.mpr hgrace, happly.2 (by decide)]
  decide

/-- With the largest grace period the setter accepts, the preview traps on the second day. -/
theorem previewOwed_preLate_traps :
    ∃ (e₀ e : Env) (s₀ : State) (b : Address) (principal : Int) (tenorDays feeBps : Nat)
      (o : Outcome State Unit) (c : Clocked State) (labels : List (Call × (List Event × Ret))),
      openLoan e₀ s₀ b principal tenorDays feeBps = .ok o ∧ 1 ≤ feeBps ∧ 1 ≤ tenorDays ∧
      I128.Fits (principal * feeBps * (tenorDays * secondsPerDay : Nat)) ∧
      Run (fun s label t => Step s label t ∧ label.1.2.SparesLoan b) ⟨e₀.timestamp, o.state⟩
        labels c ∧
      c.now ≤ e.timestamp ∧
      e.timestamp ≤ e₀.timestamp + tenorDays * secondsPerDay + s₀.config.defaultGracePeriod ∧
      previewOwed e c.state b = .error .trap ∧
      previewOwed e c.state b ≠
        .ok (preLateOwed principal e₀.timestamp tenorDays feeBps e.timestamp) := by
  have hrun : ∃ o, openLoan (.signedBy ⟨2⟩ 1000) (lateRateOffered (Fin.last _)) ⟨3⟩ 10000000 7 500 =
      .ok o ∧ previewOwed (.signedBy ⟨3⟩ 87401) o.state ⟨3⟩ = .error .trap := by decide
  rcases hrun with ⟨o, ho, htrap⟩
  refine ⟨_, .signedBy ⟨3⟩ 87401, _, _, _, _, _, o, ⟨1000, o.state⟩, [], ho, by decide, by decide,
    by decide, Run.nil _, show 1000 ≤ 87401 by decide, by decide, htrap, ?_⟩
  rw [htrap]
  simp

end Lendoor.LoanManager
