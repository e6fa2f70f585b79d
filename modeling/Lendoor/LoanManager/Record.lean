import Lendoor.LoanManager.Repayment

/-! # A loan over its whole life

What the record of one loan keeps while the loan stays open, whatever is called
in between and by whom, and the subtractions of the contract that rest on it.
-/

namespace Lendoor.LoanManager

/-! ## One call -/

/-- How an open record may change while its loan stays open. -/
structure Loan.Continues (l l' : Loan) : Prop where
  start : l'.start = l.start
  due : l'.due = l.due
  tenorDays : l'.tenorDays = l.tenorDays
  feeBps : l'.feeBps = l.feeBps
  gracePeriod : l'.gracePeriod = l.gracePeriod
  lastAccrued_le : l.lastAccrued ≤ l'.lastAccrued
  principal_le : l'.principal ≤ l.principal

theorem Loan.Continues.refl (l : Loan) : l.Continues l :=
  ⟨rfl, rfl, rfl, rfl, rfl, le_refl _, le_refl _⟩

theorem Loan.Continues.trans {l l' l'' : Loan} (h : l.Continues l') (h' : l'.Continues l'') :
    l.Continues l'' :=
  ⟨h'.start.trans h.start, h'.due.trans h.due, h'.tenorDays.trans h.tenorDays,
    h'.feeBps.trans h.feeBps, h'.gracePeriod.trans h.gracePeriod,
    h.lastAccrued_le.trans h'.lastAccrued_le, h'.principal_le.trans h.principal_le⟩

theorem continues_writeLoan {s s' : State} {a : Address} {l : Loan}
    (hread : ∀ c, s'.readLoan c = if c = a then l else s.readLoan c)
    (h : (s.readLoan a).Continues l) (b : Address) :
    (s.readLoan b).Continues (s'.readLoan b) := by
  rw [hread b]
  split
  · rename_i hba
    subst hba
    exact h
  · exact .refl _

theorem Effect.continues {e : Env} {s s' : State} {op : Op} {now : Nat} {b : Address}
    (h : Effect e s op s') (hs : s.Sound now) (hbefore : (s.readLoan b).active = true)
    (hafter : (s'.readLoan b).active = true) : (s.readLoan b).Continues (s'.readLoan b) := by
  cases h with
  | frame hloan =>
      rw [State.readLoan, State.readLoan, hloan]
      exact .refl _
  | @opened a _ _ _ l _ _ _ _ hinactive =>
      have hne : b ≠ a := by
        intro heq
        rw [heq, hinactive] at hbefore
        cases hbefore
      rw [State.readLoan_writeLoan, if_neg hne]
      exact .refl _
  | @accrued a acc hactive hacc =>
      rcases accruedInMemory_spec (hs.loans a).amountDue_nonneg hacc with ⟨x, _, rfl⟩
      refine continues_writeLoan (fun c => State.readLoan_writeLoan s a c _) ?_ b
      rw [Loan.advance_eq]
      exact ⟨rfl, rfl, rfl, rfl, rfl, le_max_left _ _, le_refl _⟩
  | @closed _ a acc paid =>
      rw [closedState_readLoan] at hafter ⊢
      split at hafter
      · cases hafter
      · rename_i hne
        rw [if_neg hne]
        exact .refl _
  | @reduced a acc paid interest _ hpos hactive hacc _ _ hsplit =>
      rcases accruedInMemory_spec (hs.loans a).amountDue_nonneg hacc with ⟨x, _, rfl⟩
      refine continues_writeLoan (fun c => State.readLoan_writeLoan s a c _) ?_ b
      rw [Loan.advance_eq]
      -- at most the whole payment is interest, so the principal does not grow
      exact ⟨rfl, rfl, rfl, rfl, rfl, le_max_left _ _, by simp only; omega⟩
  | @defaulted a =>
      exact continues_writeLoan (fun c => defaultedState_readLoan e s a c)
        ⟨rfl, rfl, rfl, rfl, rfl, le_refl _, le_refl _⟩ b

theorem Effect.keeps_default {e : Env} {s s' : State} {op : Op} {now : Nat} {b : Address}
    (h : Effect e s op s') (hs : s.Sound now) (hauth : e.auth s.config.vault = false)
    (hdefaulted : (s.readLoan b).defaulted = true) : (s'.readLoan b).defaulted = true := by
  have hno : e.auth s.config.vault ≠ true := by
    rw [hauth]
    decide
  cases h with
  | frame hloan =>
      rw [State.readLoan, hloan]
      exact hdefaulted
  | opened hvault => exact absurd hvault hno
  | @accrued a acc _ hacc =>
      rcases accruedInMemory_spec (hs.loans a).amountDue_nonneg hacc with ⟨x, _, rfl⟩
      rw [State.readLoan_writeLoan, Loan.advance_eq]
      split
      · rename_i hba
        rw [← hba]
        exact hdefaulted
      · exact hdefaulted
  | closed _ hvault => exact absurd hvault hno
  | reduced hvault => exact absurd hvault hno
  | @defaulted a =>
      rw [defaultedState_readLoan]
      split
      · rfl
      · exact hdefaulted

/-- The principal of an opened loan is a machine integer: its product with the fee,
which is at least one, was computed. -/
theorem openedLoan_principal_fits {now grace : Nat} {principal : Int} {tenorDays feeBps : Nat}
    {l : Loan} (hp : 0 < principal) (ht : 1 ≤ tenorDays) (hf : 1 ≤ feeBps)
    (h : openedLoan now grace principal tenorDays feeBps = .ok l) : I128.Fits l.principal := by
  rw [(openedLoan_spec hp ht h).2]
  simp only [openedLoan, bind_eq_ok, unwrapOr_eq_ok, I128.mul_eq_some] at h
  rcases h with ⟨_, ⟨_, hfits⟩, _⟩
  have hfee : (1 : Int) ≤ feeBps := by exact_mod_cast hf
  exact hfits.of_le hp.le (le_mul_of_one_le_right hp.le hfee)

theorem Effect.principals_fit {e : Env} {s s' : State} {op : Op} {now : Nat}
    (h : Effect e s op s') (hs : s.Sound now) (hle : now ≤ e.timestamp)
    (hfits : ∀ b, I128.Fits (s.readLoan b).principal) (b : Address) :
    I128.Fits (s'.readLoan b).principal := by
  have hnn := ((h.sound hs hle).loans b).principal_nonneg
  -- a record written for `a` with no more principal than before
  have hwrite : ∀ {a : Address} {l : Loan},
      (∀ c, s'.readLoan c = if c = a then l else s.readLoan c) →
      l.principal ≤ (s.readLoan a).principal → I128.Fits (s'.readLoan b).principal := by
    intro a l hread hprin
    rw [hread b] at hnn ⊢
    split at hnn
    · rename_i hba
      rw [if_pos hba]
      exact (hfits a).of_le hnn hprin
    · rename_i hba
      rw [if_neg hba]
      exact hfits b
  cases h with
  | frame hloan =>
      rw [State.readLoan, hloan]
      exact hfits b
  | @opened a principal tenorDays feeBps l offer _ hpos _ _ hget ht hf hrec =>
      rw [State.readLoan_writeLoan]
      split
      · have hoffer := hs.configured.offers a offer hget
        exact openedLoan_principal_fits hpos (by omega) (by omega) hrec
      · exact hfits b
  | @accrued a acc hactive hacc =>
      rcases accruedInMemory_spec (hs.loans a).amountDue_nonneg hacc with ⟨x, _, rfl⟩
      refine hwrite (fun c => State.readLoan_writeLoan s a c _) ?_
      rw [Loan.advance_principal]
  | @closed _ a acc paid =>
      exact hwrite (fun c => closedState_readLoan e s a c acc) (hs.loans a).principal_nonneg
  | @reduced a acc paid interest _ hpos hactive hacc _ _ hsplit =>
      rcases accruedInMemory_spec (hs.loans a).amountDue_nonneg hacc with ⟨x, _, rfl⟩
      refine hwrite (fun c => State.readLoan_writeLoan s a c _) ?_
      simp only at hsplit ⊢
      omega
  | @defaulted a =>
      exact hwrite (fun c => defaultedState_readLoan e s a c) le_rfl

/-! ## Runs -/

/-- A call after which the loan of `b` is open. -/
def OpenStep (b : Address) (s : Clocked State) (label : Call × (List Event × Ret))
    (t : Clocked State) : Prop :=
  Step s label t ∧ (t.state.readLoan b).active = true

theorem OpenStep.continues {b : Address} {s t : Clocked State}
    {label : Call × (List Event × Ret)} (h : OpenStep b s label t) (hs : s.state.Sound s.now)
    (hactive : (s.state.readLoan b).active = true) :
    (s.state.readLoan b).Continues (t.state.readLoan b) := by
  rcases h.1.exec_ok with ⟨o, ho, hstate⟩
  have hafter := h.2
  rw [← hstate] at hafter ⊢
  exact (exec_effect ho).continues hs hactive hafter

theorem run_continues {b : Address} {c c' : Clocked State}
    {labels : List (Call × (List Event × Ret))} (hs : c.state.Sound c.now)
    (hactive : (c.state.readLoan b).active = true) (run : Run (OpenStep b) c labels c') :
    (c.state.readLoan b).Continues (c'.state.readLoan b) := by
  let P : Clocked State → Prop := fun t => t.state.Sound t.now ∧
    (t.state.readLoan b).active = true ∧ (c.state.readLoan b).Continues (t.state.readLoan b)
  have hkeep : ∀ s label t, P s → OpenStep b s label t → P t := by
    intro s label t hP hstep
    rcases hP with ⟨hsound, hopen, hcont⟩
    exact ⟨hstep.1.sound hsound, hstep.2, hcont.trans (hstep.continues hsound hopen)⟩
  have hend : P c' := run.invariant hkeep ⟨hs, hactive, .refl _⟩
  exact hend.2.2

/-! ## Subtractions -/

/-- The subtractions of `accrued_in_memory` and `apply_payment` on a record, at the
places where the code makes them: elapsed seconds at both ends of the accrued
interval, seconds since the late period began, and interest outstanding. -/
structure Loan.SubtractionsHold (e : Env) (p : PremiumConfig) (l : Loan) : Prop where
  elapsed : ∀ ts, ts = (if e.timestamp < l.due then e.timestamp else l.due) ∨ ts = l.accruedUntil →
    (if e.timestamp < l.due then e.timestamp else l.due) > l.accruedUntil →
    ∃ el, U64.sub (if ts < l.due then ts else l.due) l.start = some el
  late : ∀ accrualFrom, accrualFrom = (if l.accruedUntil > l.due + l.gracePeriod then
      l.accruedUntil else l.due + l.gracePeriod) → e.timestamp > accrualFrom →
    ∃ tLate, U64.sub e.timestamp accrualFrom = some tLate
  interest : ∀ acc, accruedInMemory e l p = .ok acc →
    0 ≤ (acc.advance e.timestamp).amountDue - (acc.advance e.timestamp).principal

theorem Loan.Live.subtractionsHold {l : Loan} (h : l.Live) (e : Env) (p : PremiumConfig) :
    l.SubtractionsHold e p := by
  have hstart := h.start_lt
  have huntil := h.accruedUntil_eq
  have hdue := h.due_eq
  refine ⟨?_, ?_, ?_⟩
  · intro ts hts hgt
    simp only [← min_def_lt] at hts hgt ⊢
    refine ⟨_, U64.sub_eq_some.mpr ⟨?_, rfl⟩⟩
    rcases hts with rfl | rfl <;> omega
  · intro accrualFrom _ hgt
    exact ⟨_, U64.sub_eq_some.mpr ⟨hgt.le, rfl⟩⟩
  · intro acc hacc
    have hle := (h.accrued_bounds hacc).2
    simp only [Loan.advance_amountDue, Loan.advance_principal]
    omega

/-! ## The record in every reachable state -/

/-- In every reachable state the record of every account is zeroed or the ordered
record of an open loan; while that loan stays open its dates, tenor, fee and grace
are fixed, its anchor only moves forward and its principal only falls; and no
subtraction the contract makes on it underflows. -/
theorem loanRecord_invariant {c : Clocked State} (h : Reachable c) (b : Address) :
    ((c.state.readLoan b).active = false → c.state.readLoan b = Loan.zeroed) ∧
      ((c.state.readLoan b).active = true →
        (0 < (c.state.readLoan b).principal ∧
          (c.state.readLoan b).principal ≤ (c.state.readLoan b).amountDue ∧
          1 ≤ (c.state.readLoan b).tenorDays ∧ 1 ≤ (c.state.readLoan b).feeBps ∧
          (c.state.readLoan b).due =
            (c.state.readLoan b).start + (c.state.readLoan b).tenorDays * 86400 ∧
          (c.state.readLoan b).start < (c.state.readLoan b).lastAccrued ∧
          ((c.state.readLoan b).defaulted = true →
            (c.state.readLoan b).due + (c.state.readLoan b).gracePeriod + 15 * 86400 < c.now)) ∧
        (∀ labels c', Run (OpenStep b) c labels c' →
          (c.state.readLoan b).Continues (c'.state.readLoan b)) ∧
        ∀ e, (c.state.readLoan b).SubtractionsHold e (c.state.readPremium b)) := by
  have hsound := h.sound
  have hwf := hsound.loans b
  refine ⟨hwf.inactive, fun hactive => ?_⟩
  have hlive := hwf.live hactive
  exact ⟨⟨hlive.principal_pos, hlive.principal_le, hlive.tenor_pos, hlive.fee_pos, hlive.due_eq,
    hlive.start_lt, fun hd => (hwf.defaulted hd).2⟩, fun _ _ run =>
    run_continues hsound hactive run, fun e => hlive.subtractionsHold e _⟩

/-- The loan of ten units opened with a one-day grace period. -/
theorem loanRecord_invariant_opened :
    ((lateRateState 86400).state.readLoan ⟨3⟩).active = true ∧
      ((lateRateState 86400).state.readLoan ⟨3⟩).principal ≤
        ((lateRateState 86400).state.readLoan ⟨3⟩).amountDue ∧
      ∀ e, ((lateRateState 86400).state.readLoan ⟨3⟩).SubtractionsHold e
        ((lateRateState 86400).state.readPremium ⟨3⟩) := by
  have hactive : ((lateRateState 86400).state.readLoan ⟨3⟩).active = true := by decide
  have hopen := (loanRecord_invariant (lateRateState_reachable 86400) ⟨3⟩).2 hactive
  exact ⟨hactive, hopen.1.2.1, hopen.2.2⟩

end Lendoor.LoanManager
