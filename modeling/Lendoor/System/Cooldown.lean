import Lendoor.System.Refinement

/-! # The cooldown after a default

A default writes the earliest next borrow thirty days ahead. A close overwrites
that entry with the end of the holding period, so the cooldown is exactly as long
as no payment settles the loan inside it.
-/

namespace Lendoor.System

/-! ## What keeps the cooldown -/

/-- The call pays off the loan of `b`: a `repay`, or a `repay_partial` with an
amount that covers the previewed balance. -/
def PaysOff (v b : Address) (w : World) (call : Call) : Prop :=
  (∃ payer, call.op = .vault (.repay payer b)) ∨
    ∃ payer amount owed, call.op = .vault (.repayPartial payer b amount) ∧
      LoanManager.previewOwed (call.env v) w.loanManager b = .ok owed ∧ owed ≤ amount

/-- A pay-off of `b`'s loan is late enough for the close to write no earlier next
borrow than `deadline`: at the deadline, or inside a holding period that outlasts it. -/
def KeepsCooldown (deadline : Nat) (v b : Address) (w : World) (call : Call) : Prop :=
  PaysOff v b w call →
    deadline ≤ max call.timestamp ((w.loanManager.readLoan b).start +
      w.loanManager.minHoldSecs (w.loanManager.readLoan b).tenorDays)

/-- The account has an open loan, or may not borrow before `deadline`. -/
def Cooling (deadline : Nat) (b : Address) (s : LoanManager.State) : Prop :=
  (s.readLoan b).active = true ∨ deadline ≤ s.readNextBorrow b

/-! ## One call -/

section Cooling

variable {deadline : Nat} {b : Address} {s : LoanManager.State}

theorem Cooling.of_eq {s' : LoanManager.State} (h : Cooling deadline b s)
    (hloan : s'.readLoan b = s.readLoan b) (hnext : s'.readNextBorrow b = s.readNextBorrow b) :
    Cooling deadline b s' := by
  unfold Cooling
  rw [hloan, hnext]
  exact h

theorem Cooling.writeLoan (h : Cooling deadline b s) (a : Address) {l : LoanManager.Loan}
    (hl : l.active = true) : Cooling deadline b (s.writeLoan a l) := by
  by_cases ha : b = a
  · subst ha
    exact .inl (by rw [LoanManager.State.readLoan_writeLoan_self, hl])
  · exact h.of_eq (by rw [LoanManager.State.readLoan_writeLoan, if_neg ha]) rfl

theorem Cooling.effect {e : Env} {op : LoanManager.Op} {s' : LoanManager.State} {now : Nat}
    (h : Cooling deadline b s) (hsound : s.Sound now) (hauth : e.auth s.config.vault = false)
    (heffect : LoanManager.Effect e s op s') : Cooling deadline b s' := by
  have hno : e.auth s.config.vault ≠ true := by
    rw [hauth]
    decide
  cases heffect with
  | frame hloan hnext =>
      exact h.of_eq (by rw [LoanManager.State.readLoan, LoanManager.State.readLoan, hloan])
        (by rw [LoanManager.State.readNextBorrow, LoanManager.State.readNextBorrow, hnext])
  | opened hvault => exact absurd hvault hno
  | @accrued a acc hactive hacc =>
      rcases LoanManager.accruedInMemory_spec (hsound.loans a).amountDue_nonneg hacc with
        ⟨x, _, rfl⟩
      refine h.writeLoan a ?_
      rw [LoanManager.Loan.advance_eq]
      exact hactive
  | closed _ hvault => exact absurd hvault hno
  | reduced hvault => exact absurd hvault hno
  | @defaulted a _ hactive =>
      by_cases ha : b = a
      · subst ha
        exact .inl (by rw [LoanManager.defaultedState_readLoan, if_pos rfl]; exact hactive)
      · exact h.of_eq (by rw [LoanManager.defaultedState_readLoan, if_neg ha])
          (by rw [LoanManager.defaultedState_readNextBorrow, if_neg ha])

/-- A payment keeps it cooling unless it closes the loan of `b` too early. -/
theorem Cooling.payment {e : Env} {w w' : World} {payer a : Address} {r : Vault.Payment}
    (h : Cooling deadline b w.loanManager) (hactive : (w.loanManager.readLoan a).active = true)
    (hlive : (w.loanManager.readLoan a).Live)
    (heffect : Vault.PaymentEffect e w payer a r w')
    (hkeep : a = b → r.remaining = 0 → deadline ≤ max e.timestamp
      ((w.loanManager.readLoan b).start +
        w.loanManager.minHoldSecs (w.loanManager.readLoan b).tenorDays)) :
    Cooling deadline b w'.loanManager := by
  cases heffect with
  | closed _ _ _ hlm hacc =>
      rcases LoanManager.accruedInMemory_spec hlive.amountDue_pos.le hacc with ⟨x, _, rfl⟩
      rw [hlm]
      by_cases ha : b = a
      · subst ha
        refine .inr ?_
        rw [LoanManager.closedState_readNextBorrow, if_pos rfl]
        exact hkeep rfl rfl
      · exact h.of_eq (by rw [LoanManager.closedState_readLoan, if_neg ha])
          (by rw [LoanManager.closedState_readNextBorrow, if_neg ha])
  | reduced _ _ _ _ _ _ _ hlm hacc =>
      rcases LoanManager.accruedInMemory_spec hlive.amountDue_pos.le hacc with ⟨x, _, rfl⟩
      rw [hlm]
      refine h.writeLoan a ?_
      rw [LoanManager.Loan.advance_eq]
      exact hactive

end Cooling

theorem Step.cooling {v b : Address} {deadline : Nat} {s t : Clocked World} {label : Label}
    (hsound : s.state.Sound v s.now) (hstep : Step v s label t)
    (hkeep : KeepsCooldown deadline v b s.state label.1)
    (h : Cooling deadline b s.state.loanManager) : Cooling deadline b t.state.loanManager := by
  have hlive : ∀ a, (s.state.loanManager.readLoan a).active = true →
      (s.state.loanManager.readLoan a).Live := fun a => (hsound.loanManager.loans a).live
  have houtsider : (label.1.env v).auth s.state.loanManager.config.vault = false := by
    rw [hsound.wired]
    exact hstep.admissible.outsider
  have hmoves := (hstep.simulated hsound).loanManager
  rcases hstep.exec_ok with ⟨o, ho, hstate, hvalue⟩
  rw [← hstate] at hmoves ⊢
  rw [← hvalue] at hmoves
  cases hop : label.1.op with
  | vault op =>
      rw [hop] at ho hmoves
      cases op <;> simp only [exec, Vault.exec, map_eq_ok] at ho <;>
        rcases ho with ⟨_, ⟨r, hr, rfl⟩, rfl⟩
      case borrowWithTerm a n tenor fee =>
        rcases Vault.borrowWithTerm_spec hr with ⟨_, hpos, _, _, _, _, opened, hopen, hlm⟩
        rcases LoanManager.openLoan_spec hopen
          with ⟨_, _, _, _, _, ⟨offer, hoffer, _, ht, _, _⟩, l, hl, hopened, _⟩
        have htenor := (hsound.loanManager.configured.offers a offer hoffer).1
        rcases LoanManager.openedLoan_spec hpos (ht ▸ htenor) hl with ⟨_, rfl⟩
        have hbase : Cooling deadline b
            { s.state.loanManager with offer := s.state.loanManager.offer.remove a } := h
        simp only [Outcome.as_state, hlm, hopened]
        exact hbase.writeLoan a rfl
      case repay p a =>
        rcases Vault.repay_spec (hlive a) hr with ⟨_, hactive, _, _, _, heffect⟩
        refine h.payment hactive (hlive a hactive) heffect ?_
        rintro rfl _
        exact hkeep (.inl ⟨p, hop⟩)
      case repayPartial p a amount =>
        rcases Vault.repayPartial_spec (hlive a) hr with ⟨_, _, hactive, _, _, hclosed, heffect⟩
        refine h.payment hactive (hlive a hactive) heffect ?_
        rintro rfl hzero
        rcases hclosed.mp hzero with ⟨acc, hacc, hcovers⟩
        refine hkeep (.inr ⟨p, amount, acc.amountDue, hop, ?_, hcovers⟩)
        rw [LoanManager.previewOwed, hacc]
        rfl
      -- the other entry points do not call the loan manager
      all_goals exact (show _ = s.state.loanManager from hmoves) ▸ h
  | loanManager op =>
      rw [hop] at ho
      simp only [exec, map_eq_ok] at ho
      rcases ho with ⟨r, hr, rfl⟩
      exact h.effect hsound.loanManager houtsider (LoanManager.exec_effect hr)
  | transfer source target amount =>
      rw [hop] at hmoves
      exact (show _ = s.state.loanManager from hmoves) ▸ h

/-! ## Every run -/

theorem Step.default_cooling {v b : Address} {s t : Clocked World} {label : Label}
    (hstep : Step v s label t) (hop : label.1.op = .loanManager (.markDefault b)) :
    Cooling (label.1.timestamp + 30 * LoanManager.secondsPerDay) b t.state.loanManager := by
  rcases hstep.exec_ok with ⟨o, ho, hstate, _⟩
  rw [hop] at ho
  simp only [exec, LoanManager.exec, map_eq_ok] at ho
  rcases ho with ⟨_, ⟨r, hr, rfl⟩, rfl⟩
  rw [← hstate]
  simp only [Outcome.as_state, (LoanManager.markDefault_spec hr).2.2.2.2]
  refine .inr ?_
  rw [LoanManager.defaultedState_readNextBorrow, if_pos rfl]
  exact le_rfl

/-- The call opens a loan of `b`, through the vault or directly. -/
def OpensLoan (b : Address) (op : Op) : Prop :=
  ∃ amount tenorDays feeBps, op = .vault (.borrowWithTerm b amount tenorDays feeBps) ∨
    op = .loanManager (.openLoan b amount tenorDays feeBps)

theorem Step.open_of_cooling {v b : Address} {deadline : Nat} {s t : Clocked World} {label : Label}
    (hstep : Step v s label t) (h : Cooling deadline b s.state.loanManager)
    (hopen : OpensLoan b label.1.op) : deadline ≤ label.1.timestamp := by
  have hspec : ∃ (e : Env) (amount : Int) (tenorDays feeBps : Nat)
      (o : Outcome LoanManager.State Unit), e.timestamp = label.1.timestamp ∧
      LoanManager.openLoan e s.state.loanManager b amount tenorDays feeBps = .ok o := by
    rcases hstep.exec_ok with ⟨o, ho, _, _⟩
    rcases hopen with ⟨amount, tenorDays, feeBps, hop | hop⟩
    · rw [hop] at ho
      simp only [exec, Vault.exec, map_eq_ok] at ho
      rcases ho with ⟨_, ⟨r, hr, rfl⟩, rfl⟩
      rcases Vault.borrowWithTerm_spec hr with ⟨_, _, _, _, _, _, opened, hopened, _⟩
      exact ⟨_, _, _, _, _, rfl, hopened⟩
    · rw [hop] at ho
      simp only [exec, LoanManager.exec, map_eq_ok] at ho
      rcases ho with ⟨_, ⟨r, hr, rfl⟩, rfl⟩
      exact ⟨_, _, _, _, _, rfl, hr⟩
  rcases hspec with ⟨e, amount, tenorDays, feeBps, o, htime, hopened⟩
  rcases LoanManager.openLoan_spec hopened with ⟨_, _, hcooled, hinactive, _⟩
  rcases h with hactive | hnext
  · rw [hactive] at hinactive
    cases hinactive
  · omega

/-- In every run after a default of `b` at time `T` in which no payment settles its
loan early, no loan of `b` is opened before `T` plus thirty days. -/
theorem no_borrow_in_cooldown {v b : Address} {c c₁ c₂ c₃ : Clocked World}
    {marked opening : Label} {labels : List Label} (h : Reachable v c)
    (hdefault : Step v c marked c₁) (hop : marked.1.op = .loanManager (.markDefault b))
    (run : Run (fun s label t => Step v s label t ∧
      KeepsCooldown (marked.1.timestamp + 30 * LoanManager.secondsPerDay) v b s.state label.1)
      c₁ labels c₂)
    (hstep : Step v c₂ opening c₃) (hopen : OpensLoan b opening.1.op) :
    marked.1.timestamp + 30 * LoanManager.secondsPerDay ≤ opening.1.timestamp := by
  let P : Clocked World → Prop := fun s => s.state.Sound v s.now ∧
    Cooling (marked.1.timestamp + 30 * LoanManager.secondsPerDay) b s.state.loanManager
  have hstart : P c₁ := ⟨hdefault.sound h.sound, hdefault.default_cooling hop⟩
  have hend : P c₂ := by
    refine run.invariant (P := P) ?_ hstart
    rintro s label t ⟨hsound, hcooling⟩ ⟨hnext, hkeep⟩
    exact ⟨hnext.sound hsound, Step.cooling hsound hnext hkeep hcooling⟩
  exact hstep.open_of_cooling hend.2 hopen

/-! ## Settling before and after the cooldown -/

/-- Account `5` is marked defaulted. -/
def defaultCall : Call := .signedBy ⟨2⟩ 1988201 (.loanManager (.markDefault ⟨5⟩))

/-- At time `t` the provider settles the defaulted loan, and the owner scores the
borrower again and makes a new offer. -/
def rehabilitation (t : Nat) : List Call :=
  [.signedBy ⟨4⟩ t (.vault (.repay ⟨4⟩ ⟨5⟩)),
    .signedBy ⟨2⟩ t (.loanManager (.setUserRisk ⟨5⟩ 600 true 0 100000000)),
    .signedBy ⟨2⟩ t (.loanManager (.setLoanOffer ⟨5⟩ 7 500 5000000 100000000))]

def reborrow (t : Nat) : Call :=
  .signedBy ⟨5⟩ t (.vault (.borrowWithTerm ⟨5⟩ 100000000 7 500))

theorem opensLoan_reborrow (t : Nat) : OpensLoan ⟨5⟩ (reborrow t).op := ⟨_, _, _, .inl rfl⟩

/-- Settled thirty days after the default, the account borrows again at once. -/
theorem no_borrow_in_cooldown_settled_late :
    ∃ (c c₁ c₂ c₃ : Clocked World) (marked opening : Label) (labels : List Label),
      Reachable ⟨1⟩ c ∧ Step ⟨1⟩ c marked c₁ ∧ marked.1 = defaultCall ∧
      Run (fun s label t => Step ⟨1⟩ s label t ∧
        KeepsCooldown (1988201 + 30 * LoanManager.secondsPerDay) ⟨1⟩ ⟨5⟩ s.state label.1)
        c₁ labels c₂ ∧
      labels.map Prod.fst = rehabilitation 4580201 ∧ Step ⟨1⟩ c₂ opening c₃ ∧
      opening.1 = reborrow 4580201 ∧
      1988201 + 30 * LoanManager.secondsPerDay ≤ opening.1.timestamp := by
  have hrun : ∃ c, Clocked.run? Call.timestamp (Call.exec ⟨1⟩) launch lendingCalls = some c ∧
      c.now ≤ 1988201 ∧ ∃ r, defaultCall.exec ⟨1⟩ c.state = .ok r ∧
      ∃ c₂, Clocked.run? Call.timestamp (Call.exec ⟨1⟩) ⟨1988201, r.1⟩ (rehabilitation 4580201) =
        some c₂ ∧ c₂.now ≤ 4580201 ∧
      ∃ r', (reborrow 4580201).exec ⟨1⟩ c₂.state = .ok r' ∧
        r'.1.vault.totalBorrows = 100000000 := by
    decide
  rcases hrun with ⟨c, hc, hclock, r, hr, c₂, hc₂, hclock₂, r', hr', -⟩
  have hreach : Reachable ⟨1⟩ c := reachable_of_run? hc (by decide)
  have hmarked := Step.of_exec (.of_admissible (by decide)) hclock hr
  rcases run_of_run? hc₂ (by decide) with ⟨labels, run, hcalls⟩
  have hopening := Step.of_exec (.of_admissible (by decide)) hclock₂ hr'
  have htime : ∀ label ∈ labels, label.1.timestamp = 4580201 := by
    refine forall_label_of_calls hcalls (P := fun c => c.timestamp = 4580201) ?_
    simp [rehabilitation, Call.signedBy]
  have hkept : Run (fun s label t => Step ⟨1⟩ s label t ∧
      KeepsCooldown (1988201 + 30 * LoanManager.secondsPerDay) ⟨1⟩ ⟨5⟩ s.state label.1)
      ⟨1988201, r.1⟩ labels c₂ := by
    refine (run.restrict htime).mono ?_
    rintro s label t ⟨hstep, hlate⟩
    refine ⟨hstep, fun _ => le_max_of_le_left ?_⟩
    rw [hlate]
    decide
  exact ⟨c, _, c₂, _, _, _, labels, hreach, hmarked, rfl, hkept, hcalls, hopening, rfl,
    no_borrow_in_cooldown hreach hmarked rfl hkept hopening (opensLoan_reborrow 4580201)⟩

/-- Settled on the day of the default, it borrows again within two minutes. -/
theorem reborrow_within_cooldown :
    ∃ (v b : Address) (c c₁ c₂ c₃ : Clocked World) (marked opening : Label) (labels : List Label),
      Reachable v c ∧ Step v c marked c₁ ∧ marked.1.op = .loanManager (.markDefault b) ∧
      Run (Step v) c₁ labels c₂ ∧ Step v c₂ opening c₃ ∧ OpensLoan b opening.1.op ∧
      opening.1.timestamp < marked.1.timestamp + 30 * LoanManager.secondsPerDay := by
  have hrun : ∃ c, Clocked.run? Call.timestamp (Call.exec ⟨1⟩) launch lendingCalls = some c ∧
      c.now ≤ 1988201 ∧ ∃ r, defaultCall.exec ⟨1⟩ c.state = .ok r ∧
      ∃ c₂, Clocked.run? Call.timestamp (Call.exec ⟨1⟩) ⟨1988201, r.1⟩ (rehabilitation 1988300) =
        some c₂ ∧ c₂.now ≤ 1988300 ∧
      ∃ r', (reborrow 1988300).exec ⟨1⟩ c₂.state = .ok r' ∧
        r'.1.vault.totalBorrows = 100000000 := by
    decide
  rcases hrun with ⟨c, hc, hclock, r, hr, c₂, hc₂, hclock₂, r', hr', -⟩
  rcases run_of_run? hc₂ (by decide) with ⟨labels, run, -⟩
  exact ⟨⟨1⟩, ⟨5⟩, c, _, c₂, _, _, _, labels, reachable_of_run? hc (by decide),
    Step.of_exec (.of_admissible (by decide)) hclock hr, rfl, run,
    Step.of_exec (.of_admissible (by decide)) hclock₂ hr', opensLoan_reborrow 1988300,
    show 1988300 < 1988201 + 30 * LoanManager.secondsPerDay by decide⟩

end Lendoor.System
