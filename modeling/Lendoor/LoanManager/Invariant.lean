import Lendoor.LoanManager.Effects

/-! # The loan record invariant

Every account's record is either the zeroed one or a live loan whose fields are
ordered the way the arithmetic of the contract relies on. The invariant is
proved for one call from its classified effect and lifted to every run.
-/

namespace Lendoor.LoanManager

/-! ## Records -/

/-- A record as it may stand in storage at time `now`. -/
structure Loan.WellFormed (now : Nat) (l : Loan) : Prop where
  inactive : l.active = false → l = Loan.zeroed
  live : l.active = true → l.Live
  start_le : l.active = true → l.start ≤ now
  defaulted : l.defaulted = true →
    l.active = true ∧ l.due + l.gracePeriod + 15 * secondsPerDay < now

theorem Loan.WellFormed.of_zeroed (now : Nat) : Loan.zeroed.WellFormed now :=
  ⟨fun _ => rfl, by simp [Loan.zeroed], by simp [Loan.zeroed], by simp [Loan.zeroed]⟩

theorem Loan.WellFormed.later {now later : Nat} {l : Loan} (h : l.WellFormed now)
    (hle : now ≤ later) : l.WellFormed later := by
  refine ⟨h.inactive, h.live, fun ha => (h.start_le ha).trans hle, fun hd => ?_⟩
  obtain ⟨ha, hlt⟩ := h.defaulted hd
  exact ⟨ha, by omega⟩

theorem Loan.WellFormed.amountDue_nonneg {now : Nat} {l : Loan} (h : l.WellFormed now) :
    0 ≤ l.amountDue := by
  cases hactive : l.active with
  | false => simp [h.inactive hactive, Loan.zeroed]
  | true => exact (h.live hactive).amountDue_pos.le

theorem Loan.WellFormed.principal_nonneg {now : Nat} {l : Loan} (h : l.WellFormed now) :
    0 ≤ l.principal := by
  cases hactive : l.active with
  | false => simp [h.inactive hactive, Loan.zeroed]
  | true => exact (h.live hactive).principal_pos.le

/-! ## Records written by the contract -/

/-- A freshly opened record is live: its fee is nonnegative and its anchor is past its start. -/
theorem openedLoan_live {now grace : Nat} {principal : Int} {tenorDays feeBps : Nat} {l : Loan}
    (hp : 0 < principal) (ht : 1 ≤ tenorDays) (hf : 1 ≤ feeBps)
    (h : openedLoan now grace principal tenorDays feeBps = .ok l) :
    l.Live ∧ l.active = true ∧ l.defaulted = false ∧ l.start = now ∧ l.principal = principal := by
  obtain ⟨hfits, rfl⟩ := openedLoan_spec hp ht h
  refine ⟨⟨hp, ?_, ht, hf, rfl, hfits, ?_⟩, rfl, rfl, rfl, rfl⟩
  · have := firstDay_nonneg hp tenorDays feeBps
    simp only
    omega
  · simp only [firstAnchor, secondsPerDay]
    split <;> omega

theorem Loan.Live.accrue {l : Loan} (h : l.Live) {x : Int} (hx : 0 ≤ x) (now : Nat) :
    Loan.Live (Loan.advance { l with amountDue := l.amountDue + x } now) := by
  have hstart := h.start_lt
  have hle := h.principal_le
  rw [Loan.advance_eq]
  exact ⟨h.principal_pos, by simp only; omega, h.tenor_pos, h.fee_pos, h.due_eq, h.due_fits,
    by simp only; omega⟩

/-- An interest-first payment short of the balance leaves principal, covered by the rest. -/
theorem Loan.Live.reduce {l : Loan} (h : l.Live) {paid interest : Int}
    (hshort : paid < l.amountDue) (hsplit : interest = min paid (l.amountDue - l.principal)) :
    Loan.Live { l with
      amountDue := l.amountDue - paid
      principal := l.principal - (paid - interest) } := by
  have hp := h.principal_pos
  have hle := h.principal_le
  exact ⟨by simp only; omega, by simp only; omega, h.tenor_pos, h.fee_pos, h.due_eq, h.due_fits,
    h.start_lt⟩

/-! ## The state invariant -/

/-- Everything later results use about a state at time `now`. -/
structure State.Sound (now : Nat) (s : State) : Prop where
  configured : s.Configured
  loans : ∀ b, (s.readLoan b).WellFormed now

theorem construct_sound (owner vault : Address) (now : Nat) :
    (construct owner vault).Sound now := by
  refine ⟨⟨by simp [construct], rfl, ?_⟩, fun b => Loan.WellFormed.of_zeroed now⟩
  intro t
  simp only [State.minHoldSecs, construct, Store.getD_set, Store.getD_empty, secondsPerDay]
  split_ifs <;> omega

theorem State.Sound.writeLoan {s s' : State} {now later : Nat} {b : Address} {l : Loan}
    (h : s.Sound now) (hle : now ≤ later) (hconf : s'.Configured)
    (hread : ∀ c, s'.readLoan c = if c = b then l else s.readLoan c) (hl : l.WellFormed later) :
    s'.Sound later := by
  refine ⟨hconf, fun c => ?_⟩
  rw [hread c]
  split
  · exact hl
  · exact (h.loans c).later hle

theorem Effect.sound {e : Env} {s s' : State} {op : Op} {now : Nat} (h : Effect e s op s')
    (hs : s.Sound now) (hle : now ≤ e.timestamp) : s'.Sound e.timestamp := by
  have hconf := hs.configured
  cases h with
  | frame hloan _ _ hconf' =>
      refine ⟨hconf' hconf, fun c => ?_⟩
      rw [State.readLoan, hloan]
      exact (hs.loans c).later hle
  | @opened b principal tenorDays feeBps l offer _ hpos _ _ hget ht hf hrec =>
      obtain ⟨ht', hf'⟩ := hconf.offers b offer hget
      rcases openedLoan_live hpos (by omega) (by omega) hrec with
        ⟨hlive, hactive, hdef, hstart, _⟩
      refine hs.writeLoan (b := b) (l := l) hle ?_ (fun c => State.readLoan_writeLoan _ b c l)
        ⟨by simp [hactive], fun _ => hlive, fun _ => hstart.le, by simp [hdef]⟩
      refine ⟨?_, hconf.latePeriod, hconf.minHold⟩
      intro c offer' hget'
      simp only [State.writeLoan, Store.get?_remove] at hget'
      split at hget'
      · cases hget'
      · exact hconf.offers c offer' hget'
  | @accrued b acc hactive hacc =>
      have hwf := hs.loans b
      obtain ⟨x, hx, rfl⟩ := accruedInMemory_spec hwf.amountDue_nonneg hacc
      refine hs.writeLoan hle ⟨hconf.offers, hconf.latePeriod, hconf.minHold⟩
        (fun c => State.readLoan_writeLoan _ b c _) ?_
      have hlive := (hwf.live hactive).accrue hx e.timestamp
      rw [Loan.advance_eq] at hlive ⊢
      refine ⟨by simp [hactive], fun _ => hlive, fun _ => (hwf.start_le hactive).trans hle,
        fun hd => ?_⟩
      have := (hwf.defaulted hd).2
      exact ⟨hactive, by simp only; omega⟩
  | @closed _ b acc paid =>
      exact hs.writeLoan (b := b) hle ⟨hconf.offers, hconf.latePeriod, hconf.minHold⟩
        (fun c => by simp [closedState, State.readLoan_writeLoan]) (Loan.WellFormed.of_zeroed _)
  | @reduced b acc paid interest _ _ hactive hacc hshort hhealthy hsplit =>
      have hwf := hs.loans b
      obtain ⟨x, hx, rfl⟩ := accruedInMemory_spec hwf.amountDue_nonneg hacc
      have hlive := ((hwf.live hactive).accrue hx e.timestamp).reduce (by simpa using hshort)
        (by simpa using hsplit)
      simp only [Loan.advance_eq] at hlive ⊢
      exact hs.writeLoan hle ⟨hconf.offers, hconf.latePeriod, hconf.minHold⟩
        (fun c => State.readLoan_writeLoan _ b c _)
        ⟨by simp [hactive], fun _ => hlive, fun _ => (hwf.start_le hactive).trans hle,
          fun hd => absurd (hhealthy.symm.trans hd) (by decide)⟩
  | @defaulted b _ hactive hfresh hlate =>
      have hwf := hs.loans b
      have hlive := hwf.live hactive
      rw [hconf.latePeriod] at hlate
      refine hs.writeLoan (l := { s.readLoan b with defaulted := true }) hle
        ⟨hconf.offers, hconf.latePeriod, hconf.minHold⟩
        (fun c => State.readLoan_writeLoan _ b c _) ?_
      exact ⟨by simp [hactive], fun _ => ⟨hlive.principal_pos, hlive.principal_le, hlive.tenor_pos,
        hlive.fee_pos, hlive.due_eq, hlive.due_fits, hlive.start_lt⟩,
        fun _ => (hwf.start_le hactive).trans hle, fun _ => ⟨hactive, hlate⟩⟩

theorem exec_sound {e : Env} {s : State} {op : Op} {o : Outcome State Ret} {now : Nat}
    (h : exec e s op = .ok o) (hs : s.Sound now) (hle : now ≤ e.timestamp) :
    o.state.Sound e.timestamp :=
  (exec_effect h).sound hs hle

/-! ## Runs -/

theorem Step.exec_ok {s t : Clocked State} {label : Call × (List Event × Ret)}
    (h : Step s label t) : ∃ o, exec label.1.1 s.state label.1.2 = .ok o ∧ o.state = t.state := by
  obtain ⟨o, ho, hsplit⟩ := map_eq_ok.mp h.exec_eq
  exact ⟨o, ho, congrArg Prod.fst hsplit⟩

theorem Step.sound {s t : Clocked State} {label : Call × (List Event × Ret)}
    (h : Step s label t) (hs : s.state.Sound s.now) : t.state.Sound t.now := by
  obtain ⟨o, ho, hstate⟩ := h.exec_ok
  rw [← hstate, h.now_eq]
  exact exec_sound ho hs h.clock

theorem Reachable.sound {s : Clocked State} (h : Reachable s) : s.state.Sound s.now := by
  obtain ⟨owner, vault, now, labels, run⟩ := h
  exact run.invariant (P := fun s => s.state.Sound s.now)
    (fun _ _ _ hs hstep => Step.sound hstep hs) (construct_sound owner vault now)

end Lendoor.LoanManager
