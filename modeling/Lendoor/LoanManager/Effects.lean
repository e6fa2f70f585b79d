import Lendoor.LoanManager.Accrual

/-! # What a successful call does

One inversion lemma for each entry point that touches a loan, and `exec_effect`,
which classifies every successful call of the contract by its effect on the loan
records and the cooldowns. Invariants are proved from the classification and
never unfold the contract again.
-/

namespace Lendoor.LoanManager

/-! ## Storage reads after writes -/

namespace State

@[simp] theorem readLoan_writeLoan_self (s : State) (a : Address) (l : Loan) :
    (s.writeLoan a l).readLoan a = l := by
  simp [readLoan, writeLoan]

theorem writeLoan_writeLoan (s : State) (b : Address) (l l' : Loan) :
    (s.writeLoan b l).writeLoan b l' = s.writeLoan b l' := by
  simp only [writeLoan, Store.set_set]

theorem readLoan_writeLoan (s : State) (a b : Address) (l : Loan) :
    (s.writeLoan a l).readLoan b = if b = a then l else s.readLoan b := by
  simp [readLoan, writeLoan, Store.getD_set]

@[simp] theorem readLoan_writeNextBorrow (s : State) (a b : Address) (ts : Nat) :
    (s.writeNextBorrow a ts).readLoan b = s.readLoan b := rfl

theorem readNextBorrow_writeNextBorrow (s : State) (a b : Address) (ts : Nat) :
    (s.writeNextBorrow a ts).readNextBorrow b = if b = a then ts else s.readNextBorrow b := by
  simp [readNextBorrow, writeNextBorrow, Store.getD_set]

end State

/-! ## Opening -/

/-- First-day charge of an opened loan: a day of the fee, or all of it when a day
rounds to zero. -/
def firstDay (principal : Int) (tenorDays feeBps : Nat) : Int :=
  if 0 < principal * feeBps / bpsDenom / tenorDays then
    principal * feeBps / bpsDenom / tenorDays
  else principal * feeBps / bpsDenom

theorem firstDay_nonneg {principal : Int} (hp : 0 < principal) (tenorDays feeBps : Nat) :
    0 ≤ firstDay principal tenorDays feeBps := by
  unfold firstDay
  split
  · omega
  · exact Int.ediv_nonneg (by positivity) (by decide)

/-- Where accrual of an opened loan resumes: one day in, or at the due time when
the whole fee was charged. -/
def firstAnchor (now : Nat) (principal : Int) (tenorDays feeBps : Nat) : Nat :=
  if 0 < principal * feeBps / bpsDenom / tenorDays then now + secondsPerDay
  else now + tenorDays * secondsPerDay

theorem openedLoan_spec {now grace : Nat} {principal : Int} {tenorDays feeBps : Nat} {l : Loan}
    (hp : 0 < principal) (ht : 1 ≤ tenorDays)
    (h : openedLoan now grace principal tenorDays feeBps = .ok l) :
    U64.Fits (now + tenorDays * secondsPerDay) ∧
      l = ⟨principal, principal + firstDay principal tenorDays feeBps, now,
        now + tenorDays * secondsPerDay, feeBps, grace, tenorDays, true, false,
        firstAnchor now principal tenorDays feeBps⟩ := by
  simp only [openedLoan, bind_eq_ok, unwrapOr_eq_ok, I128.mul_eq_some, I128.div_eq_some,
    U64.mul_eq_some, U64.add_eq_some, I128.add_eq_some, ite_eq_ok, pure_eq_ok] at h
  rcases h with
    ⟨_, ⟨rfl, _⟩, fullFee, ⟨_, hfull, _⟩, f, ⟨_, hf, _⟩, _, ⟨rfl, _⟩, _, ⟨rfl, hfits⟩, h⟩
  have hscaled : 0 ≤ principal * feeBps := by positivity
  rw [Int.tdiv_eq_ediv_of_nonneg hscaled] at hfull
  have hfullnn : 0 ≤ fullFee := hfull ▸ Int.ediv_nonneg hscaled (by decide)
  rw [Int.tdiv_eq_ediv_of_nonneg hfullnn] at hf
  subst hfull hf
  refine ⟨hfits, ?_⟩
  obtain ⟨hpos, _, ⟨rfl, _⟩, _, rfl, _, ⟨rfl, _⟩, rfl⟩ | ⟨hneg, _, rfl, _, ⟨rfl, _⟩, rfl⟩ := h
  · -- the anchor is `min (now + day) due`, and a tenor of at least one day reaches the day
    have hday : now + secondsPerDay ≤ now + tenorDays * secondsPerDay := by
      unfold secondsPerDay
      omega
    have hanchor : (if now + secondsPerDay < now + tenorDays * secondsPerDay then
        now + secondsPerDay else now + tenorDays * secondsPerDay) = now + secondsPerDay := by
      split <;> omega
    simp only [hanchor, firstAnchor, firstDay, if_pos hpos]
  · simp only [firstAnchor, firstDay, if_neg hneg]

theorem openLoan_spec {e : Env} {s : State} {b : Address} {principal : Int}
    {tenorDays feeBps : Nat} {o : Outcome State Unit}
    (h : openLoan e s b principal tenorDays feeBps = .ok o) :
    e.auth s.config.vault = true ∧ 0 < principal ∧ s.readNextBorrow b ≤ e.timestamp ∧
      (s.readLoan b).active = false ∧ principal ≤ creditLimit e s b ∧
      (∃ offer, s.offer.get? b = some offer ∧ e.timestamp ≤ offer.validUntil ∧
        offer.tenorDays = tenorDays ∧ offer.feeBps = feeBps ∧ principal ≤ offer.maxAmount) ∧
      ∃ l, openedLoan e.timestamp s.config.defaultGracePeriod principal tenorDays feeBps = .ok l ∧
        o.state = State.writeLoan { s with offer := s.offer.remove b } b l ∧
        o.events = [.loanopen b principal l.amountDue l.due] := by
  simp only [openLoan, bind_eq_ok, unwrapOr_eq_ok, panicIf_eq_ok, Env.requireAuth_eq_ok,
    pure_eq_ok] at h
  obtain ⟨_, hauth, _, hpos, _, hcool, _, hactive, _, hlimit, offer, hoffer, _, hvalid, _, htenor,
    _, hfee, _, hmax, l, hl, rfl⟩ := h
  refine ⟨hauth, by omega, ?_, by simpa using hactive, by omega,
    ⟨offer, hoffer, by omega, ?_, ?_, by omega⟩, l, hl, rfl, rfl⟩
  · by_contra hlt
    exact hcool ⟨by omega, by omega⟩
  · exact (not_not.mp htenor).symm
  · exact (not_not.mp hfee).symm

/-! ## Closing and paying -/

/-- Earliest next borrow written by a close. -/
def waitUntil (e : Env) (s : State) (l : Loan) : Nat :=
  max e.timestamp (l.start + s.minHoldSecs l.tenorDays)

/-- The state after a close of `b`'s loan. -/
def closedState (e : Env) (s : State) (b : Address) (l : Loan) : State :=
  (s.writeNextBorrow b (waitUntil e s l)).writeLoan b Loan.zeroed

theorem closedState_readLoan (e : Env) (s : State) (b a : Address) (l : Loan) :
    (closedState e s b l).readLoan a = if a = b then Loan.zeroed else s.readLoan a :=
  State.readLoan_writeLoan (s.writeNextBorrow b (waitUntil e s l)) b a Loan.zeroed

theorem closedState_readNextBorrow (e : Env) (s : State) (b a : Address) (l : Loan) :
    (closedState e s b l).readNextBorrow a =
      if a = b then waitUntil e s l else s.readNextBorrow a :=
  State.readNextBorrow_writeNextBorrow s b a _

theorem finishClose_eq_ok {e : Env} {s : State} {b : Address} {l : Loan} {paid : Int}
    {o : Outcome State Unit} :
    finishClose e s b l paid = .ok o ↔
      U64.Fits (l.start + s.minHoldSecs l.tenorDays) ∧
        o = ⟨closedState e s b l, [.loanclos b paid], ()⟩ := by
  have hwait : (if e.timestamp ≥ l.start + s.minHoldSecs l.tenorDays then e.timestamp
      else l.start + s.minHoldSecs l.tenorDays) = waitUntil e s l := by
    rw [waitUntil, max_def]
    split <;> split <;> omega
  simp only [finishClose, bind_eq_ok, unwrapOr_eq_ok, U64.add_eq_some, pure_eq_ok]
  constructor
  · intro h
    obtain ⟨_, ⟨rfl, hfits⟩, rfl⟩ := h
    exact ⟨hfits, by rw [hwait]; rfl⟩
  · intro h
    obtain ⟨hfits, rfl⟩ := h
    exact ⟨_, ⟨rfl, hfits⟩, by rw [hwait]; rfl⟩

/-- A call made by the vault sees the ledger time of its caller. -/
@[simp] theorem accruedInMemory_subcall (e : Env) (l : Loan) (p : PremiumConfig) :
    accruedInMemory e.subcall l p = accruedInMemory e l p := rfl

/-- What a payment on an active loan does, either way. `acc` is the accrued record. -/
theorem applyPayment_spec {e : Env} {s : State} {b : Address} {paid : Int}
    {o : Outcome State (Int × Int × Int)} (h : applyPayment e s b paid = .ok o) :
    e.auth s.config.vault = true ∧ 0 < paid ∧ (s.readLoan b).active = true ∧
      ∃ acc, accruedInMemory e (s.readLoan b) (s.readPremium b) = .ok acc ∧
        ((acc.amountDue ≤ paid ∧ U64.Fits (acc.start + s.minHoldSecs acc.tenorDays) ∧
            o = ⟨closedState e s b acc, [.loanclos b paid],
              (acc.principal, paid - acc.principal, 0)⟩) ∨
          (paid < acc.amountDue ∧ acc.defaulted = false ∧
            ∃ interest, interest = min paid (acc.amountDue - acc.principal) ∧
              o = ⟨s.writeLoan b { acc.advance e.timestamp with
                    amountDue := acc.amountDue - paid
                    principal := acc.principal - (paid - interest) },
                [.partpay b (paid - interest) interest (acc.amountDue - paid)],
                (paid - interest, interest, acc.amountDue - paid)⟩)) := by
  simp only [applyPayment, bind_eq_ok, ite_eq_ok, panicIf_eq_ok, Env.requireAuth_eq_ok,
    unwrapOr_eq_ok, I128.sub_eq_some, finishClose_eq_ok, pure_eq_ok] at h
  obtain ⟨_, hauth, _, hpos, _, hactive, acc, hacc, h⟩ := h
  refine ⟨hauth, by omega, by simpa using hactive, acc, hacc, ?_⟩
  rw [Loan.advance_eq] at h
  obtain ⟨hge, _, ⟨rfl, _⟩, _, ⟨hfits, rfl⟩, rfl⟩ |
    ⟨hlt, _, hdef, _, ⟨rfl, _⟩, _, ⟨rfl, _⟩, _, ⟨rfl, _⟩, _, ⟨rfl, _⟩, rfl⟩ := h
  · exact .inl ⟨hge, hfits, rfl⟩
  · refine .inr ⟨by simpa using hlt, by simpa using hdef, _, rfl, ?_⟩
    simp only [Loan.advance_eq, min_def_lt]

theorem closeLoan_spec {e : Env} {s : State} {b : Address} {paid : Int} {o : Outcome State Unit}
    (h : closeLoan e s b paid = .ok o) :
    e.auth s.config.vault = true ∧ (s.readLoan b).active = true ∧
      ∃ acc, accruedInMemory e (s.readLoan b) (s.readPremium b) = .ok acc ∧ acc.amountDue ≤ paid ∧
        o.state = closedState e s b acc := by
  simp only [closeLoan, bind_eq_ok, panicIf_eq_ok, Env.requireAuth_eq_ok, finishClose_eq_ok] at h
  obtain ⟨_, hauth, _, hactive, acc, hacc, _, hpaid, _, rfl⟩ := h
  exact ⟨hauth, by simpa using hactive, acc, hacc, by omega, rfl⟩

theorem accrueLate_spec {e : Env} {s : State} {b : Address} {o : Outcome State Unit}
    (h : accrueLate e s b = .ok o) :
    ((s.readLoan b).active = false ∧ o.state = s) ∨
      ((s.readLoan b).active = true ∧
        ∃ acc, accruedInMemory e (s.readLoan b) (s.readPremium b) = .ok acc ∧
          o.state = s.writeLoan b (acc.advance e.timestamp)) := by
  simp only [accrueLate, ite_eq_ok, bind_eq_ok, pure_eq_ok] at h
  obtain ⟨hinactive, rfl⟩ | ⟨hactive, acc, hacc, rfl⟩ := h
  · exact .inl ⟨hinactive, rfl⟩
  · exact .inr ⟨by simpa using hactive, acc, hacc, rfl⟩

/-- The state after `b`'s loan was marked defaulted. -/
def defaultedState (e : Env) (s : State) (b : Address) : State :=
  State.writeNextBorrow { s.writeLoan b { s.readLoan b with defaulted := true } with
    risk := zeroLimit s.risk b } b (e.timestamp + 30 * secondsPerDay)

theorem defaultedState_readLoan (e : Env) (s : State) (b a : Address) :
    (defaultedState e s b).readLoan a =
      if a = b then { s.readLoan b with defaulted := true } else s.readLoan a :=
  State.readLoan_writeLoan s b a _

theorem defaultedState_readNextBorrow (e : Env) (s : State) (b a : Address) :
    (defaultedState e s b).readNextBorrow a =
      if a = b then e.timestamp + 30 * secondsPerDay else s.readNextBorrow a :=
  State.readNextBorrow_writeNextBorrow s b a _

theorem markDefault_spec {e : Env} {s : State} {b : Address} {o : Outcome State Unit}
    (h : markDefault e s b = .ok o) :
    e.auth s.owner = true ∧ (s.readLoan b).active = true ∧ (s.readLoan b).defaulted = false ∧
      (s.readLoan b).due + (s.readLoan b).gracePeriod + s.config.defaultLatePeriod < e.timestamp ∧
      o.state = defaultedState e s b := by
  simp only [markDefault, bind_eq_ok, panicIf_eq_ok, Env.requireAuth_eq_ok, unwrapOr_eq_ok,
    U64.add_eq_some, pure_eq_ok] at h
  rcases h with
    ⟨_, hauth, _, hactive, _, hdef, _, ⟨rfl, _⟩, _, ⟨rfl, _⟩, _, hlate, _, ⟨rfl, _⟩, rfl⟩
  exact ⟨hauth, by simpa using hactive, by simpa using hdef, by omega, rfl⟩

/-! ## Classification of every call -/

/-- Configuration facts that the setters check and nothing else touches. -/
structure State.Configured (s : State) : Prop where
  offers : ∀ b offer, s.offer.get? b = some offer → 1 ≤ offer.tenorDays ∧ 1 ≤ offer.feeBps
  latePeriod : s.config.defaultLatePeriod = 15 * secondsPerDay
  minHold : ∀ tenorDays, s.minHoldSecs tenorDays < 2 ^ 32 * secondsPerDay

/-- The effect of a successful call on loan records, cooldowns and configuration. -/
inductive Effect (e : Env) (s : State) : Op → State → Prop
  | frame {op : Op} {s' : State} (loan : s'.loan = s.loan)
      (nextBorrow : s'.nextBorrow = s.nextBorrow)
      (vault : s'.config.vault = s.config.vault ∨ op = .setVault s'.config.vault)
      (configured : s.Configured → s'.Configured) (quiet : ∀ b, op ≠ .markDefault b) :
      Effect e s op s'
  | opened {b : Address} {principal : Int} {tenorDays feeBps : Word32} {l : Loan}
      {offer : LoanOffer} (auth : e.auth s.config.vault = true) (positive : 0 < principal)
      (cooled : s.readNextBorrow b ≤ e.timestamp) (inactive : (s.readLoan b).active = false)
      (found : s.offer.get? b = some offer) (tenor : offer.tenorDays = tenorDays)
      (fee : offer.feeBps = feeBps)
      (record : openedLoan e.timestamp s.config.defaultGracePeriod principal tenorDays feeBps =
        .ok l) :
      Effect e s (.openLoan b principal tenorDays feeBps)
        (State.writeLoan { s with offer := s.offer.remove b } b l)
  | accrued {b : Address} {acc : Loan} (active : (s.readLoan b).active = true)
      (accrual : accruedInMemory e (s.readLoan b) (s.readPremium b) = .ok acc) :
      Effect e s (.accrueLate b) (s.writeLoan b (acc.advance e.timestamp))
  | closed {op : Op} {b : Address} {acc : Loan} {paid : Int}
      (call : op = .closeLoan b paid ∨ op = .applyPayment b paid)
      (auth : e.auth s.config.vault = true) (active : (s.readLoan b).active = true)
      (accrual : accruedInMemory e (s.readLoan b) (s.readPremium b) = .ok acc)
      (covers : acc.amountDue ≤ paid) : Effect e s op (closedState e s b acc)
  | reduced {b : Address} {acc : Loan} {paid interest : Int} (auth : e.auth s.config.vault = true)
      (positive : 0 < paid) (active : (s.readLoan b).active = true)
      (accrual : accruedInMemory e (s.readLoan b) (s.readPremium b) = .ok acc)
      (short : paid < acc.amountDue) (healthy : acc.defaulted = false)
      (split : interest = min paid (acc.amountDue - acc.principal)) :
      Effect e s (.applyPayment b paid) (s.writeLoan b { acc.advance e.timestamp with
        amountDue := acc.amountDue - paid
        principal := acc.principal - (paid - interest) })
  | defaulted {b : Address} (auth : e.auth s.owner = true) (active : (s.readLoan b).active = true)
      (fresh : (s.readLoan b).defaulted = false)
      (late : (s.readLoan b).due + (s.readLoan b).gracePeriod + s.config.defaultLatePeriod <
        e.timestamp) : Effect e s (.markDefault b) (defaultedState e s b)

theorem State.Configured.set_offer {s : State} (h : s.Configured) (b : Address) (offer : LoanOffer)
    (ht : 1 ≤ offer.tenorDays) (hf : 1 ≤ offer.feeBps) :
    State.Configured { s with offer := s.offer.set b offer } := by
  refine ⟨?_, h.latePeriod, h.minHold⟩
  intro c offer' hget
  rw [Store.get?_set] at hget
  split at hget
  · cases hget
    exact ⟨ht, hf⟩
  · exact h.offers c offer' hget

theorem State.Configured.set_minHold {s : State} (h : s.Configured)
    (tenorDays minHoldDays : Word32) :
    State.Configured
      { s with minHold := s.minHold.set tenorDays (minHoldDays * secondsPerDay) } := by
  refine ⟨h.offers, h.latePeriod, ?_⟩
  intro t
  simp only [State.minHoldSecs, Store.getD_set]
  split
  · have := minHoldDays.isLt
    unfold secondsPerDay
    omega
  · exact h.minHold t

theorem exec_effect {e : Env} {s : State} {op : Op} {o : Outcome State Ret}
    (h : exec e s op = .ok o) : Effect e s op o.state := by
  cases op <;> simp only [exec, map_eq_ok] at h <;> obtain ⟨o, h, rfl⟩ := h
  case setOwner a =>
    simp only [setOwner, bind_eq_ok, pure_eq_ok] at h
    obtain ⟨_, _, rfl⟩ := h
    exact .frame rfl rfl (.inl rfl) (fun hc => ⟨hc.offers, hc.latePeriod, hc.minHold⟩)
      (by simp)
  case setVault a =>
    simp only [setVault, bind_eq_ok, pure_eq_ok] at h
    obtain ⟨_, _, rfl⟩ := h
    exact .frame rfl rfl (.inr rfl) (fun hc => ⟨hc.offers, hc.latePeriod, hc.minHold⟩)
      (by simp)
  case setDefaultGracePeriod secs =>
    simp only [setDefaultGracePeriod, bind_eq_ok, pure_eq_ok] at h
    obtain ⟨_, _, rfl⟩ := h
    exact .frame rfl rfl (.inl rfl) (fun hc => ⟨hc.offers, hc.latePeriod, hc.minHold⟩)
      (by simp)
  case setMinHoldForTenor t d =>
    simp only [setMinHoldForTenor, bind_eq_ok, unwrapOr_eq_ok, U64.mul_eq_some, pure_eq_ok] at h
    obtain ⟨_, _, _, ⟨rfl, _⟩, rfl⟩ := h
    exact .frame rfl rfl (.inl rfl) (fun hc => State.Configured.set_minHold hc t d) (by simp)
  case setUserRisk a sc k v lim =>
    simp only [setUserRisk, bind_eq_ok, pure_eq_ok] at h
    obtain ⟨_, _, _, _, rfl⟩ := h
    exact .frame rfl rfl (.inl rfl) (fun hc => ⟨hc.offers, hc.latePeriod, hc.minHold⟩)
      (by simp)
  case setLoanOffer b t f v m =>
    simp only [setLoanOffer, bind_eq_ok, panicIf_eq_ok, pure_eq_ok] at h
    obtain ⟨_, _, _, hparam, _, _, rfl⟩ := h
    exact .frame rfl rfl (.inl rfl)
      (fun hc => State.Configured.set_offer hc b _ (by simp only; omega) (by simp only; omega))
      (by simp)
  case setPremiumConfig b pr lr =>
    simp only [setPremiumConfig, bind_eq_ok, pure_eq_ok] at h
    obtain ⟨_, _, _, _, rfl⟩ := h
    exact .frame rfl rfl (.inl rfl) (fun hc => ⟨hc.offers, hc.latePeriod, hc.minHold⟩)
      (by simp)
  case openLoan b p t f =>
    rcases openLoan_spec h with
      ⟨hauth, hpos, hcool, hinactive, _, ⟨offer, hget, _, ht, hf, _⟩, l, hl, hstate, _⟩
    rw [Outcome.as_state, hstate]
    exact .opened hauth hpos hcool hinactive hget ht hf hl
  case closeLoan b paid =>
    obtain ⟨hauth, hactive, acc, hacc, hpaid, hstate⟩ := closeLoan_spec h
    rw [Outcome.as_state, hstate]
    exact .closed (.inl rfl) hauth hactive hacc hpaid
  case markDefault b =>
    obtain ⟨hauth, hactive, hfresh, hlate, hstate⟩ := markDefault_spec h
    rw [Outcome.as_state, hstate]
    exact .defaulted hauth hactive hfresh hlate
  case accrueLate b =>
    obtain ⟨_, hstate⟩ | ⟨hactive, acc, hacc, hstate⟩ := accrueLate_spec h
    · rw [Outcome.as_state, hstate]
      exact .frame rfl rfl (.inl rfl) id (by simp)
    · rw [Outcome.as_state, hstate]
      exact .accrued hactive hacc
  case applyPayment b paid =>
    rcases applyPayment_spec h with
      ⟨hauth, hpos, hactive, acc, hacc, ⟨hpaid, _, rfl⟩ | ⟨hshort, hdef, _, hsplit, rfl⟩⟩
    · exact .closed (.inr rfl) hauth hactive hacc hpaid
    · exact .reduced hauth hpos hactive hacc hshort hdef hsplit

theorem zeroLimit_limit (s : State) (b : Address) :
    ((zeroLimit s.risk b).getD b ⟨0, false, 0, 0, 0⟩).limit = 0 := by
  unfold zeroLimit
  split
  · simp
  · rename_i hnone
    simp [Store.getD, hnone]

theorem zeroLimit_keeps_zero {s : State} {a b : Address} (hzero : (getUserRisk s b).limit = 0) :
    ((zeroLimit s.risk a).getD b ⟨0, false, 0, 0, 0⟩).limit = 0 := by
  by_cases hab : b = a
  · subst hab
    exact zeroLimit_limit s b
  · unfold zeroLimit
    split
    · rw [Store.getD_set_of_ne _ hab]
      exact hzero
    · exact hzero

/-- Profiles are written by `set_user_risk`, and a default zeroes the limit. -/
theorem exec_risk {e : Env} {s : State} {op : Op} {o : Outcome State Ret}
    (h : exec e s op = .ok o) :
    o.state.risk = s.risk ∨ (∃ b, op = .markDefault b ∧ o.state.risk = zeroLimit s.risk b) ∨
      ∃ b score kycOk validUntil limit risk, op = .setUserRisk b score kycOk validUntil limit ∧
        o.state.risk = s.risk.set b risk := by
  cases op <;> simp only [exec, map_eq_ok] at h <;> obtain ⟨o, h, rfl⟩ := h
  case setUserRisk b score kycOk validUntil limit =>
    simp only [setUserRisk, bind_eq_ok, pure_eq_ok] at h
    obtain ⟨_, _, _, _, rfl⟩ := h
    exact .inr (.inr ⟨b, score, kycOk, validUntil, limit, _, rfl, rfl⟩)
  case markDefault b =>
    obtain ⟨_, _, _, _, hstate⟩ := markDefault_spec h
    rw [Outcome.as_state, hstate]
    exact .inr (.inl ⟨b, rfl, rfl⟩)
  all_goals refine .inl ?_
  case setOwner | setVault | setDefaultGracePeriod =>
    simp only [setOwner, setVault, setDefaultGracePeriod, bind_eq_ok, pure_eq_ok] at h
    obtain ⟨_, _, rfl⟩ := h
    rfl
  case setMinHoldForTenor | setPremiumConfig =>
    simp only [setMinHoldForTenor, setPremiumConfig, bind_eq_ok, pure_eq_ok] at h
    obtain ⟨_, _, _, _, rfl⟩ := h
    rfl
  case setLoanOffer =>
    simp only [setLoanOffer, bind_eq_ok, pure_eq_ok] at h
    obtain ⟨_, _, _, _, _, _, rfl⟩ := h
    rfl
  case openLoan =>
    rcases openLoan_spec h with ⟨_, _, _, _, _, _, _, _, hstate, _⟩
    rw [Outcome.as_state, hstate]
    rfl
  case closeLoan =>
    obtain ⟨_, _, _, _, _, hstate⟩ := closeLoan_spec h
    rw [Outcome.as_state, hstate]
    rfl
  case accrueLate =>
    rw [Outcome.as_state]
    obtain ⟨_, hstate⟩ | ⟨_, _, _, hstate⟩ := accrueLate_spec h
    · rw [hstate]
    · rw [hstate]
      rfl
  case applyPayment =>
    rcases applyPayment_spec h with ⟨_, _, _, _, _, ⟨_, _, rfl⟩ | ⟨_, _, _, _, rfl⟩⟩ <;> rfl

theorem exec_keeps_zero_limit {e : Env} {s : State} {op : Op} {o : Outcome State Ret} {b : Address}
    (h : exec e s op = .ok o)
    (hop : ∀ score kycOk validUntil limit, op ≠ .setUserRisk b score kycOk validUntil limit)
    (hzero : (getUserRisk s b).limit = 0) : (getUserRisk o.state b).limit = 0 := by
  rcases exec_risk h with hrisk | ⟨a, rfl, hrisk⟩ |
    ⟨a, score, kycOk, validUntil, limit, risk, rfl, hrisk⟩
  · rw [getUserRisk, hrisk]
    exact hzero
  · rw [getUserRisk, hrisk]
    exact zeroLimit_keeps_zero hzero
  · have hne : b ≠ a := by
      rintro rfl
      exact hop score kycOk validUntil limit rfl
    rw [getUserRisk, hrisk, Store.getD_set_of_ne _ hne]
    exact hzero

/-- Only `set_vault` rewires the contract. -/
theorem Effect.vault_eq {e : Env} {s s' : State} {op : Op} (h : Effect e s op s') :
    s'.config.vault = s.config.vault ∨ op = .setVault s'.config.vault := by
  cases h with
  | frame _ _ hvault => exact hvault
  | _ => exact .inl rfl

end Lendoor.LoanManager
