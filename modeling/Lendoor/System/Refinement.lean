import Lendoor.System.Machine

/-! # The composed contracts refine the lending pool

Every successful call of the composed system is one allowed action on the books
of the vault, and which one is read off the call and what it returned. The books
stay sound along every run, and so does everything the pool guarantees.
-/

namespace Lendoor

/-! ## The invariant of the composed state -/

/-- What holds of every reachable state: balanced books, well-formed loan records,
a loan manager wired to the vault, and a vault without shares in itself. -/
structure World.Sound (v : Address) (now : Nat) (w : World) : Prop where
  books : (w.pool v).Sound
  loanManager : w.loanManager.Sound now
  wired : w.loanManager.config.vault = v
  vault_shares : w.vault.sharesOf v = 0
  borrows_fit : I128.Fits w.vault.totalBorrows

namespace System

/-! ## The action of a call -/

/-- What the vault keeps of the interest of a payment. -/
def gain (v : Address) (w : World) (r : Vault.Payment) : Int :=
  r.interestPaid - if w.vault.config.feeRecipient = v then 0 else r.fee

def paymentAction (v : Address) (w : World) (b : Address) (r : Vault.Payment) :
    Pool.Action Address :=
  if r.remaining = 0 then .settle b (gain v w r) else .collect b r.principalPaid (gain v w r)

/-- The part of a requested write-off that is still counted. -/
def writeOffAction (w : World) (b : Address) (amount : Int) : Pool.Action Address :=
  let amt := min amount (max 0 ((w.loanManager.readLoan b).principal - w.vault.readWrittenOff b))
  if amt ≤ 0 then .idle else .writeOff b amt

def action (v : Address) (w : World) : Op → Ret → Pool.Action Address
  | .vault (.deposit a assets), .vault (.amount shares) => .mint a assets shares
  | .vault (.depositFrom _ b assets), .vault (.amount shares) => .mint b assets shares
  | .vault (.withdraw a assets), .vault (.amount shares) => .burn a assets shares
  | .vault (.redeem a shares), .vault (.amount assets) => .burn a assets shares
  | .vault (.borrowWithTerm b amount _ _), _ => .lend b amount
  | .vault (.repay _ b), .vault (.payment r) => paymentAction v w b r
  | .vault (.repayPartial _ b _), .vault (.payment r) => paymentAction v w b r
  | .vault (.manualWriteOff b amount), _ => writeOffAction w b amount
  | .loanManager (.markDefault b), _ => .impair b
  | .transfer _ target amount, _ => if target = v then .donate amount else .idle
  | _, _ => .idle

/-! ## The books after a write -/

theorem read_writeLoan {α : Type} (f : LoanManager.Loan → α) (s : LoanManager.State) (b : Address)
    (l : LoanManager.Loan) :
    (fun a => f ((s.writeLoan b l).readLoan a)) =
      Function.update (fun a => f (s.readLoan a)) b (f l) := by
  funext a
  rw [LoanManager.State.readLoan_writeLoan, Function.update_apply]
  split <;> rfl

theorem readWrittenOff_setWrittenOff (s : Vault.State) (b : Address) (amount : Int) :
    (s.setWrittenOff b amount).readWrittenOff =
      Function.update s.readWrittenOff b amount := by
  funext a
  rw [Function.update_apply]
  unfold Vault.State.setWrittenOff Vault.State.readWrittenOff
  by_cases hzero : amount = 0
  · simp [hzero, Store.getD_remove]
  · simp [hzero, Store.getD_set]

/-- Writing back the accrued balance of a loan does not show in the books. -/
theorem pool_accrued (v : Address) (w : World) {b : Address} {l : LoanManager.Loan}
    (hp : l.principal = (w.loanManager.readLoan b).principal)
    (hd : l.defaulted = (w.loanManager.readLoan b).defaulted) :
    World.pool v { w with loanManager := w.loanManager.writeLoan b l } = w.pool v := by
  simp only [World.pool, read_writeLoan LoanManager.Loan.principal,
    read_writeLoan LoanManager.Loan.defaulted, hp, hd, Function.update_eq_self]

/-! ## Each entry point refines its action -/

section Simulation

variable {v : Address} {now : Nat} {e : Env} {w : World}

theorem ne_vault_of_auth {a : Address} (houtsider : e.auth v = false) (hauth : e.auth a = true) :
    a ≠ v := by
  intro heq
  rw [heq, houtsider] at hauth
  cases hauth

theorem mintFor_step {w' : World} {payer beneficiary : Address} {assets shares : Int}
    (hv : e.contract = v) (hpayer : payer ≠ v) (hpos : 0 < assets) (hbooks : (w.pool v).Sound)
    (h : Vault.mintFor e w payer beneficiary assets = .ok (w', shares)) :
    Pool.Step (w.pool v) (.mint beneficiary assets shares) (w'.pool v) := by
  subst hv
  rcases Vault.mintFor_spec h with ⟨hshares, hspos, _, husdc, hvault, hlm⟩
  refine ⟨⟨hpos, hspos, ?_⟩, ?_⟩
  · rw [Vault.toShares_spec hbooks hpos.le hshares]
    exact Int.ediv_mul_le _ (by have := hbooks.assets_nonneg; omega)
  · ext1
    · simp only [World.pool, husdc, Pool.Action.apply]
      exact Token.moved_target _ _ _ _ hpayer
    · simp only [World.pool, hvault, Pool.Action.apply]
      rfl
    · simp only [World.pool, hvault, Pool.Action.apply]
      rfl
    · simp only [World.pool, hvault, Pool.Action.apply, Vault.State.credited_sharesOf]
    · simp only [World.pool, hlm, Pool.Action.apply]
    · simp only [World.pool, hvault, Pool.Action.apply]
      rfl
    · simp only [World.pool, hlm, Pool.Action.apply]

theorem burnFor_step {w' : World} {holder : Address} {shares assets : Int}
    (hv : e.contract = v) (hholder : holder ≠ v) (hshares : 0 ≤ shares)
    (hbal : shares ≤ w.vault.sharesOf holder)
    (hfair : assets * ((w.pool v).supply + 1) ≤ shares * ((w.pool v).assets + 1))
    (h : Vault.burnFor e w holder shares assets = .ok w') :
    Pool.Step (w.pool v) (.burn holder assets shares) (w'.pool v) := by
  subst hv
  rcases Vault.burnFor_eq_ok.mp h with ⟨_, _, hnn, hcash, husdc, hvault, hlm⟩
  refine ⟨⟨hnn, hcash, hshares, hbal, hfair⟩, ?_⟩
  ext1
  · simp only [World.pool, husdc, Pool.Action.apply]
    exact Token.moved_source _ _ _ _ hholder.symm
  · simp only [World.pool, hvault, Pool.Action.apply]
    rfl
  · simp only [World.pool, hvault, Pool.Action.apply]
    rfl
  · simp only [World.pool, hvault, Pool.Action.apply, Vault.State.credited_sharesOf]
    rfl
  · simp only [World.pool, hlm, Pool.Action.apply]
  · simp only [World.pool, hvault, Pool.Action.apply]
    rfl
  · simp only [World.pool, hlm, Pool.Action.apply]

theorem borrowWithTerm_step {b : Address} {amount : Int} {tenorDays feeBps : Word32}
    {o : Outcome World Int} (hv : e.contract = v) (houtsider : e.auth v = false)
    (hsound : w.Sound v now)
    (h : Vault.borrowWithTerm e w b amount tenorDays feeBps = .ok o) :
    Pool.Step (w.pool v) (.lend b amount) (o.state.pool v) := by
  subst hv
  rcases Vault.borrowWithTerm_spec h with ⟨hauth, hpos, hcash, _, husdc, hvault, opened, hopen, hlm⟩
  rcases LoanManager.openLoan_spec hopen
    with ⟨_, _, _, hinactive, _, ⟨offer, hoffer, _, ht, _, _⟩, l, hl, hstate, _⟩
  have htenor := (hsound.loanManager.configured.offers b offer hoffer).1
  rcases LoanManager.openedLoan_spec hpos (ht ▸ htenor) hl with ⟨_, rfl⟩
  have hnone : (w.loanManager.readLoan b).principal = 0 := by
    rw [(hsound.loanManager.loans b).inactive hinactive]
    rfl
  refine ⟨⟨hpos, hcash, hnone⟩, ?_⟩
  ext1
  · simp only [World.pool, husdc, Pool.Action.apply]
    exact Token.moved_source _ _ _ _ (ne_vault_of_auth houtsider hauth).symm
  · simp only [World.pool, hvault, Pool.Action.apply]
  · simp only [World.pool, hvault, Pool.Action.apply]
  · simp only [World.pool, hvault, Pool.Action.apply]
    rfl
  · simp only [World.pool, hlm, hstate, Pool.Action.apply,
      read_writeLoan LoanManager.Loan.principal]
    rfl
  · simp only [World.pool, hvault, Pool.Action.apply]
    rfl
  · simp only [World.pool, hlm, hstate, Pool.Action.apply,
      read_writeLoan LoanManager.Loan.defaulted]
    rfl

/-- The vault's balance after a payment: the amount kept, less a fee that leaves it. -/
theorem paidBalance_vault {payer : Address} {r : Vault.Payment} (hpayer : payer ≠ e.contract)
    (hsplit : r.principalPaid + r.interestPaid = r.pay) :
    Vault.paidBalance e w payer r e.contract =
      w.usdc.balance e.contract + r.principalPaid + gain e.contract w r := by
  unfold Vault.paidBalance gain
  by_cases hfee : w.vault.config.feeRecipient = e.contract
  · rw [hfee, Token.moved_self, Token.moved_target _ _ _ _ hpayer, if_pos rfl]
    omega
  · rw [Token.moved_source _ _ _ _ (Ne.symm hfee), Token.moved_target _ _ _ _ hpayer, if_neg hfee]
    omega

/-- The fee is at most the interest, so the vault never gives up principal. -/
theorem gain_nonneg {r : Vault.Payment} (hnn : 0 ≤ r.interestPaid)
    (hfee : r.fee = r.interestPaid * Vault.protocolFeeBps / Vault.bpsDenom) : 0 ≤ gain v w r := by
  unfold Vault.protocolFeeBps Vault.bpsDenom at hfee
  unfold gain
  split <;> omega

theorem paymentEffect_step {w' : World} {payer b : Address} {r : Vault.Payment}
    (hv : e.contract = v) (hpayer : payer ≠ v) (hsound : w.Sound v now)
    (hactive : (w.loanManager.readLoan b).active = true)
    (h : Vault.PaymentEffect e w payer b r w') :
    Pool.Step (w.pool v) (paymentAction v w b r) (w'.pool v) := by
  subst hv
  have hlive := (hsound.loanManager.loans b).live hactive
  have hle := hlive.principal_le
  have hbooks := hsound.books
  have hwo_le : w.vault.readWrittenOff b ≤ (w.loanManager.readLoan b).principal :=
    hbooks.writtenOff_le b
  cases h with
  | closed hfee husdc hvault hlm hacc =>
      rcases LoanManager.accruedInMemory_spec hlive.amountDue_pos.le hacc with ⟨x, hx, rfl⟩
      simp only at hfee husdc hvault hlm
      simp only [paymentAction, if_true]
      refine ⟨gain_nonneg (by simp only; omega) hfee, ?_⟩
      ext1
      · simp only [World.pool, husdc, Pool.Action.apply]
        exact paidBalance_vault hpayer (by simp only; omega)
      · simp only [World.pool, hvault, Vault.State.settled, Vault.State.lowered, Pool.Action.apply,
          Vault.State.setWrittenOff, if_true]
        omega
      · simp only [World.pool, hvault, Vault.State.settled, Pool.Action.apply]
        rfl
      · simp only [World.pool, hvault, Vault.State.settled, Pool.Action.apply]
        rfl
      · simp only [World.pool, hlm, LoanManager.closedState, Pool.Action.apply,
          read_writeLoan LoanManager.Loan.principal]
        rfl
      · simp only [World.pool, hvault, Vault.State.settled, Pool.Action.apply,
          readWrittenOff_setWrittenOff]
        rfl
      · simp only [World.pool, hlm, LoanManager.closedState, Pool.Action.apply,
          read_writeLoan LoanManager.Loan.defaulted]
        rfl
  | @reduced _ paid interest _ _ hpos hshort hhealthy hsplit hfee husdc hvault hlm hacc =>
      rcases LoanManager.accruedInMemory_spec hlive.amountDue_pos.le hacc with ⟨x, hx, rfl⟩
      simp only [LoanManager.Loan.advance_eq] at hshort hhealthy hsplit husdc hlm
      -- a healthy loan has nothing written off, so the clamp does nothing
      have hwo : w.vault.readWrittenOff b = 0 := hbooks.writtenOff_eq_zero hhealthy
      have hopen : ¬ (w.loanManager.readLoan b).amountDue + x - paid = 0 := by omega
      simp only [paymentAction, if_neg hopen]
      refine ⟨⟨by omega, ?_, gain_nonneg (by simp only; omega) hfee, hhealthy⟩, ?_⟩
      · simp only [World.pool]
        omega
      ext1
      · simp only [World.pool, husdc, Pool.Action.apply]
        exact paidBalance_vault hpayer (by simp only; omega)
      · simp only [World.pool, hvault, Vault.State.lowered, Pool.Action.apply]
        omega
      · simp only [World.pool, hvault, Pool.Action.apply]
        rfl
      · simp only [World.pool, hvault, Pool.Action.apply]
        rfl
      · simp only [World.pool, hlm, Pool.Action.apply, read_writeLoan LoanManager.Loan.principal]
      · simp only [World.pool, hvault, Pool.Action.apply]
        rfl
      · simp only [World.pool, hlm, Pool.Action.apply, read_writeLoan LoanManager.Loan.defaulted]
        exact Function.update_eq_self _ _

theorem manualWriteOff_step {b : Address} {amount : Int} {o : Outcome World Unit}
    (h : Vault.manualWriteOff e w b amount = .ok o) :
    Pool.Step (w.pool v) (writeOffAction w b amount) (o.state.pool v) := by
  rcases Vault.manualWriteOff_spec h with ⟨hdef, amt, hamt, ⟨hle, hstate⟩ | ⟨hpos, _, hstate⟩⟩
  · simp only [writeOffAction, ← hamt, if_pos hle, hstate]
    exact ⟨trivial, rfl⟩
  · simp only [writeOffAction, ← hamt, if_neg (not_le.mpr hpos), hstate]
    refine ⟨⟨hpos, ?_, hdef⟩, ?_⟩
    · simp only [World.pool]
      omega
    ext1
    · rfl
    · simp only [World.pool, Pool.Action.apply]
      unfold Vault.State.setWrittenOff
      split <;> rfl
    · simp only [World.pool, Pool.Action.apply]
      unfold Vault.State.setWrittenOff
      split <;> rfl
    · simp only [World.pool, Pool.Action.apply]
      unfold Vault.State.setWrittenOff
      split <;> rfl
    · rfl
    · simp only [World.pool, Pool.Action.apply, readWrittenOff_setWrittenOff]
      rfl
    · rfl

/-- Called from outside, the loan manager only ever flags a loan in the books:
opening, closing and paying are the vault's. -/
theorem loanManager_step {op : LoanManager.Op} {s : LoanManager.State} {r : LoanManager.Ret}
    (houtsider : e.auth v = false) (hsound : w.Sound v now)
    (h : LoanManager.Effect e w.loanManager op s) :
    Pool.Step (w.pool v) (action v w (.loanManager op) (.loanManager r))
      (World.pool v { w with loanManager := s }) := by
  have hno : e.auth w.loanManager.config.vault ≠ true := by
    rw [hsound.wired, houtsider]
    decide
  cases h with
  | frame hloan _ _ _ hquiet =>
      have hidle : action v w (.loanManager op) (.loanManager r) = .idle := by
        cases op with
        | markDefault b => exact absurd rfl (hquiet b)
        | _ => rfl
      rw [hidle]
      refine ⟨trivial, ?_⟩
      simp only [World.pool, LoanManager.State.readLoan, hloan, Pool.Action.apply]
  | opened hauth => exact absurd hauth hno
  | @accrued b acc hactive hacc =>
      rcases LoanManager.accruedInMemory_spec
        (hsound.loanManager.loans b).amountDue_nonneg hacc with ⟨x, _, rfl⟩
      refine ⟨trivial, ?_⟩
      rw [LoanManager.Loan.advance_eq]
      exact pool_accrued v w rfl rfl
  | closed _ hauth => exact absurd hauth hno
  | reduced hauth => exact absurd hauth hno
  | @defaulted b _ _ _ _ =>
      have hread : ∀ a, (LoanManager.defaultedState e w.loanManager b).readLoan a =
          (w.loanManager.writeLoan b
            { w.loanManager.readLoan b with defaulted := true }).readLoan a := fun _ => rfl
      refine ⟨trivial, ?_⟩
      simp only [action, World.pool, hread, Pool.Action.apply,
        read_writeLoan LoanManager.Loan.principal, read_writeLoan LoanManager.Loan.defaulted,
        Function.update_eq_self]

theorem transfer_step {source target : Address} {amount : Int} {usdc : Token}
    (houtsider : e.auth v = false) (h : w.usdc.transfer e source target amount = .ok usdc) :
    Pool.Step (w.pool v) (if target = v then .donate amount else .idle)
      (World.pool v { w with usdc := usdc }) := by
  rcases Token.transfer_eq_ok.mp h with ⟨hauth, hnn, _, hbal⟩
  have hsource := ne_vault_of_auth houtsider hauth
  by_cases htarget : target = v
  · subst htarget
    rw [if_pos rfl]
    refine ⟨hnn, ?_⟩
    simp only [World.pool, hbal, Token.moved_target _ _ _ _ hsource, Pool.Action.apply]
  · rw [if_neg htarget]
    refine ⟨trivial, ?_⟩
    simp only [World.pool, hbal, Token.moved_eq_off _ _ _ _ hsource.symm (Ne.symm htarget),
      Pool.Action.apply]

/-! ## The loan manager inside a call -/

/-- The call of the loan manager that an entry point makes, if it makes one. -/
def loanManagerOp : Op → Ret → Option LoanManager.Op
  | .vault (.borrowWithTerm b amount tenorDays feeBps), _ =>
      some (.openLoan b amount tenorDays feeBps)
  | .vault (.repay _ b), .vault (.payment r) => some (.applyPayment b r.pay)
  | .vault (.repayPartial _ b _), .vault (.payment r) => some (.applyPayment b r.pay)
  | .loanManager op, _ => some op
  | _, _ => none

theorem loanManagerOp_setVault {op : Op} {ret : Ret} {a : Address}
    (h : loanManagerOp op ret = some (.setVault a)) : op = .loanManager (.setVault a) := by
  unfold loanManagerOp at h
  split at h <;> simp_all

/-- The loan manager is either untouched or moved by that one call, at the same
ledger time. -/
def MovesLoanManager (e : Env) (s : LoanManager.State) (op : Op) (ret : Ret)
    (s' : LoanManager.State) : Prop :=
  match loanManagerOp op ret with
  | none => s' = s
  | some lmOp => ∃ e' o, e'.timestamp = e.timestamp ∧ LoanManager.exec e' s lmOp =
      .ok o ∧ o.state = s'

theorem paysThrough_moves {w' : World} {b : Address} {paid : Int}
    (h : Vault.PaysThrough e w b paid w') :
    ∃ e' o, e'.timestamp = e.timestamp ∧
      LoanManager.exec e' w.loanManager (.applyPayment b paid) = .ok o ∧
      o.state = w'.loanManager := by
  rcases h with ⟨o, ho, hstate⟩
  exact ⟨e.subcall, _, rfl, map_eq_ok.mpr ⟨o, ho, rfl⟩, hstate⟩

/-! ## Every call -/

/-- What a successful call does to the composed state. -/
structure Simulated (v : Address) (e : Env) (w : World) (op : Op) (ret : Ret) (w' : World) :
    Prop where
  step : Pool.Step (w.pool v) (action v w op ret) (w'.pool v)
  loanManager : MovesLoanManager e w.loanManager op ret w'.loanManager
  vault_shares : w'.vault.sharesOf v = w.vault.sharesOf v
  borrows_fit : I128.Fits w.vault.totalBorrows → I128.Fits w'.vault.totalBorrows
  recipient : w'.vault.config = w.vault.config ∨
    op = .vault (.setFeeRecipient w'.vault.config.feeRecipient)

theorem mintFor_simulated {w' : World} {payer beneficiary : Address} {assets shares : Int}
    (hben : beneficiary ≠ v) (h : Vault.mintFor e w payer beneficiary assets = .ok (w', shares)) :
    w'.loanManager = w.loanManager ∧ w'.vault.sharesOf v = w.vault.sharesOf v ∧
      w'.vault.totalBorrows = w.vault.totalBorrows ∧ w'.vault.config = w.vault.config := by
  rcases Vault.mintFor_spec h with ⟨_, _, _, _, hvault, hlm⟩
  rw [hvault, Vault.State.credited_sharesOf, Function.update_of_ne hben.symm]
  exact ⟨hlm, rfl, rfl, rfl⟩

theorem burnFor_simulated {w' : World} {holder : Address} {assets shares : Int}
    (hholder : holder ≠ v) (h : Vault.burnFor e w holder shares assets = .ok w') :
    w'.loanManager = w.loanManager ∧ w'.vault.sharesOf v = w.vault.sharesOf v ∧
      w'.vault.totalBorrows = w.vault.totalBorrows ∧ w'.vault.config = w.vault.config := by
  rcases Vault.burnFor_eq_ok.mp h with ⟨_, _, _, _, _, hvault, hlm⟩
  rw [hvault, Vault.State.credited_sharesOf, Function.update_of_ne hholder.symm]
  exact ⟨hlm, rfl, rfl, rfl⟩

theorem paymentEffect_frame {w' : World} {payer b : Address} {r : Vault.Payment}
    (h : Vault.PaymentEffect e w payer b r w') :
    w'.vault.sharesOf = w.vault.sharesOf ∧ w'.vault.config = w.vault.config := by
  cases h with
  | closed _ _ hvault =>
      rw [hvault]
      exact ⟨rfl, rfl⟩
  | reduced _ _ _ _ _ _ hvault =>
      rw [hvault]
      exact ⟨rfl, rfl⟩

theorem setWrittenOff_sharesOf (s : Vault.State) (b a : Address) (amount : Int) :
    (s.setWrittenOff b amount).sharesOf a = s.sharesOf a := by
  unfold Vault.State.setWrittenOff
  split <;> rfl

theorem setWrittenOff_totalBorrows (s : Vault.State) (b : Address) (amount : Int) :
    (s.setWrittenOff b amount).totalBorrows = s.totalBorrows := by
  unfold Vault.State.setWrittenOff
  split <;> rfl

theorem setWrittenOff_config (s : Vault.State) (b : Address) (amount : Int) :
    (s.setWrittenOff b amount).config = s.config := by
  unfold Vault.State.setWrittenOff
  split <;> rfl

theorem vault_simulated {op : Vault.Op} {o : Outcome World Vault.Ret} (hv : e.contract = v)
    (houtsider : e.auth v = false) (hsound : w.Sound v now) (h : Vault.exec e w op = .ok o) :
    Simulated v e w (.vault op) (.vault o.value) o.state := by
  have hbooks := hsound.books
  have hassets := hbooks.assets_nonneg
  have hsupply := hbooks.supply_nonneg
  have hlive : ∀ b, (w.loanManager.readLoan b).active = true → (w.loanManager.readLoan b).Live :=
    fun b => (hsound.loanManager.loans b).live
  cases op <;> simp only [Vault.exec, map_eq_ok] at h <;> obtain ⟨o, h, rfl⟩ := h
  case deposit a assets =>
    rcases Vault.deposit_spec h with ⟨hauth, hpos, hmint⟩
    have ha := ne_vault_of_auth houtsider hauth
    rcases mintFor_simulated ha hmint with ⟨hlm, hshares, hborrows, hconfig⟩
    exact ⟨mintFor_step hv ha hpos hbooks hmint, hlm, hshares, fun hfit => hborrows ▸ hfit,
      .inl hconfig⟩
  case depositFrom p b assets =>
    rcases Vault.depositFrom_spec h with ⟨hauth, hpos, hben, hmint⟩
    have hp := ne_vault_of_auth houtsider hauth
    rcases mintFor_simulated (hv ▸ hben) hmint with ⟨hlm, hshares, hborrows, hconfig⟩
    exact ⟨mintFor_step hv hp hpos hbooks hmint, hlm, hshares, fun hfit => hborrows ▸ hfit,
      .inl hconfig⟩
  case withdraw a assets =>
    rcases Vault.withdraw_spec h with ⟨hauth, hpos, hconv, hbal, hburn⟩
    have ha := ne_vault_of_auth houtsider hauth
    rcases burnFor_simulated ha hburn with ⟨hlm, hshares, hborrows, hconfig⟩
    subst hv
    have hceil := Vault.toSharesCeil_spec hbooks hpos.le hconv
    refine ⟨burnFor_step rfl ha ?_ hbal ?_ hburn, hlm, hshares, fun hfit => hborrows ▸ hfit,
      .inl hconfig⟩
    · rw [hceil]
      exact Int.ediv_nonneg (by positivity) (by omega)
    · rw [hceil]
      exact SharePool.le_ceil_mul _ hassets
  case redeem a shares =>
    rcases Vault.redeem_eq_ok.mp h with ⟨hauth, hpos, hbal, hconv, _, hburn, _⟩
    have ha := ne_vault_of_auth houtsider hauth
    rcases burnFor_simulated ha hburn with ⟨hlm, hshares, hborrows, hconfig⟩
    subst hv
    refine ⟨burnFor_step rfl ha hpos.le hbal ?_ hburn, hlm, hshares, fun hfit => hborrows ▸ hfit,
      .inl hconfig⟩
    rw [((Vault.toAssets_eq_ok hbooks hpos.le).mp hconv).2.2.2.2]
    exact Int.ediv_mul_le _ (by omega)
  case borrowWithTerm b amount t f =>
    rcases Vault.borrowWithTerm_spec h with ⟨_, _, _, hfit, _, hvault, opened, hopen, hlm⟩
    refine ⟨borrowWithTerm_step hv houtsider hsound h, ?_, ?_, fun _ => ?_, .inl ?_⟩
    · exact ⟨e.subcall, _, rfl, map_eq_ok.mpr ⟨opened, hopen, rfl⟩, hlm.symm⟩
    · simp only [Outcome.as_state, hvault]
      rfl
    · simpa only [Outcome.as_state, hvault] using hfit
    · simp only [Outcome.as_state, hvault]
  case repay p b =>
    rcases Vault.repay_spec (hlive b) h with ⟨hauth, hactive, hfit, hpays, _, heffect⟩
    have hp := ne_vault_of_auth houtsider hauth
    exact ⟨paymentEffect_step hv hp hsound hactive heffect, paysThrough_moves hpays,
      congrFun (paymentEffect_frame heffect).1 v, fun _ =>
      hfit, .inl (paymentEffect_frame heffect).2⟩
  case repayPartial p b amount =>
    rcases Vault.repayPartial_spec (hlive b) h with ⟨hauth, _, hactive, hfit, hpays, _, heffect⟩
    have hp := ne_vault_of_auth houtsider hauth
    exact ⟨paymentEffect_step hv hp hsound hactive heffect, paysThrough_moves hpays,
      congrFun (paymentEffect_frame heffect).1 v, hfit, .inl (paymentEffect_frame heffect).2⟩
  case manualWriteOff b amount =>
    have hstep := manualWriteOff_step (v := v) h
    rcases Vault.manualWriteOff_spec h with ⟨_, amt, _, ⟨_, hstate⟩ | ⟨_, hfit, hstate⟩⟩
    · rw [Outcome.as_state]
      rw [hstate] at hstep ⊢
      exact ⟨hstep, rfl, rfl, id, .inl rfl⟩
    · rw [Outcome.as_state]
      rw [hstate] at hstep ⊢
      exact ⟨hstep, rfl, setWrittenOff_sharesOf _ _ _ _,
        fun _ => (setWrittenOff_totalBorrows _ _ _).symm ▸ hfit,
        .inl (setWrittenOff_config _ _ _)⟩
  case setFeeRecipient a =>
    simp only [Vault.setFeeRecipient, bind_eq_ok, pure_eq_ok] at h
    rcases h with ⟨_, _, rfl⟩
    exact ⟨⟨trivial, rfl⟩, rfl, rfl, id, .inr rfl⟩

theorem exec_simulated {op : Op} {o : Outcome World Ret} (hv : e.contract = v)
    (houtsider : e.auth v = false) (hsound : w.Sound v now) (h : exec e w op = .ok o) :
    Simulated v e w op o.value o.state := by
  cases op <;> simp only [exec, map_eq_ok] at h <;> obtain ⟨r, h, rfl⟩ := h
  case vault op => exact vault_simulated hv houtsider hsound h
  case loanManager op =>
    exact ⟨loanManager_step houtsider hsound (LoanManager.exec_effect h), ⟨e, r, rfl, h, rfl⟩, rfl,
      id, .inl rfl⟩
  case transfer source target amount =>
    exact ⟨transfer_step houtsider h, rfl, rfl, id, .inl rfl⟩

end Simulation

/-! ## Every run -/

theorem deployed_sound (v : Address) (usdc : Token) (owner feeRecipient lmOwner : Address)
    (now : Nat) : (deployed v usdc owner feeRecipient lmOwner).Sound v now where
  books :=
    { cash_nonneg := usdc.balance_nonneg v
      shares_nonneg := fun _ => le_rfl
      shares_finite := by
        refine Set.Finite.subset Set.finite_empty ?_
        intro a ha
        exact ha rfl
      supply_eq := by simp [deployed, World.pool, Vault.construct, Vault.State.sharesOf]
      writtenOff_nonneg := fun _ => le_rfl
      writtenOff_le := fun _ => le_rfl
      principal_finite := by
        simp [deployed, World.pool, LoanManager.construct, LoanManager.State.readLoan,
          LoanManager.Loan.zeroed]
      lent_eq := by
        simp [deployed, World.pool, Vault.construct, Vault.State.readWrittenOff,
          LoanManager.construct, LoanManager.State.readLoan, LoanManager.Loan.zeroed]
      writtenOff_impaired := fun _ hpos => absurd hpos (lt_irrefl 0) }
  loanManager := LoanManager.construct_sound lmOwner v now
  wired := rfl
  vault_shares := rfl
  borrows_fit := I128.Fits.of_bounds le_rfl (by norm_num [deployed, Vault.construct])

theorem Step.simulated {v : Address} {s t : Clocked World} {label : Label} (h : Step v s label t)
    (hsound : s.state.Sound v s.now) :
    Simulated v (label.1.env v) s.state label.1.op label.2.2 t.state := by
  rcases h.exec_ok with ⟨o, ho, hstate, hvalue⟩
  rw [← hstate, ← hvalue]
  exact exec_simulated rfl h.admissible.outsider hsound ho

theorem Step.sound {v : Address} {s t : Clocked World} {label : Label} (h : Step v s label t)
    (hsound : s.state.Sound v s.now) : t.state.Sound v t.now := by
  have hsim := h.simulated hsound
  have hlater : s.now ≤ label.1.timestamp := h.call.clock
  have hmoves := hsim.loanManager
  refine ⟨hsim.step.sound hsound.books, ?_, ?_, hsim.vault_shares.trans hsound.vault_shares,
    hsim.borrows_fit hsound.borrows_fit⟩
  · rw [h.call.now_eq]
    unfold MovesLoanManager at hmoves
    split at hmoves
    · rw [hmoves]
      exact ⟨hsound.loanManager.configured, fun b => (hsound.loanManager.loans b).later hlater⟩
    · rcases hmoves with ⟨e', o, htime, ho, hstate⟩
      have htime : e'.timestamp = label.1.timestamp := htime
      rw [← hstate, ← htime]
      exact LoanManager.exec_sound ho hsound.loanManager (htime ▸ hlater)
  · unfold MovesLoanManager at hmoves
    split at hmoves
    · rw [hmoves]
      exact hsound.wired
    · rename_i lmOp hlmOp
      rcases hmoves with ⟨e', o, _, ho, hstate⟩
      rw [← hstate]
      rcases (LoanManager.exec_effect ho).vault_eq with heq | hset
      · exact heq.trans hsound.wired
      · rw [hset] at hlmOp
        exact h.admissible.wired _ (loanManagerOp_setVault hlmOp)

theorem Reachable.sound {v : Address} {s : Clocked World} (h : Reachable v s) :
    s.state.Sound v s.now := by
  rcases h with ⟨usdc, owner, feeRecipient, lmOwner, now, labels, run⟩
  exact run.invariant (P := fun s => s.state.Sound v s.now)
    (fun _ _ _ hs hstep => hstep.sound hs) (deployed_sound v usdc owner feeRecipient lmOwner now)

end System

end Lendoor
