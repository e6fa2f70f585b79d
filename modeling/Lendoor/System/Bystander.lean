import Lendoor.System.Accounting
import Lendoor.System.SharePrice

/-! # An account that signs nothing

Whatever everybody else does, owners included, an account that signs no call keeps its
tokens and its shares and owes no more than before. What its shares redeem for falls by no
more than the write-offs that the vault has published.
-/

namespace Lendoor.System

/-! ## One call -/

/-- Tokens leave an account that is not the source. -/
theorem le_moved {balance : Address → Int} {source target a : Address} {amount : Int}
    (ha : a ≠ source) (hnn : 0 ≤ amount) :
    balance a ≤ Token.moved balance source target amount a := by
  simp only [Token.moved, if_neg ha]
  split <;> omega

section Call

variable {v a : Address} {now : Nat} {e : Env} {w : World} {op : Op} {o : Outcome World Ret}

theorem ne_of_auth {b : Address} (hsilent : e.auth a = false) (hauth : e.auth b = true) :
    a ≠ b := by
  rintro rfl
  rw [hsilent] at hauth
  cases hauth

theorem paidBalance_le {payer : Address} {r : Vault.Payment} (ha : a ≠ e.contract)
    (hpayer : a ≠ payer) (hpay : 0 ≤ r.pay)
    (hfee : 0 ≤ r.fee) : w.usdc.balance a ≤ Vault.paidBalance e w payer r a :=
  (le_moved hpayer hpay).trans (le_moved ha hfee)

theorem PaymentSplits.nonneg {r : Vault.Payment} {w' : World} {payer b : Address}
    (hlive : (w.loanManager.readLoan b).Live)
    (h : Vault.PaymentEffect e w payer b r w') : 0 ≤ r.pay ∧ 0 ≤ r.fee := by
  cases h with
  | closed hfee _ _ _ hacc =>
      have hbounds := hlive.accrued_bounds hacc
      have hprincipal := hlive.principal_pos
      simp only [Vault.protocolFeeBps, Vault.bpsDenom] at hfee ⊢
      omega
  | reduced hpos _ _ hsplit hfee _ _ _ hacc =>
      have hbounds := hlive.accrued_bounds hacc
      simp only [Vault.protocolFeeBps, Vault.bpsDenom] at hfee hsplit ⊢
      omega

theorem exec_balance_le_of_silent (hv : e.contract = v) (ha : a ≠ v) (hsilent : e.auth a = false)
    (hsound : w.Sound v now)
    (h : exec e w op = .ok o) : w.usdc.balance a ≤ o.state.usdc.balance a := by
  subst hv
  have hlive : ∀ b, (w.loanManager.readLoan b).active = true → (w.loanManager.readLoan b).Live :=
    fun b => (hsound.loanManager.loans b).live
  cases op with
  | vault op =>
      cases op <;> simp only [exec, Vault.exec, map_eq_ok] at h <;> rcases h
        with ⟨_, ⟨r, h, rfl⟩, rfl⟩
      case deposit source assets =>
        rcases Vault.deposit_spec h with ⟨hauth, hpos, hmint⟩
        rcases Vault.mintFor_spec hmint with ⟨_, _, _, husdc, _⟩
        simp only [Outcome.as_state, husdc]
        exact le_moved (ne_of_auth hsilent hauth) hpos.le
      case depositFrom payer beneficiary assets =>
        rcases Vault.depositFrom_spec h with ⟨hauth, hpos, _, hmint⟩
        rcases Vault.mintFor_spec hmint with ⟨_, _, _, husdc, _⟩
        simp only [Outcome.as_state, husdc]
        exact le_moved (ne_of_auth hsilent hauth) hpos.le
      case withdraw source assets =>
        rcases Vault.withdraw_spec h with ⟨_, hpos, _, _, hburn⟩
        rcases Vault.burnFor_eq_ok.mp hburn with ⟨_, _, hnn, _, husdc, _⟩
        simp only [Outcome.as_state, husdc]
        exact le_moved ha hnn
      case redeem source shares =>
        rcases Vault.redeem_eq_ok.mp h with ⟨_, _, _, _, _, hburn, _⟩
        rcases Vault.burnFor_eq_ok.mp hburn with ⟨_, _, hnn, _, husdc, _⟩
        simp only [Outcome.as_state, husdc]
        exact le_moved ha hnn
      case borrowWithTerm b amount tenorDays feeBps =>
        rcases Vault.borrowWithTerm_spec h with ⟨_, hpos, _, _, husdc, _⟩
        simp only [Outcome.as_state, husdc]
        exact le_moved ha hpos.le
      case repay payer b =>
        rcases Vault.repay_spec (hlive b) h with ⟨hauth, hactive, _, _, _, heffect⟩
        rcases PaymentSplits.nonneg (hlive b hactive) heffect with ⟨hpay, hfee⟩
        simp only [Outcome.as_state, (paymentEffect_splits (hlive b hactive) heffect).2]
        exact paidBalance_le ha (ne_of_auth hsilent hauth) hpay hfee
      case repayPartial payer b amount =>
        rcases Vault.repayPartial_spec (hlive b) h with ⟨hauth, _, hactive, _, _, _, heffect⟩
        rcases PaymentSplits.nonneg (hlive b hactive) heffect with ⟨hpay, hfee⟩
        simp only [Outcome.as_state, (paymentEffect_splits (hlive b hactive) heffect).2]
        exact paidBalance_le ha (ne_of_auth hsilent hauth) hpay hfee
      case manualWriteOff b amount =>
        rcases Vault.manualWriteOff_spec h with ⟨_, _, _, ⟨_, hstate⟩ | ⟨_, _, hstate⟩⟩ <;>
          simp only [Outcome.as_state, hstate, le_refl]
      case setFeeRecipient recipient =>
        simp only [Vault.setFeeRecipient, bind_eq_ok, pure_eq_ok] at h
        rcases h with ⟨_, _, rfl⟩
        exact le_rfl
  | loanManager op =>
      simp only [exec, map_eq_ok] at h
      rcases h with ⟨_, _, rfl⟩
      exact le_rfl
  | transfer source target amount =>
      simp only [exec, map_eq_ok] at h
      rcases h with ⟨usdc, h, rfl⟩
      rcases Token.transfer_eq_ok.mp h with ⟨hauth, hnn, _, husdc⟩
      simp only [husdc]
      exact le_moved (ne_of_auth hsilent hauth) hnn

theorem action_ne_lend (hsilent : e.auth a = false) (h : exec e w op = .ok o) (amount : Int) :
    action v w op o.value ≠ .lend a amount := by
  intro hact
  unfold action at hact
  split at hact
  case h_5 =>
    cases hact
    simp only [exec, Vault.exec, map_eq_ok] at h
    rcases h with ⟨_, ⟨r, h, rfl⟩, rfl⟩
    rw [(Vault.borrowWithTerm_spec h).1] at hsilent
    cases hsilent
  all_goals first
    | (unfold paymentAction at hact; split at hact <;> cases hact)
    | (unfold writeOffAction at hact; simp only at hact; split at hact <;> cases hact)
    | (split at hact <;> cases hact)
    | cases hact

/-- Shares are burned with the signature of their holder. -/
theorem action_ne_burn_of_silent (hsilent : e.auth a = false) (h : exec e w op = .ok o)
    (assets shares : Int) :
    action v w op o.value ≠ .burn a assets shares := by
  refine action_ne_burn o.value (fun n hop => ?_) (fun n hop => ?_) assets shares <;> subst hop <;>
    simp only [exec, Vault.exec, map_eq_ok] at h <;> rcases h with ⟨_, ⟨r, h, rfl⟩, rfl⟩
  · rw [(Vault.withdraw_spec h).1] at hsilent
    cases hsilent
  · rw [(Vault.redeem_eq_ok.mp h).1] at hsilent
    cases hsilent

/-! ## What was written off -/

def lossOf : Event → Int
  | .writeoff _ amount => amount
  | _ => 0

/-- What the call published as written off. -/
def Label.loss (label : Label) : Int :=
  match label.1.op with
  | .vault (.manualWriteOff _ _) => (label.2.1.map lossOf).sum
  | _ => 0

theorem manualWriteOff_loss {b : Address} {amount : Int} {r : Outcome World Unit}
    (h : Vault.manualWriteOff e w b amount = .ok r) :
    (writeOffAction w b amount).loss = (r.events.map lossOf).sum := by
  simp only [Vault.manualWriteOff, bind_eq_ok, panicIf_eq_ok, ite_eq_ok,
    unwrapOr_eq_ok, I128.sub_eq_some, I128.add_eq_some, pure_eq_ok, ← min_def_lt] at h
  rcases h with ⟨_, _, _, _, owed, howed, h⟩
  rw [Vault.principalInBorrows_eq_ok howed] at h
  unfold writeOffAction
  rcases h with ⟨hle, rfl⟩ | ⟨hpos, _, _, _, _, rfl⟩
  · simp [hle, Pool.Action.loss]
  · simp [hpos, Pool.Action.loss, lossOf]

end Call

theorem loss_of_ne_writeOff {act : Pool.Action Address} (h : ∀ b amount, act ≠ .writeOff b amount) :
    act.loss = 0 := by
  cases act with
  | writeOff b amount => exact absurd rfl (h b amount)
  | _ => rfl

theorem Step.loss_eq {v : Address} {s t : Clocked World} {label : Label} (h : Step v s label t) :
    (action v s.state label.1.op label.2.2).loss = label.loss := by
  rcases map_eq_ok.mp h.call.exec_eq with ⟨o, ho, hsplit⟩
  have hevents : o.events = label.2.1 := congrArg (fun r => r.2.1) hsplit
  unfold Label.loss
  split
  · rename_i b amount hop
    rw [hop] at ho ⊢
    simp only [exec, Vault.exec, map_eq_ok] at ho
    rcases ho with ⟨_, ⟨r, hr, rfl⟩, rfl⟩
    rw [← hevents]
    exact manualWriteOff_loss hr
  · rename_i hop
    exact loss_of_ne_writeOff (action_ne_writeOff label.2.2 hop)

theorem Step.silent {v a : Address} {s t : Clocked World} {label : Label} (h : Step v s label t)
    (hsound : s.state.Sound v s.now) (ha : a ≠ v) (hsilent : label.1.auth a = false) :
    s.state.usdc.balance a ≤ t.state.usdc.balance a ∧ s.state.vault.sharesOf a ≤
      t.state.vault.sharesOf a ∧
      (t.state.loanManager.readLoan a).principal ≤ (s.state.loanManager.readLoan a).principal ∧
        s.state.redeemable v a ≤ t.state.redeemable v a + label.loss := by
  rcases h.exec_ok with ⟨o, ho, hstate, hvalue⟩
  have hstep := (h.simulated hsound).step
  rw [← hvalue] at hstep
  have hburn := action_ne_burn_of_silent (v := v) hsilent ho
  rw [← h.loss_eq, ← hvalue]
  refine ⟨?_, hstep.shares_le hburn, hstep.principal_le hsound.books (action_ne_lend hsilent ho),
    hstep.position_le_add_loss hsound.books hburn⟩
  rw [← hstate]
  exact exec_balance_le_of_silent rfl ha hsilent hsound ho

/-! ## Whole runs -/

def totalLoss (labels : List Label) : Int := (labels.map Label.loss).sum

/-- From every reachable state, whoever acts: an account other than the vault that signs no
call keeps its tokens, its shares and its debt, and loses of what its shares redeem for at
most what was published as written off. -/
theorem bystander_keeps {v a : Address} {c c' : Clocked World} {labels : List Label}
    (h : Reachable v c) (ha : a ≠ v)
    (run : Run (Step v) c labels c') (hsilent : ∀ label ∈ labels, label.1.auth a = false) :
    c.state.usdc.balance a ≤ c'.state.usdc.balance a ∧ c.state.vault.sharesOf a ≤
      c'.state.vault.sharesOf a ∧
      (c'.state.loanManager.readLoan a).principal ≤ (c.state.loanManager.readLoan a).principal ∧
        c.state.redeemable v a ≤ c'.state.redeemable v a + totalLoss labels := by
  induction run with
  | nil => exact ⟨le_rfl, le_rfl, le_rfl, by simp [totalLoss]⟩
  | @snoc t u labels label hrun hstep ih =>
      have hsound : t.state.Sound v t.now :=
        hrun.invariant (P := fun s => s.state.Sound v s.now)
          (fun _ _ _ hs hstep => hstep.sound hs) h.sound
      rcases ih fun label hmem =>
        hsilent label (by simp [hmem]) with ⟨husdc, hshares, hdebt, hvalue⟩
      rcases hstep.silent hsound ha (hsilent label (by simp))
        with ⟨husdc', hshares', hdebt', hvalue'⟩
      refine ⟨husdc.trans husdc', hshares.trans hshares', hdebt'.trans hdebt, ?_⟩
      simp only [totalLoss, List.map_append, List.map_cons, List.map_nil, List.sum_append,
        List.sum_cons, List.sum_nil]
        at hvalue ⊢
      omega

/-- The provider has deposited; then a loan is given to somebody else, defaults and is
written off in part. -/
theorem bystander_keeps_after_loss :
    ∃ c c' labels, Reachable ⟨1⟩ c ∧ labels.map Prod.fst = lossCalls.tail ∧
      Run (Step ⟨1⟩) c labels c' ∧
      c.state.redeemable ⟨1⟩ ⟨4⟩ = 1000000000 ∧ c'.state.redeemable ⟨1⟩ ⟨4⟩ = 940000000 ∧
        c.state.redeemable ⟨1⟩ ⟨4⟩ ≤ c'.state.redeemable ⟨1⟩ ⟨4⟩ + totalLoss labels := by
  have hrun : ∃ c, Clocked.run? Call.timestamp (Call.exec ⟨1⟩) launch (lossCalls.take 1) = some c ∧
      c.state.redeemable ⟨1⟩ ⟨4⟩ = 1000000000 ∧
      ∃ c', Clocked.run? Call.timestamp (Call.exec ⟨1⟩) c lossCalls.tail = some c' ∧
        c'.state.redeemable ⟨1⟩ ⟨4⟩ = 940000000 := by decide
  rcases hrun with ⟨c, hc, hbefore, c', hc', hafter⟩
  have hreach : Reachable ⟨1⟩ c := reachable_of_run? hc (by decide)
  rcases run_of_run? hc' (by decide) with ⟨labels, run, hcalls⟩
  have hsilent : ∀ label ∈ labels, label.1.auth ⟨4⟩ = false :=
    forall_label_of_calls hcalls (P := fun c => c.auth ⟨4⟩ = false) (by decide)
  exact ⟨c, c', labels, hreach, hcalls, run, hbefore, hafter,
    (bystander_keeps hreach (by decide) run hsilent).2.2.2⟩

end Lendoor.System
