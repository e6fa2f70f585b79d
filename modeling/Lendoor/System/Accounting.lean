import Lendoor.System.Refinement

/-! # Outstanding principal and conservation of value

The two contracts hold the two sides of one ledger. Along every run the vault's
borrows are the loan manager's principals less the write-offs, and the value the
vault holds is what came in less what went out.
-/

namespace Lendoor.System

/-! ## Outstanding principal -/

/-- In every reachable state the outstanding borrows are the sum of all principals
not written off, a write-off never exceeds its principal and sits on an active,
defaulted loan only; so no divisor of a share conversion is below one. -/
theorem totalBorrows_eq_outstanding {v : Address} {c : Clocked World} (h : Reachable v c) :
    (Function.support fun b => (c.state.loanManager.readLoan b).principal -
        c.state.vault.readWrittenOff b).Finite ∧
      c.state.vault.totalBorrows = ∑ᶠ b, ((c.state.loanManager.readLoan b).principal -
        c.state.vault.readWrittenOff b) ∧
      (∀ b, 0 ≤ c.state.vault.readWrittenOff b ∧
        c.state.vault.readWrittenOff b ≤ (c.state.loanManager.readLoan b).principal) ∧
      (∀ b, 0 < c.state.vault.readWrittenOff b →
        (c.state.loanManager.readLoan b).active = true ∧
          (c.state.loanManager.readLoan b).defaulted = true) ∧
      0 ≤ c.state.vault.totalBorrows ∧ 0 ≤ c.state.totalAssets v ∧
      1 ≤ c.state.totalAssets v + 1 ∧ 1 ≤ c.state.vault.totalShares + 1 := by
  have hsound := h.sound
  have hbooks := hsound.books
  have hassets : 0 ≤ c.state.totalAssets v := hbooks.assets_nonneg
  have hsupply : 0 ≤ c.state.vault.totalShares := hbooks.supply_nonneg
  refine ⟨hbooks.outstanding_finite, hbooks.lent_eq,
    fun b => ⟨hbooks.writtenOff_nonneg b, hbooks.writtenOff_le b⟩, ?_, hbooks.lent_nonneg, hassets,
    by omega, by omega⟩
  intro b hpos
  have hdef : (c.state.loanManager.readLoan b).defaulted = true := hbooks.writtenOff_impaired b hpos
  exact ⟨((hsound.loanManager.loans b).defaulted hdef).1, hdef⟩

/-- After a default and a partial write-off. -/
theorem totalBorrows_eq_outstanding_after_loss :
    ∃ c, Reachable ⟨1⟩ c ∧ c.state.vault.readWrittenOff ⟨5⟩ = 60000000 ∧
      c.state.vault.totalBorrows = 40000000 ∧
      c.state.vault.totalBorrows = ∑ᶠ b, ((c.state.loanManager.readLoan b).principal -
        c.state.vault.readWrittenOff b) := by
  have hrun : ∃ c, Clocked.run? Call.timestamp (Call.exec ⟨1⟩) launch lossCalls = some c ∧
      c.state.vault.readWrittenOff ⟨5⟩ = 60000000 ∧ c.state.vault.totalBorrows = 40000000 := by
    decide
  rcases hrun with ⟨c, hc, hwo, hborrows⟩
  have hreach : Reachable ⟨1⟩ c := reachable_of_run? hc (by decide)
  exact ⟨c, hreach, hwo, hborrows, (totalBorrows_eq_outstanding hreach).2.1⟩

/-! ## Flows of a call -/

/-- Assets a call deposits. -/
def deposited : Op → Int
  | .vault (.deposit _ assets) => assets
  | .vault (.depositFrom _ _ assets) => assets
  | _ => 0

/-- Assets a call pays out to a leaving share holder. -/
def paidOut : Op → Ret → Int
  | .vault (.withdraw _ assets), _ => assets
  | .vault (.redeem _ _), .vault (.amount assets) => assets
  | _, _ => 0

/-- Tokens a call sends straight to the vault. -/
def donated (v : Address) : Op → Int
  | .transfer _ target amount => if target = v then amount else 0
  | _ => 0

/-- Interest a payment leaves with the vault once the fee is taken. -/
def earned : Ret → Int
  | .vault (.payment r) => r.interestPaid - r.fee
  | _ => 0

/-- Everything a call brings into the vault, less what it takes out. -/
def netFlow (v : Address) (label : Label) : Int :=
  deposited label.1.op - paidOut label.1.op label.2.2 + donated v label.1.op + earned label.2.2

theorem paymentAction_inflow {v : Address} {w : World} {b : Address} {r : Vault.Payment}
    (hfee : w.vault.config.feeRecipient ≠ v) :
    (paymentAction v w b r).inflow = r.interestPaid - r.fee := by
  unfold paymentAction gain
  rw [if_neg hfee]
  split <;> rfl

theorem writeOffAction_inflow (w : World) (b : Address) (amount : Int) :
    (writeOffAction w b amount).inflow = 0 := by
  unfold writeOffAction
  simp only
  split <;> rfl

theorem action_inflow {v : Address} {e : Env} {w : World} {op : Op} {o : Outcome World Ret}
    (hfee : w.vault.config.feeRecipient ≠ v) (h : exec e w op = .ok o) :
    (action v w op o.value).inflow =
      deposited op - paidOut op o.value + donated v op + earned o.value := by
  cases op with
  | vault op =>
      cases op <;> simp only [exec, Vault.exec, map_eq_ok] at h <;>
        rcases h with ⟨_, ⟨r, h, rfl⟩, rfl⟩
      case repay p b =>
        simp [action, paymentAction_inflow hfee, deposited, paidOut, donated, earned]
      case repayPartial p b n =>
        simp [action, paymentAction_inflow hfee, deposited, paidOut, donated, earned]
      case manualWriteOff b n =>
        simp [action, writeOffAction_inflow, deposited, paidOut, donated, earned]
      all_goals simp [action, Pool.Action.inflow, deposited, paidOut, donated, earned]
  | loanManager op =>
      simp only [exec, map_eq_ok] at h
      rcases h with ⟨r, h, rfl⟩
      cases op <;> simp [action, Pool.Action.inflow, deposited, paidOut, donated, earned]
  | transfer source target amount =>
      simp only [exec, map_eq_ok] at h
      rcases h with ⟨r, h, rfl⟩
      simp only [action, deposited, paidOut, donated, earned]
      split <;> simp [Pool.Action.inflow]

/-! ## Conservation over whole runs -/

/-- A step in a state whose fees do not come back to the vault. -/
def FeeStep (v : Address) (s : Clocked World) (label : Label) (t : Clocked World) : Prop :=
  Step v s label t ∧ s.state.vault.config.feeRecipient ≠ v

/-- Fees never come back to the vault in a run that starts with another recipient
and never names the vault as one. -/
theorem feeRun_of_run {v : Address} {s t : Clocked World} {labels : List Label}
    (run : Run (Step v) s labels t) (hsound : s.state.Sound v s.now)
    (hstart : s.state.vault.config.feeRecipient ≠ v)
    (hset : ∀ label ∈ labels, ∀ a, label.1.op = .vault (.setFeeRecipient a) → a ≠ v) :
    Run (FeeStep v) s labels t ∧ t.state.Sound v t.now ∧
      t.state.vault.config.feeRecipient ≠ v := by
  induction run with
  | nil => exact ⟨Run.nil _, hsound, hstart⟩
  | @snoc t u labels label _ hstep ih =>
      rcases ih (fun l hl => hset l (List.mem_append_left _ hl)) with
        ⟨hrun, hmid, hfee⟩
      refine ⟨Run.snoc hrun ⟨hstep, hfee⟩, hstep.sound hmid, ?_⟩
      rcases (hstep.simulated hmid).recipient with hsame | hnew
      · rwa [hsame]
      · exact hset label (by simp) _ hnew

theorem Step.conserves {v : Address} {s t : Clocked World} {label : Label}
    (hsound : s.state.Sound v s.now) (h : FeeStep v s label t) :
    t.state.usdc.balance v + ∑ᶠ b, (t.state.loanManager.readLoan b).principal =
      s.state.usdc.balance v + ∑ᶠ b, (s.state.loanManager.readLoan b).principal +
        netFlow v label := by
  have hpool := (h.1.simulated hsound).step.conserves hsound.books
  rcases h.1.exec_ok with ⟨o, ho, _, hvalue⟩
  have hflow := action_inflow h.2 ho
  rw [hvalue] at hflow
  rw [hflow] at hpool
  exact hpool

/-- How a payment on the vault's books splits the amount kept. -/
structure PaymentSplits (r : Vault.Payment) : Prop where
  kept : r.principalPaid + r.interestPaid = r.pay
  fee_eq : r.fee = r.interestPaid * 500 / 10000
  fee_le : r.fee ≤ r.interestPaid

theorem paymentEffect_splits {e : Env} {w w' : World} {payer b : Address} {r : Vault.Payment}
    (hlive : (w.loanManager.readLoan b).Live) (h : Vault.PaymentEffect e w payer b r w') :
    PaymentSplits r ∧ w'.usdc.balance = Vault.paidBalance e w payer r := by
  cases h with
  | closed hfee husdc _ _ hacc =>
      have hle := (hlive.accrued_bounds hacc).2
      refine ⟨⟨by simp only; omega, hfee, ?_⟩, husdc⟩
      simp only [Vault.protocolFeeBps, Vault.bpsDenom] at hfee ⊢
      omega
  | reduced hpos _ _ hsplit hfee husdc _ _ hacc =>
      have hle := (hlive.accrued_bounds hacc).2
      refine ⟨⟨by simp only; omega, hfee, ?_⟩, husdc⟩
      simp only [Vault.protocolFeeBps, Vault.bpsDenom] at hfee hsplit ⊢
      omega

/-- A payment is a `repay` or a `repay_partial` by somebody other than the vault,
on an active loan. -/
theorem payment_effect {v : Address} {e : Env} {w : World} {now : Nat} {op : Op}
    {o : Outcome World Ret} {r : Vault.Payment} (hsound : w.Sound v now)
    (houtsider : e.auth v = false) (h : exec e w op = .ok o) (hr : o.value = .vault (.payment r)) :
    ∃ payer b, payer ≠ v ∧ (w.loanManager.readLoan b).active = true ∧
      Vault.PaymentEffect e w payer b r o.state := by
  have hlive : ∀ b, (w.loanManager.readLoan b).active = true → (w.loanManager.readLoan b).Live :=
    fun b => (hsound.loanManager.loans b).live
  cases op with
  | vault op =>
      cases op <;> simp only [exec, Vault.exec, map_eq_ok] at h <;>
        rcases h with ⟨_, ⟨r', h, rfl⟩, rfl⟩
      case repay p b =>
        cases hr
        rcases Vault.repay_spec (hlive b) h with ⟨hauth, hactive, _, _, _, heffect⟩
        exact ⟨p, b, ne_vault_of_auth houtsider hauth, hactive, heffect⟩
      case repayPartial p b n =>
        cases hr
        rcases Vault.repayPartial_spec (hlive b) h with ⟨hauth, _, hactive, _, _, _, heffect⟩
        exact ⟨p, b, ne_vault_of_auth houtsider hauth, hactive, heffect⟩
      all_goals cases hr
  | loanManager op =>
      simp only [exec, map_eq_ok] at h
      rcases h with ⟨_, _, rfl⟩
      cases hr
  | transfer source target amount =>
      simp only [exec, map_eq_ok] at h
      rcases h with ⟨_, _, rfl⟩
      cases hr

theorem Step.payment_splits {v : Address} {s t : Clocked World} {label : Label}
    {r : Vault.Payment} (hsound : s.state.Sound v s.now) (h : FeeStep v s label t)
    (hr : label.2.2 = .vault (.payment r)) :
    PaymentSplits r ∧
      t.state.usdc.balance v = s.state.usdc.balance v + r.principalPaid +
        r.interestPaid - r.fee := by
  rcases h.1.exec_ok with ⟨o, ho, hstate, hvalue⟩
  rcases payment_effect hsound h.1.admissible.outsider ho (hvalue.trans hr) with
    ⟨payer, b, hpayer, hactive, heffect⟩
  rcases paymentEffect_splits ((hsound.loanManager.loans b).live hactive) heffect with
    ⟨hsplits, husdc⟩
  have hvault : Vault.paidBalance (label.1.env v) s.state payer r v =
      s.state.usdc.balance v + r.principalPaid + gain v s.state r :=
    paidBalance_vault hpayer hsplits.kept
  refine ⟨hsplits, ?_⟩
  rw [← hstate, husdc, hvault, gain, if_neg h.2]
  omega

/-- Totals of one flow over a run. -/
def total (labels : List Label) (flow : Op → Ret → Int) : Int :=
  (labels.map fun label => flow label.1.op label.2.2).sum

theorem sum_netFlow (v : Address) (labels : List Label) :
    (labels.map (netFlow v)).sum =
      total labels (fun op _ => deposited op) - total labels paidOut +
        total labels (fun op _ => donated v op) + total labels (fun _ ret => earned ret) := by
  induction labels with
  | nil => rfl
  | cons label rest ih =>
      simp only [total, List.map_cons, List.sum_cons] at ih ⊢
      rw [ih, netFlow]
      omega

/-- Along every run whose fees never go to the vault itself, cash and principal
together are the deposits less the payouts, plus donations (what the address held
at deployment included) and the interest kept. Every payment splits the amount it
moves into principal and interest with the fee taken out of the interest, and
`total_assets` is the same figure less the write-offs. -/
theorem value_conserved {v : Address} {usdc : Token} {owner feeRecipient lmOwner : Address}
    {now : Nat} {labels : List Label} {c : Clocked World}
    (run : Run (FeeStep v) ⟨now, deployed v usdc owner feeRecipient lmOwner⟩ labels c) :
    let value := total labels (fun op _ => deposited op) - total labels paidOut +
      (usdc.balance v + total labels (fun op _ => donated v op)) +
      total labels (fun _ ret => earned ret)
    c.state.usdc.balance v + ∑ᶠ b, (c.state.loanManager.readLoan b).principal = value ∧
      c.state.totalAssets v = value - ∑ᶠ b, c.state.vault.readWrittenOff b ∧
      ∀ label t r, FeeStep v c label t → label.2.2 = .vault (.payment r) →
        PaymentSplits r ∧ t.state.usdc.balance v =
          c.state.usdc.balance v + r.principalPaid + r.interestPaid - r.fee := by
  have hstart := deployed_sound v usdc owner feeRecipient lmOwner now
  let P : Clocked World → Prop := fun s => s.state.Sound v s.now
  have hkeep : ∀ s label t, P s → FeeStep v s label t → P t :=
    fun _ _ _ hs hstep => hstep.1.sound hs
  have hsound : P c := run.invariant hkeep hstart
  have hvalue := run.telescope hkeep
    (fun s => s.state.usdc.balance v + ∑ᶠ b, (s.state.loanManager.readLoan b).principal)
    (netFlow v) (fun _ _ _ hs hstep => Step.conserves hs hstep) hstart
  have hzero : ∑ᶠ b, ((deployed v usdc owner feeRecipient lmOwner).loanManager.readLoan b).principal
      = 0 := finsum_zero
  rw [sum_netFlow] at hvalue
  simp only [hzero] at hvalue
  have hbalance : (deployed v usdc owner feeRecipient lmOwner).usdc.balance v = usdc.balance v :=
    rfl
  have hassets : c.state.totalAssets v = c.state.usdc.balance v +
      ∑ᶠ b, (c.state.loanManager.readLoan b).principal - ∑ᶠ b, c.state.vault.readWrittenOff b :=
    hsound.books.assets_eq
  refine ⟨by omega, by omega, fun label t r hstep hr => Step.payment_splits hsound hstep hr⟩

/-- A deposit, a loan and its early over-payment: the vault ends with the deposit
and a day's interest less five percent. -/
theorem value_conserved_after_payoff :
    ∃ labels c, Run (FeeStep ⟨1⟩) launch labels c ∧ labels.map Prod.fst = payoffCalls ∧
      c.state.usdc.balance ⟨1⟩ = 1000000000 + (714285 - 35714) ∧
      c.state.usdc.balance ⟨1⟩ + ∑ᶠ b, (c.state.loanManager.readLoan b).principal =
        total labels (fun op _ => deposited op) - total labels paidOut +
          (launch.state.usdc.balance ⟨1⟩ + total labels (fun op _ => donated ⟨1⟩ op)) +
          total labels (fun _ ret => earned ret) := by
  have hrun : ∃ c, Clocked.run? Call.timestamp (Call.exec ⟨1⟩) launch payoffCalls = some c ∧
      c.state.usdc.balance ⟨1⟩ = 1000000000 + (714285 - 35714) := by decide
  rcases hrun with ⟨c, hc, hbalance⟩
  rcases run_of_run? hc (by decide) with ⟨labels, run, hcalls⟩
  have hset : ∀ label ∈ labels, ∀ a, label.1.op = .vault (.setFeeRecipient a) → a ≠ ⟨1⟩ := by
    refine forall_label_of_calls hcalls
      (P := fun c => ∀ a, c.op = .vault (.setFeeRecipient a) → a ≠ ⟨1⟩) ?_
    simp [payoffCalls, payoff, lendingCalls, Call.signedBy]
  have hfee := (feeRun_of_run run (deployed_sound _ _ _ _ _ _) (by decide) hset).1
  exact ⟨labels, c, hfee, hcalls, hbalance, (value_conserved hfee).1⟩

end Lendoor.System
