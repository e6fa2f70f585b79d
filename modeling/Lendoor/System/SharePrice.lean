import Lendoor.System.Refinement

/-! # Share price and the wealth of a provider

Only a write-off lowers the price of a share, whatever rounding an operation
uses and whoever receives its fee. Read from the side of one provider: as long as
nobody else acts, no sequence of its own operations makes it richer.
-/

namespace Lendoor.System

/-! ## The price never falls by itself -/

theorem action_ne_writeOff {v : Address} {w : World} {op : Op} (ret : Ret)
    (h : ∀ b amount, op ≠ .vault (.manualWriteOff b amount)) (b : Address) (amount : Int) :
    action v w op ret ≠ .writeOff b amount := by
  intro hact
  unfold action at hact
  split at hact
  case h_8 => exact h _ _ rfl
  all_goals first
    | (unfold paymentAction at hact; split at hact <;> cases hact)
    | (split at hact <;> cases hact)
    | cases hact

theorem action_ne_burn {v : Address} {w : World} {op : Op} (ret : Ret) {a : Address}
    (hwithdraw : ∀ n, op ≠ .vault (.withdraw a n)) (hredeem : ∀ n, op ≠ .vault (.redeem a n))
    (assets shares : Int) : action v w op ret ≠ .burn a assets shares := by
  intro hact
  unfold action at hact
  split at hact
  case h_3 =>
    cases hact
    exact hwithdraw _ rfl
  case h_4 =>
    cases hact
    exact hredeem _ rfl
  all_goals first
    | (unfold paymentAction at hact; split at hact <;> cases hact)
    | (unfold writeOffAction at hact; simp only at hact; split at hact <;> cases hact)
    | (split at hact <;> cases hact)
    | cases hact

/-- From every reachable state, every successful call but a write-off leaves the
share price at least where it was; so the redeemable value of every account whose
own shares it does not burn does not fall, and neither does what `to_assets`
returns for its balance. -/
theorem sharePrice_monotone {v : Address} {c c' : Clocked World} {label : Label}
    (h : Reachable v c) (step : Step v c label c')
    (hloss : ∀ b amount, label.1.op ≠ .vault (.manualWriteOff b amount)) :
    (c.state.totalAssets v + 1) * (c'.state.vault.totalShares + 1) ≤
        (c'.state.totalAssets v + 1) * (c.state.vault.totalShares + 1) ∧
      ∀ a, (∀ n, label.1.op ≠ .vault (.withdraw a n)) →
        (∀ n, label.1.op ≠ .vault (.redeem a n)) →
        c.state.redeemable v a ≤ c'.state.redeemable v a ∧
          ∀ e x y, e.contract = v →
            Vault.toAssets e c.state (c.state.vault.sharesOf a) = .ok x →
            Vault.toAssets e c'.state (c'.state.vault.sharesOf a) = .ok y → x ≤ y := by
  have hsound := h.sound
  have hstep := (step.simulated hsound).step
  have hact := action_ne_writeOff (v := v) (w := c.state) label.2.2 hloss
  refine ⟨hstep.price_le hsound.books hact, fun a hwithdraw hredeem => ?_⟩
  have hle : c.state.redeemable v a ≤ c'.state.redeemable v a :=
    hstep.position_le hsound.books hact (action_ne_burn label.2.2 hwithdraw hredeem)
  refine ⟨hle, fun e x y hv hx hy => ?_⟩
  subst hv
  rw [Vault.toAssets_sharesOf hsound.books hx, Vault.toAssets_sharesOf (step.sound hsound).books hy]
  exact hle

/-- A third party settles the loan: the provider's shares gain the interest kept. -/
theorem sharePrice_monotone_payoff :
    ∃ c c' label, Reachable ⟨1⟩ c ∧ Step ⟨1⟩ c label c' ∧ label.1 = payoff ∧
      c.state.redeemable ⟨1⟩ ⟨4⟩ = 1000000000 ∧ c'.state.redeemable ⟨1⟩ ⟨4⟩ = 1000678570 ∧
      c.state.redeemable ⟨1⟩ ⟨4⟩ ≤ c'.state.redeemable ⟨1⟩ ⟨4⟩ := by
  have hrun : ∃ c, Clocked.run? Call.timestamp (Call.exec ⟨1⟩) launch lendingCalls = some c ∧
      c.now ≤ 2000 ∧ c.state.redeemable ⟨1⟩ ⟨4⟩ = 1000000000 ∧
      ∃ r, payoff.exec ⟨1⟩ c.state = .ok r ∧ r.1.redeemable ⟨1⟩ ⟨4⟩ = 1000678570 := by decide
  rcases hrun with ⟨c, hc, hclock, hbefore, r, hr, hafter⟩
  have hreach : Reachable ⟨1⟩ c := reachable_of_run? hc (by decide)
  have hstep := Step.of_exec (.of_admissible (by decide)) hclock hr
  have hmono := sharePrice_monotone hreach hstep (by simp [payoff, Call.signedBy])
  exact ⟨c, _, _, hreach, hstep, rfl, hbefore, hafter,
    (hmono.2 ⟨4⟩ (by simp [payoff, Call.signedBy]) (by simp [payoff, Call.signedBy])).1⟩

/-! ## A provider acting alone -/

/-- Operations of account `a` on its own position: its deposits for itself, its
exits, and its direct transfers to the vault. -/
def OwnOp (v a : Address) : Op → Prop
  | .vault (.deposit source _) => source = a
  | .vault (.depositFrom payer beneficiary _) => payer = a ∧ beneficiary = a
  | .vault (.withdraw source _) => source = a
  | .vault (.redeem source _) => source = a
  | .transfer source target _ => source = a ∧ target = v
  | _ => False

theorem ownOp_balance {v a : Address} {e : Env} {w : World} {op : Op} {o : Outcome World Ret}
    (hv : e.contract = v) (ha : a ≠ v) (own : OwnOp v a op) (h : exec e w op = .ok o) :
    o.state.usdc.balance a + o.state.usdc.balance v = w.usdc.balance a + w.usdc.balance v := by
  subst hv
  have hin : ∀ amount, Token.moved w.usdc.balance a e.contract amount a +
      Token.moved w.usdc.balance a e.contract amount e.contract =
        w.usdc.balance a + w.usdc.balance e.contract := fun _ => Token.moved_pair _ _ _ _ ha
  have hout : ∀ amount, Token.moved w.usdc.balance e.contract a amount a +
      Token.moved w.usdc.balance e.contract a amount e.contract =
        w.usdc.balance a + w.usdc.balance e.contract := by
    intro amount
    have := Token.moved_pair w.usdc.balance e.contract a amount ha.symm
    omega
  cases op with
  | vault op =>
      cases op <;> simp only [exec, Vault.exec, map_eq_ok] at h <;>
        rcases h with ⟨_, ⟨r, h, rfl⟩, rfl⟩
      case deposit s n =>
        cases own
        rcases Vault.mintFor_spec (Vault.deposit_spec h).2.2 with ⟨_, _, _, husdc, _⟩
        simp only [Outcome.as_state, husdc, hin]
      case depositFrom p b n =>
        rcases own with ⟨rfl, rfl⟩
        rcases Vault.mintFor_spec (Vault.depositFrom_spec h).2.2.2 with ⟨_, _, _, husdc, _⟩
        simp only [Outcome.as_state, husdc, hin]
      case withdraw s n =>
        cases own
        rcases Vault.burnFor_eq_ok.mp (Vault.withdraw_spec h).2.2.2.2 with ⟨_, _, _, _, husdc, _⟩
        simp only [Outcome.as_state, husdc, hout]
      case redeem s n =>
        cases own
        rcases Vault.redeem_eq_ok.mp h with ⟨_, _, _, _, _, hburn, _⟩
        rcases Vault.burnFor_eq_ok.mp hburn with ⟨_, _, _, _, husdc, _⟩
        simp only [Outcome.as_state, husdc, hout]
      all_goals exact absurd own id
  | loanManager op => exact absurd own id
  | transfer source target amount =>
      rcases own with ⟨rfl, rfl⟩
      simp only [exec, map_eq_ok] at h
      rcases h with ⟨usdc, h, rfl⟩
      simp only [(Token.transfer_eq_ok.mp h).2.2.2, hin]

theorem ownOp_action {v a : Address} {w : World} {op : Op} (own : OwnOp v a op) (ret : Ret) :
    (action v w op ret).OwnedBy a := by
  unfold action
  split
  case h_1 => exact own
  case h_2 => exact own.2
  case h_3 => exact own
  case h_4 => exact own
  case h_10 =>
    rw [if_pos own.2]
    trivial
  case h_11 => trivial
  all_goals exact absurd own id

theorem ownStep {v a : Address} {s t : Clocked World} {label : Label} (ha : a ≠ v)
    (hsound : s.state.Sound v s.now) (step : Step v s label t) (own : OwnOp v a label.1.op) :
    t.state.usdc.balance a + t.state.redeemable v a ≤
      s.state.usdc.balance a + s.state.redeemable v a := by
  rcases step.exec_ok with ⟨o, ho, hstate, _⟩
  have hbalance := ownOp_balance (v := v) rfl ha own ho
  rw [hstate] at hbalance
  have hposition : t.state.redeemable v a - t.state.usdc.balance v ≤
      s.state.redeemable v a - s.state.usdc.balance v :=
    (step.simulated hsound).step.position_sub_cash_le hsound.books (ownOp_action own _)
  omega

/-- From every reachable state, after any sequence of its own deposits, exits and
direct transfers with nobody else acting, an account other than the vault holds
tokens and redeemable shares worth no more than before, also as `to_assets`
returns their value. -/
theorem wealth_nonincreasing {v a : Address} {c c' : Clocked World} {labels : List Label}
    (h : Reachable v c) (ha : a ≠ v)
    (run : Run (fun s label t => Step v s label t ∧ OwnOp v a label.1.op) c labels c') :
    c'.state.usdc.balance a + c'.state.redeemable v a ≤
        c.state.usdc.balance a + c.state.redeemable v a ∧
      ∀ e x y, e.contract = v →
        Vault.toAssets e c.state (c.state.vault.sharesOf a) = .ok x →
        Vault.toAssets e c'.state (c'.state.vault.sharesOf a) = .ok y →
        c'.state.usdc.balance a + y ≤ c.state.usdc.balance a + x := by
  let P : Clocked World → Prop := fun s => s.state.Sound v s.now ∧
    s.state.usdc.balance a + s.state.redeemable v a ≤
      c.state.usdc.balance a + c.state.redeemable v a
  have hkeep : ∀ s label t, P s → Step v s label t ∧ OwnOp v a label.1.op → P t := by
    intro s label t hs hstep
    rcases hs with ⟨hsound, hle⟩
    rcases hstep with ⟨hstep, hown⟩
    exact ⟨hstep.sound hsound, (ownStep ha hsound hstep hown).trans hle⟩
  have hend : P c' := run.invariant hkeep ⟨h.sound, le_rfl⟩
  refine ⟨hend.2, fun e x y hv hx hy => ?_⟩
  subst hv
  rw [Vault.toAssets_sharesOf h.sound.books hx, Vault.toAssets_sharesOf hend.1.books hy]
  exact hend.2

/-- The provider deposits, donates, withdraws and redeems after interest was earned. -/
def roundTripCalls : List Call :=
  [.signedBy ⟨4⟩ 3000 (.vault (.deposit ⟨4⟩ 12345)),
    .signedBy ⟨4⟩ 3000 (.transfer ⟨4⟩ ⟨1⟩ 777),
    .signedBy ⟨4⟩ 3000 (.vault (.withdraw ⟨4⟩ 500)),
    .signedBy ⟨4⟩ 3000 (.vault (.redeem ⟨4⟩ 1000000))]

theorem wealth_nonincreasing_roundTrip :
    ∃ c c' labels, Reachable ⟨1⟩ c ∧ labels.map Prod.fst = roundTripCalls ∧
      Run (fun s label t => Step ⟨1⟩ s label t ∧ OwnOp ⟨1⟩ ⟨4⟩ label.1.op) c labels c' ∧
      c'.state.usdc.balance ⟨4⟩ + c'.state.redeemable ⟨1⟩ ⟨4⟩ ≤
        c.state.usdc.balance ⟨4⟩ + c.state.redeemable ⟨1⟩ ⟨4⟩ := by
  have hrun : ∃ c, Clocked.run? Call.timestamp (Call.exec ⟨1⟩) launch payoffCalls = some c ∧
      ∃ c', Clocked.run? Call.timestamp (Call.exec ⟨1⟩) c roundTripCalls = some c' ∧
        c'.now = 3000 := by decide
  rcases hrun with ⟨c, hc, c', hc', -⟩
  have hreach : Reachable ⟨1⟩ c := reachable_of_run? hc (by decide)
  rcases run_of_run? hc' (by decide) with ⟨labels, run, hcalls⟩
  have hown : ∀ label ∈ labels, OwnOp ⟨1⟩ ⟨4⟩ label.1.op := by
    refine forall_label_of_calls hcalls (P := fun c => OwnOp ⟨1⟩ ⟨4⟩ c.op) ?_
    simp [roundTripCalls, Call.signedBy, OwnOp]
  have hrestricted := run.restrict hown
  exact ⟨c, c', labels, hreach, hcalls, hrestricted,
    (wealth_nonincreasing hreach (by decide) hrestricted).1⟩

end Lendoor.System
