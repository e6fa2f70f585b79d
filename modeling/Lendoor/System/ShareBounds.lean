import Lendoor.System.Exit

/-! # Exits and the size of the supply

The conversions multiply before they divide, and nothing bounds the supply of shares: each
deposit at a collapsed price multiplies it. An exit is free of overflow exactly within the
bounds below, which hold along every run whose deposits pay at least one unit a share.
-/

namespace Lendoor.System

/-- The arithmetic of `a`'s exit returns, and a redemption of everything fails for want of
cash only. -/
structure ExitsWhole (v : Address) (w : World) (a : Address) : Prop where
  conversion : ∀ e : Env, e.contract = v → ∃ assets,
    Vault.toAssets e w (w.vault.sharesOf a) = .ok assets ∧
      ∀ n, 0 ≤ n → n ≤ assets → ∃ shares, Vault.toSharesCeil e w n = .ok shares
  redeem : ∀ e : Env, e.contract = v → e.auth a = true →
    (∃ o, Vault.redeem e w a (w.vault.sharesOf a) = .ok o) ∨
      Vault.redeem e w a (w.vault.sharesOf a) = .error (.vault .insufficientCash)

/-- The shares against the assets, and what they redeem for against the supply. -/
structure ExitBounded (v : Address) (w : World) (a : Address) : Prop where
  supply : w.vault.totalShares + 1 < 2 ^ 127
  shares : w.vault.sharesOf a * (w.totalAssets v + 1) < 2 ^ 127
  redeemed : w.redeemable v a * (w.vault.totalShares + 1) + w.totalAssets v < 2 ^ 127

variable {v : Address} {w : World} {a : Address}

theorem redeem_short {e : Env} (hauth : e.auth a = true)
    (hpos : 0 < w.vault.sharesOf a) {assets : Int}
    (hconv : Vault.toAssets e w (w.vault.sharesOf a) = .ok assets)
    (hshort : Vault.cash e w < assets) :
    Vault.redeem e w a (w.vault.sharesOf a) = .error (.vault .insufficientCash) := by
  have hsome : ¬ w.vault.sharesOf a ≤ 0 := by omega
  simp only [Vault.redeem, Env.requireAuth, panicIf, hauth, if_neg hsome, hconv, ok_bind, gt_iff_lt,
    lt_irrefl, if_pos hshort, Bool.true_eq_false, if_false]
  rfl

theorem redeem_traps {e : Env} (hauth : e.auth a = true) (hpos : 0 < w.vault.sharesOf a)
    (hconv : Vault.toAssets e w (w.vault.sharesOf a) = .error .trap) :
    Vault.redeem e w a (w.vault.sharesOf a) = .error .trap := by
  have hsome : ¬ w.vault.sharesOf a ≤ 0 := by omega
  simp only [Vault.redeem, Env.requireAuth, panicIf, hauth, if_neg hsome, hconv,
    gt_iff_lt, lt_irrefl, Bool.true_eq_false, if_false]
  rfl

theorem exitsWhole_iff (hbooks : (w.pool v).Sound) (hpos : 0 < w.vault.sharesOf a) :
    ExitsWhole v w a ↔ ExitBounded v w a := by
  have hassets : 0 ≤ w.totalAssets v := hbooks.assets_nonneg
  have hsupply : 0 ≤ w.vault.totalShares := hbooks.supply_nonneg
  have hvalue : 0 ≤ w.redeemable v a := SharePool.value_nonneg hassets hsupply hpos.le
  have hproduct : 0 ≤ w.vault.sharesOf a * (w.totalAssets v + 1) := by positivity
  have hredeemed : 0 ≤ w.redeemable v a * (w.vault.totalShares + 1) := by positivity
  constructor
  · intro h
    rcases h.conversion ⟨0, v, fun _ => false⟩ rfl with ⟨assets, hconv, hceil⟩
    rcases (Vault.toAssets_eq_ok hbooks hpos.le).mp hconv with ⟨-, -, hprod, hsum, rfl⟩
    rcases hceil (w.redeemable v a) hvalue le_rfl with ⟨shares, hshares⟩
    rcases (Vault.toSharesCeil_eq_ok hbooks hvalue).mp hshares with ⟨-, -, -, hnum, -⟩
    exact ⟨hsum.2, hprod.2, hnum.2⟩
  · intro h
    have hsum : I128.Fits (w.vault.totalShares + 1) := I128.Fits.of_bounds (by omega) h.supply
    have hfit : ConversionFits v w a := ⟨I128.Fits.of_bounds hproduct h.shares, hsum⟩
    have hnum : I128.Fits (w.redeemable v a * (w.vault.totalShares + 1) + w.totalAssets v) :=
      I128.Fits.of_bounds (by omega) h.redeemed
    have hassetsFit : I128.Fits (w.totalAssets v) := I128.Fits.of_le hassets (by omega) hnum
    have hassetsSucc : I128.Fits (w.totalAssets v + 1) :=
      I128.Fits.of_le (by omega) (le_mul_of_one_le_left (by omega) (by omega)) hfit.1
    constructor
    · rintro e rfl
      refine ⟨_, hfit.toAssets hbooks hpos, fun n hn hle => ?_⟩
      have hnn : 0 ≤ n * (w.vault.totalShares + 1) := by positivity
      have hmono : n * (w.vault.totalShares + 1) ≤ w.redeemable e.contract a *
          (w.vault.totalShares + 1) := by
        gcongr
      exact ⟨(n * (w.vault.totalShares + 1) + w.totalAssets e.contract) /
        (w.totalAssets e.contract + 1), (Vault.toSharesCeil_eq_ok hbooks hn).mpr ⟨hassetsFit, hsum,
          I128.Fits.of_le hnn (hmono.trans (by omega)) hnum,
          I128.Fits.of_le (add_nonneg hnn hassets) (Int.add_le_add_right hmono _) hnum, hassetsSucc,
          rfl⟩⟩
    · rintro e rfl hauth
      have hconv := hfit.toAssets hbooks hpos
      rcases Int.lt_or_le (Vault.cash e w) (w.redeemable e.contract a) with hshort | hcash
      · exact .inr (redeem_short hauth hpos hconv hshort)
      · rcases redeem_covered hauth hbooks hpos hconv hsum hcash with ⟨o, ho, -⟩
        exact .inl ⟨o, ho⟩

/-! ## Deposits at a bounded price -/

/-- The call is no deposit, or `k` shares are worth at least one unit when it is made. -/
def PricedWithin (k : Int) (v : Address) (w : World) (op : Op) : Prop :=
  (∃ source assets, op = .vault (.deposit source assets)) ∨
    (∃ payer beneficiary assets, op = .vault (.depositFrom payer beneficiary assets)) →
      w.vault.totalShares + 1 ≤ k * (w.totalAssets v + 1)

/-- A step that leaves at most `m` assets, and deposits at a bounded price only. -/
def BoundedStep (k m : Int) (v : Address) (s : Clocked World) (label : Label) (t : Clocked World) :
    Prop :=
  Step v s label t ∧ PricedWithin k v s.state label.1.op ∧ t.state.totalAssets v ≤ m

theorem action_mint {op : Op} {ret : Ret} {holder : Address} {assets shares : Int}
    (h : action v w op ret = .mint holder assets shares) :
    (∃ source assets, op = .vault (.deposit source assets)) ∨
      ∃ payer beneficiary assets, op = .vault (.depositFrom payer beneficiary assets) := by
  unfold action at h
  split at h
  case h_1 => exact .inl ⟨_, _, rfl⟩
  case h_2 => exact .inr ⟨_, _, _, rfl⟩
  all_goals first
    | (unfold paymentAction at h; split at h <;> cases h)
    | (unfold writeOffAction at h; simp only at h; split at h <;> cases h)
    | (split at h <;> cases h)
    | cases h

/-- A mint at a bounded price keeps the supply within `k` shares a unit of the assets, and
no other action raises the supply. -/
theorem supply_le_of_step {p q : Pool Address} {act : Pool.Action Address} {k m : Int}
    (step : Pool.Step p act q) (hsound : p.Sound) (hk : 0 < k)
    (hsupply : p.supply + 1 ≤ k * (m + 1))
    (hpriced : ∀ holder assets shares, act = .mint holder assets shares →
      p.supply + 1 ≤ k * (p.assets + 1))
    (hassets : q.assets ≤ m) : q.supply + 1 ≤ k * (m + 1) := by
  rcases step with ⟨hallowed, rfl⟩
  cases act with
  | mint holder assets shares =>
      rcases hallowed with ⟨hpos, -, hfair⟩
      have hprice := hpriced holder assets shares rfl
      have hunit : 0 < p.assets + 1 := by
        have := hsound.assets_nonneg
        omega
      have hminted : shares ≤ k * assets := by
        refine le_of_mul_le_mul_right ?_ hunit
        calc shares * (p.assets + 1) ≤ assets * (p.supply + 1) := hfair
          _ ≤ assets * (k * (p.assets + 1)) := mul_le_mul_of_nonneg_left hprice hpos.le
          _ = k * assets * (p.assets + 1) := by ring
      calc p.supply + shares + 1 ≤ k * (p.assets + 1) + k * assets := by omega
        _ = k * (p.cash + assets + p.lent + 1) := by
          unfold Pool.assets
          ring
        _ ≤ k * (m + 1) :=
          mul_le_mul_of_nonneg_left (by simpa [Pool.assets, Pool.Action.apply] using hassets) hk.le
  | burn holder assets shares =>
      have hburned := hallowed.2.2.1
      simp only [Pool.Action.apply]
      omega
  | _ => exact hsupply

theorem supply_le_of_run {k m : Int} (hk : 0 < k) (hm : 0 ≤ m) {usdc : Token}
    {owner feeRecipient lmOwner : Address} {now : Nat} {labels : List Label} {c : Clocked World}
    (run : Run (BoundedStep k m v) ⟨now, deployed v usdc owner feeRecipient lmOwner⟩ labels c) :
    c.state.vault.totalShares + 1 ≤ k * (m + 1) := by
  let Inv (s : Clocked World) : Prop :=
    s.state.Sound v s.now ∧ s.state.vault.totalShares + 1 ≤ k * (m + 1)
  have hstart : Inv ⟨now, deployed v usdc owner feeRecipient lmOwner⟩ := by
    refine ⟨deployed_sound v usdc owner feeRecipient lmOwner now, ?_⟩
    have hone : 1 ≤ k * (m + 1) := Int.mul_pos hk (by omega)
    simpa [deployed, Vault.construct] using hone
  refine (run.invariant (P := Inv) ?_ hstart).2
  rintro s label t ⟨hsound, hsupply⟩ ⟨hstep, hpriced, hassets⟩
  refine ⟨hstep.sound hsound, ?_⟩
  exact supply_le_of_step (hstep.simulated hsound).step hsound.books hk hsupply
    (fun holder assets shares hact => hpriced (action_mint hact)) hassets

theorem ExitBounded.of_supply_le {k m : Int} (hm : 0 < m) (hbooks : (w.pool v).Sound)
    (hsupply : w.vault.totalShares + 1 ≤ k * (m + 1)) (hassets : w.totalAssets v ≤ m)
    (hfits : k * (m + 1) * (m + 1) ≤ 2 ^ 127) : ExitBounded v w a := by
  have hnn : 0 ≤ w.totalAssets v := hbooks.assets_nonneg
  have hshares : 0 ≤ w.vault.sharesOf a := hbooks.shares_nonneg a
  have hle : w.vault.sharesOf a ≤ w.vault.totalShares := hbooks.shares_le_supply a
  have hproduct : w.vault.sharesOf a * (w.totalAssets v + 1) + m + 1 ≤ 2 ^ 127 := by
    have hone : w.vault.sharesOf a + 1 ≤ k * (m + 1) := by omega
    calc w.vault.sharesOf a * (w.totalAssets v + 1) + m + 1
        ≤ w.vault.sharesOf a * (m + 1) + (m + 1) := by
          have := mul_le_mul_of_nonneg_left (Int.add_le_add_right hassets 1) hshares
          omega
      _ = (w.vault.sharesOf a + 1) * (m + 1) := by ring
      _ ≤ k * (m + 1) * (m + 1) := mul_le_mul_of_nonneg_right hone (by omega)
      _ ≤ 2 ^ 127 := hfits
  have hvalue : w.redeemable v a * (w.vault.totalShares + 1) ≤
      w.vault.sharesOf a * (w.totalAssets v + 1) := Int.ediv_mul_le _ (by omega)
  have htwice : k * (m + 1) * 2 ≤ k * (m + 1) * (m + 1) :=
    mul_le_mul_of_nonneg_left (by omega) (by omega)
  exact ⟨by omega, by omega, by omega⟩

/-- In every reachable state a holder's exit is free of overflow exactly within its bounds,
and a redemption of everything then fails for want of cash only. They hold wherever each
deposit was made with at most `k` shares a unit of the assets, while the assets stay within
`m` and `k (m + 1)²` fits. -/
theorem exit_never_traps {c : Clocked World} (h : Reachable v c)
    (hpos : 0 < c.state.vault.sharesOf a) :
    (ExitsWhole v c.state a ↔ ExitBounded v c.state a) ∧
      ∀ k m : Int, 0 < k → 0 < m → k * (m + 1) * (m + 1) ≤ 2 ^ 127 →
        ∀ usdc owner feeRecipient lmOwner now labels,
          Run (BoundedStep k m v) ⟨now, deployed v usdc owner feeRecipient lmOwner⟩ labels c →
            ExitsWhole v c.state a := by
  have hbooks := h.sound.books
  refine ⟨exitsWhole_iff hbooks hpos, ?_⟩
  intro k m hk hm hfits usdc owner feeRecipient lmOwner now labels run
  have hsupply := supply_le_of_run hk hm.le run
  refine (exitsWhole_iff hbooks hpos).mpr (.of_supply_le hm hbooks hsupply ?_ hfits)
  cases run with
  | nil =>
      -- nobody holds anything before the first call
      exact absurd hpos (lt_irrefl 0)
  | snoc _ hlast => exact hlast.2.2

/-- The provider of a running loan, with prices up to two shares a unit. -/
theorem exit_never_traps_lending :
    ∃ c, Reachable ⟨1⟩ c ∧ 0 < c.state.vault.sharesOf ⟨4⟩ ∧ ExitsWhole ⟨1⟩ c.state ⟨4⟩ := by
  have hrun : ∃ c, Clocked.run? Call.timestamp (Call.exec ⟨1⟩) launch lendingCalls = some c ∧
      0 < c.state.vault.sharesOf ⟨4⟩ ∧ c.state.vault.totalShares + 1 < 2 ^ 127 ∧
      c.state.vault.sharesOf ⟨4⟩ * (c.state.totalAssets ⟨1⟩ + 1) < 2 ^ 127 ∧
      c.state.redeemable ⟨1⟩ ⟨4⟩ * (c.state.vault.totalShares + 1) +
      c.state.totalAssets ⟨1⟩ < 2 ^ 127 := by
    decide
  rcases hrun with ⟨c, hc, hpos, hsupply, hshares, hredeemed⟩
  have hreach : Reachable ⟨1⟩ c := reachable_of_run? hc (by decide)
  exact ⟨c, hreach, hpos, (exit_never_traps hreach hpos).1.mpr ⟨hsupply, hshares, hredeemed⟩⟩

/-! ## A total loss -/

theorem exec_supply {e : Env} {now : Nat} {op : Op} {o : Outcome World Ret} (hsound : w.Sound v now)
    (h : exec e w op = .ok o) :
    ∑ᶠ b, o.state.usdc.balance b = ∑ᶠ b, w.usdc.balance b := by
  have hmoved (source target : Address) (amount : Int) :
      ∑ᶠ b, Token.moved w.usdc.balance source target amount b = ∑ᶠ b, w.usdc.balance b :=
    Token.finsum_moved _ _ _ _ w.usdc.finite_support
  have hpaid {payer b : Address} {r : Vault.Payment} {w' : World}
      (heffect : Vault.PaymentEffect e w payer b r w') :
      ∑ᶠ b, w'.usdc.balance b = ∑ᶠ b, w.usdc.balance b := by
    have husdc : w'.usdc.balance = Vault.paidBalance e w payer r := by
      cases heffect with
      | closed _ husdc => exact husdc
      | reduced _ _ _ _ _ husdc => exact husdc
    rw [husdc, Vault.paidBalance,
      Token.finsum_moved _ _ _ _ (Token.moved_finite _ _ _ _ w.usdc.finite_support)]
    exact hmoved _ _ _
  have hlive : ∀ b, (w.loanManager.readLoan b).active = true → (w.loanManager.readLoan b).Live :=
    fun b => (hsound.loanManager.loans b).live
  cases op with
  | vault op =>
      cases op <;> simp only [exec, Vault.exec, map_eq_ok] at h <;> rcases h
        with ⟨_, ⟨r, h, rfl⟩, rfl⟩
      case deposit =>
        rcases Vault.mintFor_spec (Vault.deposit_spec h).2.2 with ⟨_, _, _, husdc, _, _⟩
        exact (congrArg (fun f => ∑ᶠ b, f b) husdc).trans (hmoved _ _ _)
      case depositFrom =>
        rcases Vault.mintFor_spec (Vault.depositFrom_spec h).2.2.2 with ⟨_, _, _, husdc, _, _⟩
        exact (congrArg (fun f => ∑ᶠ b, f b) husdc).trans (hmoved _ _ _)
      case withdraw =>
        rcases Vault.burnFor_eq_ok.mp (Vault.withdraw_spec h).2.2.2.2 with ⟨_, _, _, _, husdc, _, _⟩
        exact (congrArg (fun f => ∑ᶠ b, f b) husdc).trans (hmoved _ _ _)
      case redeem =>
        rcases Vault.burnFor_eq_ok.mp (Vault.redeem_eq_ok.mp h).2.2.2.2.2.1
          with ⟨_, _, _, _, husdc, _, _⟩
        exact (congrArg (fun f => ∑ᶠ b, f b) husdc).trans (hmoved _ _ _)
      case borrowWithTerm =>
        rcases Vault.borrowWithTerm_spec h with ⟨_, _, _, _, husdc, _, _⟩
        exact (congrArg (fun f => ∑ᶠ b, f b) husdc).trans (hmoved _ _ _)
      case repay =>
        rcases Vault.repay_spec (hlive _) h with ⟨_, _, _, _, _, heffect⟩
        exact hpaid heffect
      case repayPartial =>
        rcases Vault.repayPartial_spec (hlive _) h with ⟨_, _, _, _, _, _, heffect⟩
        exact hpaid heffect
      case manualWriteOff =>
        rcases Vault.manualWriteOff_spec h with ⟨_, amt, _, ⟨_, hstate⟩ | ⟨_, _, hstate⟩⟩ <;>
          simp only [Outcome.as, hstate]
      case setFeeRecipient =>
        simp only [Vault.setFeeRecipient, bind_eq_ok, pure_eq_ok] at h
        rcases h with ⟨_, _, rfl⟩
        rfl
  | loanManager op =>
      rcases map_eq_ok.mp h with ⟨_, _, rfl⟩
      rfl
  | transfer source target amount =>
      rcases map_eq_ok.mp h with ⟨usdc, htransfer, rfl⟩
      rcases Token.transfer_eq_ok.mp htransfer with ⟨_, _, _, husdc⟩
      exact (congrArg (fun f => ∑ᶠ b, f b) husdc).trans (hmoved _ _ _)

theorem supply_of_run {usdc : Token} {owner feeRecipient lmOwner : Address} {now : Nat}
    {labels : List Label} {c : Clocked World}
    (run : Run (Step v) ⟨now, deployed v usdc owner feeRecipient lmOwner⟩ labels c) :
    ∑ᶠ b, c.state.usdc.balance b = ∑ᶠ b, usdc.balance b := by
  let Inv (s : Clocked World) : Prop :=
    s.state.Sound v s.now ∧ ∑ᶠ b, s.state.usdc.balance b = ∑ᶠ b, usdc.balance b
  have hstart : Inv ⟨now, deployed v usdc owner feeRecipient lmOwner⟩ :=
    ⟨deployed_sound v usdc owner feeRecipient lmOwner now, rfl⟩
  refine (run.invariant (P := Inv) ?_ hstart).2
  rintro s label t ⟨hsound, hsupply⟩ hstep
  rcases hstep.exec_ok with ⟨o, ho, hstate, -⟩
  refine ⟨hstep.sound hsound, ?_⟩
  rw [← hstate, exec_supply hsound ho, hsupply]

/-- Account `4` holds ten million units of seven decimals. -/
def millions : Clocked World :=
  ⟨1000, deployed ⟨1⟩ (Token.single ⟨4⟩ 100000000000000 (by decide) (by decide)) ⟨2⟩ ⟨3⟩ ⟨2⟩⟩

/-- One million is deposited, lent out to account `5`, and lost; then as much is deposited again. -/
def totalLossCalls : List Call :=
  [.signedBy ⟨4⟩ 1000 (.vault (.deposit ⟨4⟩ 10000000000000)),
    .signedBy ⟨2⟩ 1000 (.loanManager (.setUserRisk ⟨5⟩ 600 true 0 10000000000000)),
    .signedBy ⟨2⟩ 1000 (.loanManager (.setLoanOffer ⟨5⟩ 7 500 2000 10000000000000)),
    .signedBy ⟨5⟩ 1000 (.vault (.borrowWithTerm ⟨5⟩ 10000000000000 7 500)),
    .signedBy ⟨2⟩ 1988201 (.loanManager (.markDefault ⟨5⟩)),
    .signedBy ⟨2⟩ 1988201 (.vault (.manualWriteOff ⟨5⟩ 10000000000000)),
    .signedBy ⟨4⟩ 1988201 (.vault (.deposit ⟨4⟩ 10000000000000))]

/-- With the token's supply far under its bound, the holder cannot redeem after the loss. -/
theorem exit_traps_after_total_loss :
    ∃ c, Reachable ⟨1⟩ c ∧ ∑ᶠ b, c.state.usdc.balance b ≤ 2 ^ 63 - 1 ∧
      0 < c.state.vault.sharesOf ⟨4⟩ ∧ ∃ e : Env, e.contract = ⟨1⟩ ∧ e.auth ⟨4⟩ = true ∧
        Vault.toAssets e c.state (c.state.vault.sharesOf ⟨4⟩) = .error .trap ∧
        Vault.redeem e c.state ⟨4⟩ (c.state.vault.sharesOf ⟨4⟩) = .error .trap := by
  let e : Env := ⟨1988201, ⟨1⟩, fun b => b = ⟨4⟩⟩
  have hrun : ∃ c, Clocked.run? Call.timestamp (Call.exec ⟨1⟩) millions totalLossCalls = some c ∧
      0 < c.state.vault.sharesOf ⟨4⟩ ∧
      Vault.toAssets e c.state (c.state.vault.sharesOf ⟨4⟩) = .error .trap := by decide
  rcases hrun with ⟨c, hc, hpos, htrap⟩
  rcases run_of_run? hc (by decide) with ⟨labels, run, -⟩
  have hsupply : ∑ᶠ b, c.state.usdc.balance b = 100000000000000 := by
    rw [supply_of_run run]
    exact (finsum_eq_single _ (⟨4⟩ : Address) fun b hb => if_neg hb).trans (if_pos rfl)
  exact ⟨c, ⟨_, _, _, _, _, labels, run⟩, by omega, hpos, e, rfl, rfl, htrap,
    redeem_traps rfl hpos htrap⟩

end Lendoor.System
