import Lendoor.System.Exit

/-! # The position the market page offers for withdrawal

The page values the shares at `total_assets / total_supply`; the contract's own price has
one virtual share and one virtual unit, and a withdrawal burns rounded up. With more assets
than shares, the page's price is the higher one.
-/

namespace Lendoor.Frontend

open Lendoor.System

structure StellarVaultBalance where
  shares : Int
  assets : Int
  totalAssets : Int
  totalSupply : Int
  deriving DecidableEq, Repr

/-- The three reads, and the position they are worth. The division of big integers
truncates. -/
def stellarReadVaultBalance (e : Env) (w : World) (account : Address) :
    Except Fault StellarVaultBalance := do
  let s := w.vault.sharesOf account
  let ta ← Vault.totalAssets e w
  let ts := w.vault.totalShares
  let assets := if ts > 0 then (s * ta).tdiv ts else 0
  pure ⟨s, assets, ta, ts⟩

/-- The page passes the amount through to `withdraw`, signed by the account. -/
def stellarWithdraw (e : Env) (w : World) (source : Address) (assets : Int) :
    Except Fault (Outcome World Int) :=
  Vault.withdraw e w source assets

/-- The assets in excess of the shares, seen from this position, are made up for by what
the page's own division drops. -/
def Covered (v : Address) (w : World) (account : Address) : Prop :=
  w.vault.sharesOf account * (w.totalAssets v - w.vault.totalShares) ≤
    w.vault.sharesOf account * w.totalAssets v % w.vault.totalShares * (w.vault.totalShares + 1)

instance (v : Address) (w : World) (account : Address) : Decidable (Covered v w account) :=
  inferInstanceAs (Decidable (_ ≤ _))

/-- The intermediate values of `to_shares_ceil(assets)` fit 128 bits. -/
def BurnFits (v : Address) (w : World) (assets : Int) : Prop :=
  I128.Fits (w.vault.totalShares + 1) ∧ I128.Fits (w.totalAssets v + 1) ∧
    I128.Fits (assets * (w.vault.totalShares + 1) + w.totalAssets v)

instance (v : Address) (w : World) (assets : Int) : Decidable (BurnFits v w assets) :=
  inferInstanceAs (Decidable (_ ∧ _ ∧ _))

variable {e : Env} {w : World} {account : Address}

/-- With no more assets than shares the position is covered. -/
theorem Covered.of_totalAssets_le {v : Address} (hbooks : (w.pool v).Sound)
    (h : w.totalAssets v ≤ w.vault.totalShares) : Covered v w account := by
  have hshares : 0 ≤ w.vault.sharesOf account := hbooks.shares_nonneg account
  have hsupply : 0 ≤ w.vault.totalShares := hbooks.supply_nonneg
  have hexcess : w.vault.sharesOf account * (w.totalAssets v - w.vault.totalShares) ≤ 0 :=
    mul_nonpos_of_nonneg_of_nonpos hshares (by omega)
  have hassets : 0 ≤ w.totalAssets v := hbooks.assets_nonneg
  rcases Int.lt_or_le 0 w.vault.totalShares with hsome | hnone
  · have hdropped := Int.emod_nonneg (w.vault.sharesOf account * w.totalAssets v) hsome.ne'
    exact hexcess.trans (mul_nonneg hdropped (by omega))
  · have hzero : w.vault.totalShares = 0 := by omega
    have hholder : w.vault.sharesOf account = 0 := by
      have hle : w.vault.sharesOf account ≤ w.vault.totalShares := hbooks.shares_le_supply account
      omega
    simp [Covered, hholder]

/-- A read that returns shows the plain quotient of some supply, or nothing. -/
theorem stellarReadVaultBalance_spec {b : StellarVaultBalance} (hbooks : (w.pool e.contract).Sound)
    (h : stellarReadVaultBalance e w account = .ok b) (hpos : 0 < b.assets) :
    0 < w.vault.totalShares ∧
      b.assets = w.vault.sharesOf account * w.totalAssets e.contract / w.vault.totalShares := by
  have hnum : 0 ≤ w.vault.sharesOf account * w.totalAssets e.contract :=
    mul_nonneg (hbooks.shares_nonneg account) hbooks.assets_nonneg
  simp only [stellarReadVaultBalance, Vault.totalAssets, bind_eq_ok,
    unwrapOr_eq_ok, I128.add_eq_some, pure_eq_ok] at h
  rcases h with ⟨_, ⟨rfl, -⟩, rfl⟩
  simp only at hpos ⊢
  split at hpos
  · rename_i hsome
    refine ⟨hsome, ?_⟩
    rw [if_pos hsome]
    exact Int.tdiv_eq_ediv_of_nonneg hnum
  · omega

/-- A withdrawal that is authorized, positive and held in cash either returns, when the
burn fits and the holder has the shares, or fails for one of the two. -/
theorem withdraw_cases {assets : Int} (hbooks : (w.pool e.contract).Sound)
    (hauth : e.auth account = true)
    (hpos : 0 < assets) (hcash : assets ≤ Vault.cash e w) (hfits : BurnFits e.contract w assets) :
    (assets ≤ w.redeemable e.contract account ∧ ∃ o, Vault.withdraw e w account assets = .ok o) ∨
      (w.redeemable e.contract account < assets ∧
        Vault.withdraw e w account assets = .error (.vault .insufficientShares)) := by
  rcases hfits with ⟨hsum, hunit, hnum⟩
  have hassets : 0 ≤ w.totalAssets e.contract := hbooks.assets_nonneg
  have hsupply : 0 ≤ w.vault.totalShares := hbooks.supply_nonneg
  have hle : w.vault.sharesOf account ≤ w.vault.totalShares := hbooks.shares_le_supply account
  have hnn : 0 ≤ assets * (w.vault.totalShares + 1) := by positivity
  let shares := (assets * (w.vault.totalShares + 1) + w.totalAssets e.contract) /
    (w.totalAssets e.contract + 1)
  have hheld : I128.Fits (w.totalAssets e.contract) := I128.Fits.of_le hassets (by omega) hunit
  have hproduct : I128.Fits (assets * (w.vault.totalShares + 1)) :=
    I128.Fits.of_le hnn (by omega) hnum
  have hceil : Vault.toSharesCeil e w assets = .ok shares :=
    (Vault.toSharesCeil_eq_ok hbooks hpos.le).mpr ⟨hheld, hsum, hproduct, hnum, hunit, rfl⟩
  have hshares : shares ≤ w.vault.sharesOf account ↔ assets ≤ w.redeemable e.contract account := by
    rw [World.redeemable, Int.le_ediv_iff_mul_le (by omega)]
    exact SharePool.ceil_le_iff _ _ hassets
  have hburned : 0 ≤ shares := Int.ediv_nonneg (by omega) (by omega)
  rcases Int.lt_or_le (w.redeemable e.contract account) assets with hshort | hcovered
  · refine .inr ⟨hshort, ?_⟩
    have hmore : shares > w.vault.sharesOf account := by omega
    have hsome : ¬ assets ≤ 0 := by omega
    have hpaid : ¬ assets > Vault.cash e w := by omega
    simp only [Vault.withdraw, Env.requireAuth, panicIf, hauth, if_neg hsome, if_neg hpaid, hceil,
      if_pos hmore, ok_bind, Bool.true_eq_false, if_false]
    rfl
  · refine .inl ⟨hcovered, ?_⟩
    have henough := hshares.mpr hcovered
    obtain ⟨usdc, -, husdc⟩ := Token.transfer_ok account (Env.subcall_auth_contract e) hpos.le hcash
    have hburn : Vault.burnFor e w account shares assets =
        .ok ⟨usdc, w.vault.credited account (-shares), w.loanManager⟩ :=
      Vault.burnFor_eq_ok.mpr ⟨I128.Fits.of_le (by omega) (by omega) hsum,
        I128.Fits.of_le (by omega) (by omega) hsum, hpos.le, hcash, husdc, rfl, rfl⟩
    exact ⟨⟨_, [.withdraw account assets shares], shares⟩,
      Vault.withdraw_eq_ok.mpr ⟨hauth, hpos, hcash, hceil, henough, hburn, rfl⟩⟩

/-- A withdrawal that returns had a burn that fits. -/
theorem BurnFits.of_withdraw {assets : Int} {o : Outcome World Int}
    (hbooks : (w.pool e.contract).Sound)
    (h : Vault.withdraw e w account assets = .ok o) : BurnFits e.contract w assets := by
  rcases Vault.withdraw_eq_ok.mp h with ⟨-, hpos, -, hceil, -⟩
  rcases (Vault.toSharesCeil_eq_ok hbooks hpos.le).mp hceil with ⟨-, hsum, -, hnum, hunit, -⟩
  exact ⟨hsum, hunit, hnum⟩

/-- In every reachable state, the displayed position is at most what the contract redeems
the shares for exactly when it is covered. When it is positive and held in cash, its
withdrawal returns exactly when it is also within 128 bits, and of the two it is for lack
of shares that an uncovered one fails. It is covered while the assets are no more than the
shares. -/
theorem withdraw_displayed {v : Address} {c : Clocked World} (h : Reachable v c)
    (hv : e.contract = v) (hauth : e.auth account = true) {b : StellarVaultBalance}
    (hread : stellarReadVaultBalance e c.state account = .ok b) (hpos : 0 < b.assets)
    (hcash : b.assets ≤ Vault.cash e c.state) :
    (b.assets ≤ c.state.redeemable v account ↔ Covered v c.state account) ∧
      ((∃ o, stellarWithdraw e c.state account b.assets = .ok o) ↔
        Covered v c.state account ∧ BurnFits v c.state b.assets) ∧
      (BurnFits v c.state b.assets → ¬ Covered v c.state account →
        stellarWithdraw e c.state account b.assets = .error (.vault .insufficientShares)) ∧
      (c.state.totalAssets v ≤ c.state.vault.totalShares → Covered v c.state account) := by
  subst hv
  have hbooks := h.sound.books
  rcases stellarReadVaultBalance_spec hbooks hread hpos with ⟨hsome, hassets⟩
  have hvalue : b.assets ≤ c.state.redeemable e.contract account ↔
      Covered e.contract c.state account := by
    rw [hassets]
    exact SharePool.plain_le_value_iff _ hsome
  refine ⟨hvalue, ⟨?_, ?_⟩, ?_, Covered.of_totalAssets_le hbooks⟩
  · intro hok
    rcases hok with ⟨o, ho⟩
    have hfits := BurnFits.of_withdraw hbooks ho
    rcases withdraw_cases hbooks hauth hpos hcash hfits with ⟨hle, -⟩ | ⟨-, herror⟩
    · exact ⟨hvalue.mp hle, hfits⟩
    · rw [stellarWithdraw, herror] at ho
      cases ho
  · intro hcond
    rcases withdraw_cases hbooks hauth hpos hcash hcond.2 with ⟨-, hok⟩ | ⟨hlt, -⟩
    · exact hok
    · have := hvalue.mpr hcond.1
      omega
  · intro hfits hnot
    rcases withdraw_cases hbooks hauth hpos hcash hfits with ⟨hle, -⟩ | ⟨-, herror⟩
    · exact absurd (hvalue.mp hle) hnot
    · exact herror

/-- The borrower lends some of its own loan before the loan is paid back. -/
def smallShareCalls : List Call :=
  lendingCalls ++ [.signedBy ⟨5⟩ 1000 (.vault (.deposit ⟨5⟩ 1000000)), payoff]

/-- Once interest is paid, the small provider withdraws what the page shows. -/
theorem withdraw_displayed_small_share :
    ∃ c b o, Reachable ⟨1⟩ c ∧ c.state.vault.totalShares < c.state.totalAssets ⟨1⟩ ∧
      stellarReadVaultBalance ⟨4000, ⟨1⟩, fun a => a = ⟨5⟩⟩ c.state ⟨5⟩ = .ok b ∧
      b.assets = 1000677 ∧
      stellarWithdraw ⟨4000, ⟨1⟩, fun a => a = ⟨5⟩⟩ c.state ⟨5⟩ b.assets = .ok o := by
  let e : Env := ⟨4000, ⟨1⟩, fun a => a = ⟨5⟩⟩
  have hrun : ∃ c, Clocked.run? Call.timestamp (Call.exec ⟨1⟩) launch smallShareCalls = some c ∧
      c.state.vault.totalShares < c.state.totalAssets ⟨1⟩ ∧
      ∃ b, stellarReadVaultBalance e c.state ⟨5⟩ = .ok b ∧ b.assets = 1000677 ∧
        b.assets ≤ Vault.cash e c.state ∧ Covered ⟨1⟩ c.state ⟨5⟩ ∧
        BurnFits ⟨1⟩ c.state b.assets := by decide
  rcases hrun with ⟨c, hc, hmore, b, hread, hassets, hcash, hcovered, hfits⟩
  have hreach : Reachable ⟨1⟩ c := reachable_of_run? hc (by decide)
  rcases (withdraw_displayed hreach rfl (by decide) hread (by omega) hcash).2.1.mpr
    ⟨hcovered, hfits⟩ with ⟨o, ho⟩
  exact ⟨c, b, o, hreach, hmore, hread, hassets, ho⟩

/-- Once a borrower has paid interest, the only provider cannot withdraw what the page shows. -/
theorem withdraw_displayed_fails :
    ∃ c b, ∃ e : Env, Reachable ⟨1⟩ c ∧ e.contract = ⟨1⟩ ∧ e.auth ⟨4⟩ = true ∧
      stellarReadVaultBalance e c.state ⟨4⟩ = .ok b ∧ 0 < b.assets ∧
        b.assets ≤ Vault.cash e c.state ∧
      stellarWithdraw e c.state ⟨4⟩ b.assets = .error (.vault .insufficientShares) ∧
      c.state.redeemable ⟨1⟩ ⟨4⟩ < b.assets := by
  let e : Env := ⟨4000, ⟨1⟩, fun a => a = ⟨4⟩⟩
  have hrun : ∃ c, Clocked.run? Call.timestamp (Call.exec ⟨1⟩) launch payoffCalls = some c ∧
      ∃ b, stellarReadVaultBalance e c.state ⟨4⟩ = .ok b ∧ 0 < b.assets ∧
        b.assets ≤ Vault.cash e c.state ∧ BurnFits ⟨1⟩ c.state b.assets ∧
        c.state.redeemable ⟨1⟩ ⟨4⟩ < b.assets := by decide
  rcases hrun with ⟨c, hc, b, hread, hpos, hcash, hfits, hless⟩
  have hreach : Reachable ⟨1⟩ c := reachable_of_run? hc (by decide)
  refine ⟨c, b, e, hreach, rfl, rfl, hread, hpos, hcash, ?_, hless⟩
  have hauth : e.auth ⟨4⟩ = true := rfl
  rcases withdraw_cases hreach.sound.books hauth hpos hcash hfits with ⟨hle, -⟩ | ⟨-, herror⟩
  · exact absurd hless (not_lt.mpr hle)
  · exact herror

end Lendoor.Frontend
