import Lendoor.Core.SharePool
import Lendoor.Core.Storage
import Mathlib.Logic.Function.Basic

/-! # An abstract lending pool

A pool over any type of accounts: cash and lent principal on the asset side,
shares on the other, and for each account the principal it borrowed and the part
of it recognised as lost. An action says what happened to the money and nothing
about who asked for it; its guard is what keeps the books balanced and the share
price from falling.
-/

namespace Lendoor

/-- The books of a lending pool over accounts `K`. -/
@[ext] structure Pool (K : Type) where
  cash : Int
  lent : Int
  supply : Int
  shares : K → Int
  principal : K → Int
  writtenOff : K → Int
  impaired : K → Bool

namespace Pool

variable {K : Type}

def assets (p : Pool K) : Int := p.cash + p.lent

/-- What the shares of `k` redeem for, rounded down. -/
def position (p : Pool K) (k : K) : Int := SharePool.value p.assets p.supply (p.shares k)

/-- The books balance: the supply is the sum of all holdings, the lent amount is
the sum of all principal not written off, and only an impaired loan is written off. -/
structure Sound (p : Pool K) : Prop where
  cash_nonneg : 0 ≤ p.cash
  shares_nonneg : ∀ k, 0 ≤ p.shares k
  shares_finite : (Function.support p.shares).Finite
  supply_eq : ∑ᶠ k, p.shares k = p.supply
  writtenOff_nonneg : ∀ k, 0 ≤ p.writtenOff k
  writtenOff_le : ∀ k, p.writtenOff k ≤ p.principal k
  principal_finite : (Function.support p.principal).Finite
  lent_eq : p.lent = ∑ᶠ k, (p.principal k - p.writtenOff k)
  writtenOff_impaired : ∀ k, 0 < p.writtenOff k → p.impaired k = true

namespace Sound

variable {p : Pool K}

theorem supply_nonneg (h : p.Sound) : 0 ≤ p.supply :=
  h.supply_eq ▸ finsum_nonneg h.shares_nonneg

theorem principal_nonneg (h : p.Sound) (k : K) : 0 ≤ p.principal k :=
  (h.writtenOff_nonneg k).trans (h.writtenOff_le k)

theorem lent_nonneg (h : p.Sound) : 0 ≤ p.lent := by
  rw [h.lent_eq]
  exact finsum_nonneg fun k => sub_nonneg.mpr (h.writtenOff_le k)

theorem assets_nonneg (h : p.Sound) : 0 ≤ p.assets :=
  add_nonneg h.cash_nonneg h.lent_nonneg

theorem shares_le_supply (h : p.Sound) (k : K) : p.shares k ≤ p.supply := by
  rw [← h.supply_eq]
  exact le_finsum_of_nonneg k h.shares_finite h.shares_nonneg

theorem writtenOff_finite (h : p.Sound) : (Function.support p.writtenOff).Finite := by
  refine h.principal_finite.subset ?_
  intro k hk habs
  apply hk
  exact le_antisymm (habs ▸ h.writtenOff_le k) (h.writtenOff_nonneg k)

theorem outstanding_finite (h : p.Sound) :
    (Function.support fun k => p.principal k - p.writtenOff k).Finite := by
  refine h.principal_finite.subset ?_
  intro k hk habs
  apply hk
  have hnn := h.writtenOff_nonneg k
  have hle := h.writtenOff_le k
  show p.principal k - p.writtenOff k = 0
  omega

/-- A loan that is not impaired has nothing written off. -/
theorem writtenOff_eq_zero (h : p.Sound) {k : K} (hk : p.impaired k = false) :
    p.writtenOff k = 0 := by
  have hnn := h.writtenOff_nonneg k
  have himp := h.writtenOff_impaired k
  by_contra hne
  rw [himp (by omega)] at hk
  cases hk

/-- One account's outstanding principal is part of the lent amount. -/
theorem outstanding_le_lent (h : p.Sound) (k : K) :
    p.principal k - p.writtenOff k ≤ p.lent := by
  rw [h.lent_eq]
  exact le_finsum_of_nonneg k h.outstanding_finite
    fun j => sub_nonneg.mpr (h.writtenOff_le j)

/-- Assets are cash and principal, less what was written off. -/
theorem assets_eq (h : p.Sound) :
    p.assets = p.cash + ∑ᶠ k, p.principal k - ∑ᶠ k, p.writtenOff k := by
  rw [assets, h.lent_eq, finsum_sub_distrib h.principal_finite h.writtenOff_finite]
  omega

/-- All positions together are covered by the assets. -/
theorem finsum_position_le (h : p.Sound) : ∑ᶠ k, p.position k ≤ p.assets :=
  SharePool.finsum_value_le h.assets_nonneg h.shares_nonneg h.shares_finite h.supply_eq

theorem position_le_assets (h : p.Sound) (k : K) : p.position k ≤ p.assets := by
  have hlt : p.position k < p.assets + 1 := by
    refine SharePool.value_lt_of_lt_mul h.supply_nonneg ?_
    have hassets := h.assets_nonneg
    calc p.shares k * (p.assets + 1) ≤ p.supply * (p.assets + 1) :=
          mul_le_mul_of_nonneg_right (h.shares_le_supply k) (by omega)
      _ < (p.assets + 1) * (p.supply + 1) := by linarith
  omega

end Sound

/-! ## Actions -/

/-- One movement of the books. -/
inductive Action (K : Type)
  | mint (holder : K) (assets shares : Int)
  | burn (holder : K) (assets shares : Int)
  | lend (borrower : K) (amount : Int)
  | collect (borrower : K) (principal gain : Int)
  | settle (borrower : K) (gain : Int)
  | writeOff (borrower : K) (amount : Int)
  | impair (borrower : K)
  | donate (amount : Int)
  | idle

/-- When an action keeps the books in order. Mints and burns are fair at the
current price, a loan starts from nothing, and a part payment is on a healthy loan. -/
def Action.Allowed (p : Pool K) : Action K → Prop
  | .mint _ assets shares =>
      0 < assets ∧ 0 < shares ∧ shares * (p.assets + 1) ≤ assets * (p.supply + 1)
  | .burn holder assets shares =>
      0 ≤ assets ∧ assets ≤ p.cash ∧ 0 ≤ shares ∧ shares ≤ p.shares holder ∧
        assets * (p.supply + 1) ≤ shares * (p.assets + 1)
  | .lend borrower amount => 0 < amount ∧ amount ≤ p.cash ∧ p.principal borrower = 0
  | .collect borrower principal gain =>
      0 ≤ principal ∧ principal ≤ p.principal borrower ∧ 0 ≤ gain ∧ p.impaired borrower = false
  | .settle _ gain => 0 ≤ gain
  | .writeOff borrower amount =>
      0 < amount ∧ amount ≤ p.principal borrower - p.writtenOff borrower ∧
        p.impaired borrower = true
  | .impair _ => True
  | .donate amount => 0 ≤ amount
  | .idle => True

variable [DecidableEq K]

/-- The books after an action. -/
def Action.apply (p : Pool K) : Action K → Pool K
  | .mint holder assets shares =>
      { p with
        cash := p.cash + assets
        supply := p.supply + shares
        shares := Function.update p.shares holder (p.shares holder + shares) }
  | .burn holder assets shares =>
      { p with
        cash := p.cash - assets
        supply := p.supply - shares
        shares := Function.update p.shares holder (p.shares holder - shares) }
  | .lend borrower amount =>
      { p with
        cash := p.cash - amount
        lent := p.lent + amount
        principal := Function.update p.principal borrower amount
        impaired := Function.update p.impaired borrower false }
  | .collect borrower principal gain =>
      { p with
        cash := p.cash + principal + gain
        lent := p.lent - principal
        principal := Function.update p.principal borrower (p.principal borrower - principal) }
  | .settle borrower gain =>
      { p with
        cash := p.cash + p.principal borrower + gain
        lent := p.lent - (p.principal borrower - p.writtenOff borrower)
        principal := Function.update p.principal borrower 0
        writtenOff := Function.update p.writtenOff borrower 0
        impaired := Function.update p.impaired borrower false }
  | .writeOff borrower amount =>
      { p with
        lent := p.lent - amount
        writtenOff := Function.update p.writtenOff borrower (p.writtenOff borrower + amount) }
  | .impair borrower => { p with impaired := Function.update p.impaired borrower true }
  | .donate amount => { p with cash := p.cash + amount }
  | .idle => p

/-- One allowed movement. -/
def Step (p : Pool K) (a : Action K) (q : Pool K) : Prop := a.Allowed p ∧ q = a.apply p

/-! ## The books stay balanced -/

/-- A holding changed at one account moves the supply by the change. -/
theorem Sound.set_shares {p : Pool K} (h : p.Sound) (k : K) {x : Int} (hx : 0 ≤ x) (cash : Int)
    (hcash : 0 ≤ cash) :
    Sound { p with
      cash := cash
      supply := p.supply + (x - p.shares k)
      shares := Function.update p.shares k x } := by
  have hoff : ∀ j, j ≠ k → Function.update p.shares k x j = p.shares j :=
    fun j hj => Function.update_of_ne hj _ _
  refine { h with
    cash_nonneg := hcash
    shares_nonneg := ?_
    shares_finite := finite_support_of_eq_off k h.shares_finite hoff
    supply_eq := ?_ }
  · intro j
    by_cases hj : j = k
    · subst hj
      simpa using hx
    · simpa [hj] using h.shares_nonneg j
  · rw [finsum_eq_add_of_eq_off k h.shares_finite hoff, h.supply_eq, Function.update_self]

/-- A loan changed at one account moves the lent amount by the change. -/
theorem Sound.set_loan {p : Pool K} (h : p.Sound) (k : K) {x y : Int} {b : Bool}
    (hy : 0 ≤ y) (hyx : y ≤ x) (himp : 0 < y → b = true) (cash : Int) (hcash : 0 ≤ cash) :
    Sound { p with
      cash := cash
      lent := p.lent + ((x - y) - (p.principal k - p.writtenOff k))
      principal := Function.update p.principal k x
      writtenOff := Function.update p.writtenOff k y
      impaired := Function.update p.impaired k b } := by
  refine { h with
    cash_nonneg := hcash
    writtenOff_nonneg := ?_
    writtenOff_le := ?_
    principal_finite := ?_
    lent_eq := ?_
    writtenOff_impaired := ?_ }
  · intro j
    by_cases hj : j = k
    · subst hj
      simpa using hy
    · simpa [hj] using h.writtenOff_nonneg j
  · intro j
    by_cases hj : j = k
    · subst hj
      simpa using hyx
    · simpa [hj] using h.writtenOff_le j
  · exact finite_support_of_eq_off k h.principal_finite
      fun j hj => Function.update_of_ne hj _ _
  · rw [finsum_eq_add_of_eq_off k h.outstanding_finite, ← h.lent_eq]
    · simp
    · intro j hj
      simp [hj]
  · intro j
    by_cases hj : j = k
    · subst hj
      simpa using himp
    · simpa [hj] using h.writtenOff_impaired j

/-- Every allowed action keeps the books balanced. -/
theorem Step.sound {p q : Pool K} {a : Action K} (step : Step p a q) (h : p.Sound) : q.Sound := by
  rcases step with ⟨allowed, rfl⟩
  cases a with
  | mint k assets shares =>
      rcases allowed with ⟨hassets, hshares, -⟩
      have hold := h.shares_nonneg k
      have hcash := h.cash_nonneg
      have := h.set_shares k (x := p.shares k + shares) (by omega) (p.cash + assets) (by omega)
      simpa [Action.apply] using this
  | burn k assets shares =>
      rcases allowed with ⟨_, hcash, _, hshares, -⟩
      have := h.set_shares k (x := p.shares k - shares) (by omega) (p.cash - assets) (by omega)
      simpa [Action.apply, sub_eq_add_neg] using this
  | lend k amount =>
      rcases allowed with ⟨hpos, hcash, hnone⟩
      have hzero : p.writtenOff k = 0 :=
        le_antisymm (hnone ▸ h.writtenOff_le k) (h.writtenOff_nonneg k)
      have := h.set_loan k (x := amount) (y := 0) (b := false) le_rfl (by omega) (by omega)
        (p.cash - amount) (by omega)
      rw [hnone, hzero, ← hzero, Function.update_eq_self] at this
      simpa [Action.apply, hzero] using this
  | collect k principal gain =>
      rcases allowed with ⟨hpos, hle, hgain, hhealthy⟩
      have hzero := h.writtenOff_eq_zero hhealthy
      have hcash := h.cash_nonneg
      have := h.set_loan k (x := p.principal k - principal) (y := p.writtenOff k)
        (b := p.impaired k) (h.writtenOff_nonneg k) (by omega) (h.writtenOff_impaired k)
        (p.cash + principal + gain) (by omega)
      rw [Function.update_eq_self, Function.update_eq_self] at this
      have hlent : p.lent + ((p.principal k - principal - p.writtenOff k) -
          (p.principal k - p.writtenOff k)) = p.lent - principal := by omega
      rwa [hlent] at this
  | settle k gain =>
      have hgain : 0 ≤ gain := allowed
      have hcash := h.cash_nonneg
      have hprin := h.principal_nonneg k
      have := h.set_loan k (x := 0) (y := 0) (b := false) le_rfl le_rfl (by omega)
        (p.cash + p.principal k + gain) (by omega)
      simpa [Action.apply, sub_eq_add_neg] using this
  | writeOff k amount =>
      rcases allowed with ⟨hpos, hle, himp⟩
      have hnn := h.writtenOff_nonneg k
      have := h.set_loan k (x := p.principal k) (y := p.writtenOff k + amount)
        (b := p.impaired k) (by omega) (by omega) (fun _ => himp) p.cash h.cash_nonneg
      rw [Function.update_eq_self, Function.update_eq_self] at this
      have hlent : p.lent + ((p.principal k - (p.writtenOff k + amount)) -
          (p.principal k - p.writtenOff k)) = p.lent - amount := by omega
      rwa [hlent] at this
  | impair k =>
      have := h.set_loan k (x := p.principal k) (y := p.writtenOff k) (b := true)
        (h.writtenOff_nonneg k) (h.writtenOff_le k) (fun _ => rfl) p.cash h.cash_nonneg
      rw [Function.update_eq_self, Function.update_eq_self, sub_self, add_zero] at this
      exact this
  | donate amount =>
      have hamount : 0 ≤ amount := allowed
      exact { h with cash_nonneg := add_nonneg h.cash_nonneg hamount }
  | idle => exact h

/-! ## The share price -/

/-- Only a write-off lowers the price of a share. -/
theorem Step.price_le {p q : Pool K} {a : Action K} (step : Step p a q) (h : p.Sound)
    (hloss : ∀ k amount, a ≠ .writeOff k amount) :
    (p.assets + 1) * (q.supply + 1) ≤ (q.assets + 1) * (p.supply + 1) := by
  have hsupply := h.supply_nonneg
  rcases step with ⟨allowed, rfl⟩
  cases a with
  | mint k assets shares =>
      have := SharePool.price_mint allowed.2.2
      simp only [Action.apply, Pool.assets] at this ⊢
      linarith
  | burn k assets shares =>
      have := SharePool.price_burn allowed.2.2.2.2
      simp only [Action.apply, Pool.assets] at this ⊢
      linarith
  | lend k amount =>
      simp only [Action.apply, Pool.assets]
      linarith
  | collect k principal gain =>
      have := SharePool.price_gain (a := p.assets) hsupply allowed.2.2.1
      simp only [Action.apply, Pool.assets] at this ⊢
      linarith
  | settle k gain =>
      -- a recovered write-off is a gain on top of the interest
      have hgain : 0 ≤ gain + p.writtenOff k := add_nonneg allowed (h.writtenOff_nonneg k)
      have := SharePool.price_gain (a := p.assets) hsupply hgain
      simp only [Action.apply, Pool.assets] at this ⊢
      linarith
  | writeOff k amount => exact absurd rfl (hloss k amount)
  | impair k => exact le_rfl
  | donate amount =>
      have := SharePool.price_gain (a := p.assets) hsupply allowed
      simp only [Action.apply, Pool.assets] at this ⊢
      linarith
  | idle => exact le_rfl

/-- No action but a burn of one's own lowers one's number of shares. -/
theorem Step.shares_le {p q : Pool K} {a : Action K} (step : Step p a q) {k : K}
    (hkeep : ∀ assets shares, a ≠ .burn k assets shares) : p.shares k ≤ q.shares k := by
  rcases step with ⟨allowed, rfl⟩
  cases a with
  | mint j assets shares =>
      have hpos := allowed.2.1
      simp only [Action.apply, Function.update_apply]
      split
      · subst_vars
        omega
      · exact le_rfl
  | burn j assets shares =>
      have hne : k ≠ j := by
        intro heq
        subst heq
        exact hkeep assets shares rfl
      simp [Action.apply, Function.update_of_ne hne]
  | _ => exact le_rfl

/-- A position whose own shares are not burned loses value to write-offs only. -/
theorem Step.position_le {p q : Pool K} {a : Action K} (step : Step p a q) (h : p.Sound)
    (hloss : ∀ k amount, a ≠ .writeOff k amount) {k : K}
    (hkeep : ∀ assets shares, a ≠ .burn k assets shares) : p.position k ≤ q.position k :=
  SharePool.value_mono h.assets_nonneg h.supply_nonneg (step.sound h).supply_nonneg
    (h.shares_nonneg k) (step.shares_le hkeep) (step.price_le h hloss)

/-- The value that an action takes out of every position together. -/
def Action.loss : Action K → Int
  | .writeOff _ amount => amount
  | _ => 0

/-- A position whose own shares are not burned loses no more than what is written off. -/
theorem Step.position_le_add_loss {p q : Pool K} {a : Action K} (step : Step p a q)
    (h : p.Sound) {k : K}
    (hkeep : ∀ assets shares, a ≠ .burn k assets shares) :
    p.position k ≤ q.position k + a.loss := by
  by_cases hloss : ∃ j amount, a = .writeOff j amount
  · rcases hloss with ⟨j, amount, rfl⟩
    rcases step with ⟨allowed, rfl⟩
    have hle :=
      SharePool.value_le_value_sub_add (a := p.assets) h.supply_nonneg allowed.1.le
        (h.shares_le_supply k)
    have hassets : p.assets - amount = p.cash + (p.lent - amount) := by
      unfold Pool.assets
      omega
    rw [hassets] at hle
    exact hle
  · have hzero : a.loss = 0 := by
      cases a with
      | writeOff j amount => exact absurd ⟨j, amount, rfl⟩ hloss
      | _ => rfl
    rw [hzero, add_zero]
    exact step.position_le h (fun j amount heq => hloss ⟨j, amount, heq⟩) hkeep

/-- No action but a loan of one's own raises one's debt. -/
theorem Step.principal_le {p q : Pool K} {a : Action K} (step : Step p a q) (h : p.Sound) {k : K}
    (hkeep : ∀ amount, a ≠ .lend k amount) : q.principal k ≤ p.principal k := by
  have hnn := h.principal_nonneg k
  rcases step with ⟨allowed, rfl⟩
  cases a with
  | lend j amount =>
      have hne : k ≠ j := by
        rintro rfl
        exact hkeep amount rfl
      simp [Action.apply, Function.update_of_ne hne]
  | collect j principal gain =>
      have hpaid := allowed.1
      simp only [Action.apply, Function.update_apply]
      split
      · subst_vars
        omega
      · exact le_rfl
  | settle j gain =>
      simp only [Action.apply, Function.update_apply]
      split
      · exact hnn
      · exact le_rfl
  | _ => exact le_rfl

/-! ## Conservation -/

/-- Value an action brings into the pool from outside. -/
def Action.inflow : Action K → Int
  | .mint _ assets _ => assets
  | .burn _ assets _ => -assets
  | .collect _ _ gain => gain
  | .settle _ gain => gain
  | .donate amount => amount
  | .lend _ _ | .writeOff _ _ | .impair _ | .idle => 0

/-- Cash and lent principal together move by the inflow of each action. -/
theorem Step.conserves {p q : Pool K} {a : Action K} (step : Step p a q) (h : p.Sound) :
    q.cash + ∑ᶠ k, q.principal k = p.cash + ∑ᶠ k, p.principal k + a.inflow := by
  have hupdate : ∀ k x, ∑ᶠ j, Function.update p.principal k x j =
      ∑ᶠ j, p.principal j + (x - p.principal k) := by
    intro k x
    have := finsum_eq_add_of_eq_off (g := Function.update p.principal k x) k h.principal_finite
      (fun j hj => Function.update_of_ne hj _ _)
    rwa [Function.update_self] at this
  rcases step with ⟨allowed, rfl⟩
  cases a with
  | lend k amount =>
      have hnone := allowed.2.2
      simp only [Action.apply, Action.inflow, hupdate]
      omega
  | collect k principal gain =>
      simp only [Action.apply, Action.inflow, hupdate]
      omega
  | settle k gain =>
      simp only [Action.apply, Action.inflow, hupdate]
      omega
  | _ =>
      simp only [Action.apply, Action.inflow]
      omega

/-! ## One account acting alone -/

/-- The actions an account takes on its own position. -/
def Action.OwnedBy (k : K) : Action K → Prop
  | .mint holder _ _ => holder = k
  | .burn holder _ _ => holder = k
  | .donate _ => True
  | .idle => True
  | _ => False

/-- Acting on its own, an account never gains more on its position than it paid in:
the position less the cash it moved does not grow. -/
theorem Step.position_sub_cash_le {p q : Pool K} {a : Action K} {k : K} (step : Step p a q)
    (h : p.Sound) (own : a.OwnedBy k) : q.position k - q.cash ≤ p.position k - p.cash := by
  have hsupply := h.supply_nonneg
  have hle := h.shares_le_supply k
  rcases step with ⟨allowed, rfl⟩
  cases a with
  | mint j assets shares =>
      cases own
      rcases allowed with ⟨_, hshares, hfair⟩
      have := SharePool.value_mint_le hsupply hshares.le hle hfair
      simp only [position, Action.apply, Pool.assets, Function.update_self] at this ⊢
      rw [add_right_comm p.cash assets p.lent]
      omega
  | burn j assets shares =>
      cases own
      rcases allowed with ⟨_, _, hshares, hbal, hfair⟩
      have := SharePool.value_burn_le hshares hbal hle hfair
      simp only [position, Action.apply, Pool.assets, Function.update_self] at this ⊢
      rw [sub_add_eq_add_sub]
      omega
  | donate amount =>
      have := SharePool.value_gift_le (a := p.assets) hsupply allowed hle
      simp only [position, Action.apply, Pool.assets] at this ⊢
      rw [add_right_comm p.cash amount p.lent]
      omega
  | idle => exact le_rfl
  | _ => exact absurd own id

end Pool

end Lendoor
