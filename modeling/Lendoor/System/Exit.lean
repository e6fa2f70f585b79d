import Lendoor.System.Refinement

/-! # Solvency and exit of the providers

Shares are backed in every reachable state, and once no loan is outstanding the
providers can leave one after the other, in any order: each redemption pays the
floor of its share and leaves the rest backed.
-/

namespace Lendoor.System

/-! ## Leaving one after the other -/

/-- The listed holders redeem their full balances in this order, each in the
environment given with it. Returns the final state and the total paid out. -/
def redeemAll (w : World) : List (Env × Address) → Except Fault (World × Int)
  | [] => pure (w, 0)
  | (e, a) :: rest => do
      let o ← Vault.redeem e w a (w.vault.sharesOf a)
      let r ← redeemAll o.state rest
      pure (r.1, o.value + r.2)

/-- The intermediate values of `to_assets(balance_of(a))` fit 128 bits. -/
def ConversionFits (v : Address) (w : World) (a : Address) : Prop :=
  I128.Fits (w.vault.sharesOf a * (w.totalAssets v + 1)) ∧ I128.Fits (w.vault.totalShares + 1)

instance (v : Address) (w : World) (a : Address) : Decidable (ConversionFits v w a) :=
  inferInstanceAs (Decidable (_ ∧ _))

/-- Each redemption's own conversion fits in the state it finds. -/
def ExitFits (v : Address) (w : World) : List (Env × Address) → Prop
  | [] => True
  | (e, a) :: rest => ConversionFits v w a ∧
      ∀ o, Vault.redeem e w a (w.vault.sharesOf a) = .ok o → ExitFits v o.state rest

theorem redeem_covered {e : Env} {w : World} {a : Address} (hauth : e.auth a = true)
    (hbooks : (w.pool e.contract).Sound) (hpos : 0 < w.vault.sharesOf a)
    (hconv : Vault.toAssets e w (w.vault.sharesOf a) = .ok (w.redeemable e.contract a))
    (hsum : I128.Fits (w.vault.totalShares + 1))
    (hcash : w.redeemable e.contract a ≤ Vault.cash e w) :
    ∃ o, Vault.redeem e w a (w.vault.sharesOf a) = .ok o ∧ o.value = w.redeemable e.contract a ∧
      Vault.burnFor e w a (w.vault.sharesOf a) (w.redeemable e.contract a) = .ok o.state ∧
      o.state.vault = w.vault.credited a (-w.vault.sharesOf a) := by
  have hassets : 0 ≤ w.totalAssets e.contract := hbooks.assets_nonneg
  have hsupply : 0 ≤ w.vault.totalShares := hbooks.supply_nonneg
  have hle : w.vault.sharesOf a ≤ w.vault.totalShares := hbooks.shares_le_supply a
  have hvalue : 0 ≤ w.redeemable e.contract a :=
    SharePool.value_nonneg hassets hsupply hpos.le
  obtain ⟨usdc, _, husdc⟩ := Token.transfer_ok a
    (Env.subcall_auth_contract e) hvalue hcash
  let w' : World := ⟨usdc, w.vault.credited a (-w.vault.sharesOf a), w.loanManager⟩
  have hburn : Vault.burnFor e w a (w.vault.sharesOf a) (w.redeemable e.contract a) = .ok w' := by
    refine Vault.burnFor_eq_ok.mpr ⟨?_, ?_, hvalue, hcash, husdc, rfl, rfl⟩
    · exact I128.Fits.of_bounds (by omega) (by omega)
    · exact I128.Fits.of_le (by omega) (by omega) hsum
  exact ⟨⟨w', [.redeem a (w.redeemable e.contract a) (w.vault.sharesOf a)],
    w.redeemable e.contract a⟩,
    Vault.redeem_eq_ok.mpr ⟨hauth, hpos, le_rfl, hconv, hcash, hburn, rfl⟩, rfl, hburn, rfl⟩

theorem ConversionFits.toAssets {e : Env} {w : World} {a : Address}
    (hbooks : (w.pool e.contract).Sound)
    (hpos : 0 < w.vault.sharesOf a) (hfit : ConversionFits e.contract w a) :
    Vault.toAssets e w (w.vault.sharesOf a) = .ok (w.redeemable e.contract a) := by
  rcases hfit with ⟨hprod, hsum⟩
  have hassets : 0 ≤ w.totalAssets e.contract := hbooks.assets_nonneg
  -- a holder has at least one share, so the product bounds the sum under it
  have hsumAssets : I128.Fits (w.totalAssets e.contract + 1) :=
    I128.Fits.of_le (by omega) (le_mul_of_one_le_left (by omega) (by omega)) hprod
  exact (Vault.toAssets_eq_ok hbooks hpos.le).mpr
    ⟨I128.Fits.of_le hassets (show w.totalAssets e.contract ≤ _ by omega) hsumAssets, hsumAssets,
      hprod, hsum, rfl⟩

/-- With nothing lent out, a holder whose conversion fits can redeem everything:
it is paid its redeemable value, and the books show one burn. -/
theorem redeem_all_shares {v : Address} {e : Env} {w : World} {a : Address} (hv : e.contract = v)
    (hauth : e.auth a = true) (ha : a ≠ v) (hbooks : (w.pool v).Sound)
    (hborrows : w.vault.totalBorrows = 0) (hpos : 0 < w.vault.sharesOf a)
    (hfit : ConversionFits v w a) :
    ∃ o, Vault.redeem e w a (w.vault.sharesOf a) = .ok o ∧ o.value = w.redeemable v a ∧
      Pool.Step (w.pool v) (.burn a o.value (w.vault.sharesOf a)) (o.state.pool v) ∧
      o.state.vault.totalBorrows = 0 := by
  subst hv
  have hsupply : 0 ≤ w.vault.totalShares := hbooks.supply_nonneg
  have hcash : w.redeemable e.contract a ≤ Vault.cash e w := by
    have hposition := hbooks.position_le_assets a
    have hlent : (w.pool e.contract).assets = w.usdc.balance e.contract + 0 := by
      rw [← hborrows]
      rfl
    rw [hlent, add_zero] at hposition
    exact hposition
  rcases redeem_covered hauth hbooks hpos (hfit.toAssets hbooks hpos) hfit.2 hcash with
    ⟨o, ho, hvalue, hburn, hvault⟩
  refine ⟨o, ho, hvalue, ?_, ?_⟩
  · rw [hvalue]
    exact burnFor_step rfl ha hpos.le le_rfl (Int.ediv_mul_le _ (by omega)) hburn
  · rw [hvault]
    exact hborrows

theorem redeemAll_ok {v : Address} (order : List (Env × Address)) (w : World)
    (hbooks : (w.pool v).Sound) (hvault : w.vault.sharesOf v = 0)
    (hborrows : w.vault.totalBorrows = 0)
    (hauth : ∀ x ∈ order, x.1.contract = v ∧ x.1.auth x.2 = true)
    (hnodup : (order.map Prod.snd).Nodup) (hpos : ∀ x ∈ order, 0 < w.vault.sharesOf x.2)
    (hfit : ExitFits v w order) :
    ∃ r, redeemAll w order = .ok r ∧ r.2 ≤ w.totalAssets v := by
  induction order generalizing w with
  | nil =>
      have hassets : 0 ≤ w.totalAssets v := hbooks.assets_nonneg
      exact ⟨(w, 0), rfl, hassets⟩
  | cons x rest ih =>
      rcases x with ⟨e, a⟩
      have ha : a ≠ v := by
        intro heq
        have := hpos (e, a) (by simp)
        simp only [heq, hvault] at this
        omega
      rcases hauth (e, a) (by simp) with ⟨hcontract, hauth_a⟩
      rcases redeem_all_shares hcontract hauth_a ha hbooks hborrows (hpos (e, a) (by simp)) hfit.1
        with ⟨o, ho, hvalue, hstep, hborrows'⟩
      simp only [List.map_cons, List.nodup_cons] at hnodup
      -- the other holdings are untouched by the exit of `a`
      have hshares : ∀ j, j ≠ a → o.state.vault.sharesOf j = w.vault.sharesOf j := by
        intro j hj
        have := congrArg (fun p => p.shares j) hstep.2
        simpa [World.pool, Pool.Action.apply, hj] using this
      have hassets : o.state.totalAssets v = w.totalAssets v - o.value := by
        have hcash := congrArg Pool.cash hstep.2
        simp only [World.pool, Pool.Action.apply] at hcash
        unfold World.totalAssets
        omega
      have hrest : ∀ y ∈ rest, 0 < o.state.vault.sharesOf y.2 := by
        intro y hy
        have hne : y.2 ≠ a := by
          intro heq
          exact hnodup.1 (heq ▸ List.mem_map_of_mem hy)
        rw [hshares _ hne]
        exact hpos y (by simp [hy])
      rcases ih o.state (hstep.sound hbooks) ((hshares v ha.symm).trans hvault) hborrows'
        (fun y hy => hauth y (by simp [hy])) hnodup.2 hrest (hfit.2 o ho) with ⟨r, hr, hpaid⟩
      refine ⟨(r.1, o.value + r.2), ?_, by simp only; omega⟩
      simp only [redeemAll, ho, hr, ok_bind]
      rfl

/-! ## Solvency -/

/-- In every reachable state balances are nonnegative and make up the supply, and
what all of them redeem for together is covered by the assets; `to_assets` returns
exactly that value whenever it returns. With no borrows outstanding, any holders
redeem their full balances in any order, each call succeeding while its conversion
fits, for at most the assets in total. -/
theorem solvent_and_exitable {v : Address} {c : Clocked World} (h : Reachable v c) :
    (∀ a, 0 ≤ c.state.vault.sharesOf a) ∧
      (Function.support c.state.vault.sharesOf).Finite ∧
      c.state.vault.totalShares = ∑ᶠ a, c.state.vault.sharesOf a ∧
      ∑ᶠ a, c.state.redeemable v a ≤ c.state.totalAssets v ∧
      (∀ e a assets, e.contract = v →
        Vault.toAssets e c.state (c.state.vault.sharesOf a) = .ok assets →
        assets = c.state.redeemable v a) ∧
      (c.state.vault.totalBorrows = 0 → ∀ order : List (Env × Address),
        (∀ x ∈ order, x.1.contract = v ∧ x.1.auth x.2 = true) →
        (order.map Prod.snd).Nodup → (∀ x ∈ order, 0 < c.state.vault.sharesOf x.2) →
        ExitFits v c.state order →
        ∃ r, redeemAll c.state order = .ok r ∧ r.2 ≤ c.state.totalAssets v) := by
  have hsound := h.sound
  have hbooks := hsound.books
  refine ⟨hbooks.shares_nonneg, hbooks.shares_finite, hbooks.supply_eq.symm,
    hbooks.finsum_position_le, ?_, ?_⟩
  · intro e a assets hv hassets
    subst hv
    exact Vault.toAssets_sharesOf hbooks hassets
  · intro hborrows order hauth hnodup hpos hfit
    exact redeemAll_ok order c.state hbooks hsound.vault_shares hborrows hauth hnodup hpos hfit

/-- The loan is settled, a second provider comes in, and both leave, the second
one first. -/
def exitCalls : List Call :=
  payoffCalls ++ [.signedBy ⟨4⟩ 3000 (.vault (.depositFrom ⟨4⟩ ⟨6⟩ 5000))]

def exitOrder : List (Env × Address) :=
  [(⟨4000, ⟨1⟩, fun a => a = ⟨6⟩⟩, ⟨6⟩), (⟨4000, ⟨1⟩, fun a => a = ⟨4⟩⟩, ⟨4⟩)]

theorem solvent_and_exitable_two_providers :
    ∃ c, Reachable ⟨1⟩ c ∧ c.state.vault.totalBorrows = 0 ∧ c.state.totalAssets ⟨1⟩ = 1000683571 ∧
      ∃ r, redeemAll c.state exitOrder = .ok r ∧ r.2 ≤ c.state.totalAssets ⟨1⟩ := by
  have hrun : ∃ c, Clocked.run? Call.timestamp (Call.exec ⟨1⟩) launch exitCalls = some c ∧
      c.state.vault.totalBorrows = 0 ∧ c.state.totalAssets ⟨1⟩ = 1000683571 ∧
      (∀ x ∈ exitOrder, 0 < c.state.vault.sharesOf x.2) ∧ ConversionFits ⟨1⟩ c.state ⟨6⟩ ∧
      ∃ o, Vault.redeem ⟨4000, ⟨1⟩, fun a => a = ⟨6⟩⟩ c.state ⟨6⟩ (c.state.vault.sharesOf ⟨6⟩) =
      .ok o ∧
        ConversionFits ⟨1⟩ o.state ⟨4⟩ := by decide
  rcases hrun with ⟨c, hc, hborrows, hassets, hpos, hfirst, o, ho, hsecond⟩
  have hreach : Reachable ⟨1⟩ c := reachable_of_run? hc (by decide)
  have hfit : ExitFits ⟨1⟩ c.state exitOrder := by
    refine ⟨hfirst, fun o' ho' => ?_⟩
    rw [ho] at ho'
    cases ho'
    exact ⟨hsecond, fun _ _ => trivial⟩
  exact ⟨c, hreach, hborrows, hassets,
    (solvent_and_exitable hreach).2.2.2.2.2 hborrows exitOrder (by decide) (by decide) hpos hfit⟩

end Lendoor.System
