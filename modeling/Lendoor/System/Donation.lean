import Lendoor.Core.RoundingLeak
import Lendoor.System.Refinement

/-! # The donation attack

An attacker opens an empty vault with a deposit, donates to raise the price, and
leaves after others deposited. What it gives up is the virtual share's part of the
price; what it gains is its part of the others' rounding. Which is larger depends
on the whole list of deposits.
-/

namespace Lendoor.System

/-- Deposits by others, in order. One that would mint no share reverts and leaves
the state as it was. -/
def depositAll (w : World) : List (Env × Address × Int) → Except Fault World
  | [] => pure w
  | (e, account, assets) :: rest =>
      match Vault.deposit e w account assets with
      | .ok o => depositAll o.state rest
      | .error (.vault .zeroShares) => depositAll w rest
      | .error fault => .error fault

/-- The attack: a deposit of `a`, a direct donation of `d`, the deposits of the
victims, and the redemption of everything. Returns what the attacker receives.
None of these calls reads the ledger time, so the attacker's share one environment. -/
def attack (e : Env) (w : World) (attacker : Address) (a d : Int)
    (victims : List (Env × Address × Int)) : Except Fault Int := do
  let o ← Vault.deposit e w attacker a
  let usdc ← o.state.usdc.transfer e attacker e.contract d
  let w ← depositAll { o.state with usdc := usdc } victims
  let o ← Vault.redeem e w attacker (w.vault.sharesOf attacker)
  pure o.value

/-- What the victims offered. -/
def amounts (victims : List (Env × Address × Int)) : List Int := victims.map fun x => x.2.2

/-! ## Deposits that revert -/

theorem toShares_error {e : Env} {w : World} {assets : Int} {fault : Fault}
    (h : Vault.toShares e w assets = .error fault) : fault = .trap := by
  simp only [Vault.toShares, Vault.totalAssets, bind_eq_error, unwrapOr_eq_error] at h
  rcases h with ⟨_, h⟩ | ⟨_, _, ⟨_, h⟩ | ⟨_, _, ⟨_, h⟩ | ⟨_, _, ⟨_, h⟩ | ⟨_, _, _, h⟩⟩⟩⟩
  all_goals exact h.symm

theorem transfer_error {e : Env} {t : Token} {source target : Address} {amount : Int}
    {error : Vault.Error} : t.transfer e source target amount ≠ .error (.vault error) := by
  intro h
  simp only [Token.transfer, Env.requireAuth, bind_eq_error, panicIf_eq_error] at h
  rcases h with ⟨_, h⟩ | ⟨_, _, h⟩
  · cases h
  · split at h
    · split at h <;> cases h
    · cases h

/-- A deposit that reverts for zero shares offered a positive amount that converts
to none. -/
theorem deposit_zeroShares {e : Env} {w : World} {account : Address} {assets : Int}
    (h : Vault.deposit e w account assets = .error (.vault .zeroShares)) :
    0 < assets ∧ ∃ shares, Vault.toShares e w assets = .ok shares ∧ shares ≤ 0 := by
  simp only [Vault.deposit, Vault.mintFor, Env.requireAuth, bind_eq_error, panicIf_eq_error,
    unwrapOr_eq_error] at h
  rcases h with ⟨_, h⟩ | ⟨_, _, ⟨_, h⟩ | ⟨_, hpos, hmint | ⟨_, _, h⟩⟩⟩
  · cases h
  · cases h
  · have hpos := panicIf_eq_ok.mp hpos
    refine ⟨by omega, ?_⟩
    rcases hmint with h |
      ⟨shares, hshares, ⟨hle, _⟩ | ⟨_, _, h | ⟨_, _, ⟨_, h⟩ | ⟨_, _, ⟨_, h⟩ | ⟨_, _, h⟩⟩⟩⟩⟩
    · cases toShares_error h
    · exact ⟨shares, hshares, hle⟩
    · exact absurd h transfer_error
    · cases h
    · cases h
    · cases h
  · cases h

/-! ## The pool during the attack -/

/-- Deposits by accounts other than the attacker and the vault fill the pool, and
leave the attacker's shares alone. -/
theorem depositAll_pool {v attacker : Address} {victims : List (Env × Address × Int)} {w w' : World}
    (hbooks : (w.pool v).Sound)
    (hothers : ∀ x ∈ victims, x.1.contract = v ∧ x.2.1 ≠ v ∧ x.2.1 ≠ attacker)
    (h : depositAll w victims = .ok w') :
    (w'.pool v).Sound ∧ w'.vault.sharesOf attacker = w.vault.sharesOf attacker ∧
      (∀ n ∈ amounts victims, 0 ≤ n) ∧
      SharePool.fill (w.pool v).assets (w.pool v).supply (amounts victims) =
        ((w'.pool v).assets, (w'.pool v).supply) := by
  induction victims generalizing w with
  | nil =>
      cases h
      exact ⟨hbooks, rfl, by simp [amounts], rfl⟩
  | cons x rest ih =>
      rcases x with ⟨e, account, assets⟩
      rcases hothers (e, account, assets) (by simp) with ⟨hv, haccount, hattacker⟩
      have hrest : ∀ x ∈ rest, x.1.contract = v ∧ x.2.1 ≠ v ∧ x.2.1 ≠ attacker :=
        fun x hx => hothers x (by simp [hx])
      simp only [depositAll] at h
      simp only [amounts, List.map_cons, List.mem_cons, forall_eq_or_imp, SharePool.fill]
      split at h
      · rename_i o hdeposit
        rcases Vault.deposit_spec hdeposit with ⟨_, hpos, hmint⟩
        have hstep := mintFor_step hv haccount hpos hbooks hmint
        rcases Vault.mintFor_spec hmint with ⟨hshares, hspos, _, _, hvault, _⟩
        have hminted : o.value = SharePool.minted (w.pool v).assets (w.pool v).supply assets := by
          subst hv
          exact Vault.toShares_spec hbooks hpos.le hshares
        have hassets : (o.state.pool v).assets = (w.pool v).assets + assets := by
          rw [hstep.2]
          simp only [Pool.assets, Pool.Action.apply]
          omega
        have hsupply : (o.state.pool v).supply = (w.pool v).supply + o.value := by
          rw [hstep.2]
          rfl
        rcases ih (hstep.sound hbooks) hrest h with ⟨hsound, hkept, hnn, hfill⟩
        refine ⟨hsound, hkept.trans ?_, ⟨hpos.le, hnn⟩, ?_⟩
        · rw [hvault, Vault.State.credited_sharesOf, Function.update_of_ne (Ne.symm hattacker)]
        · rw [if_neg (by omega), ← hminted, ← hassets, ← hsupply]
          exact hfill
      · rename_i hrevert
        rcases deposit_zeroShares hrevert with ⟨hpos, shares, hshares, hle⟩
        have hminted : shares = SharePool.minted (w.pool v).assets (w.pool v).supply assets := by
          subst hv
          exact Vault.toShares_spec hbooks hpos.le hshares
        rcases ih hbooks hrest h with ⟨hsound, hkept, hnn, hfill⟩
        refine ⟨hsound, hkept, ⟨hpos.le, hnn⟩, ?_⟩
        rw [if_pos (by omega)]
        exact hfill
      · cases h

/-- Into an empty vault the attacker's deposit mints one share per unit, and after
the donation the attacker owns the whole supply. -/
theorem opening_pool {v attacker : Address} {e : Env} {w : World} {a d : Int}
    {o : Outcome World Int} {usdc : Token} (hbooks : (w.pool v).Sound) (hv : e.contract = v)
    (hattacker : attacker ≠ v) (hsupply : w.vault.totalShares = 0) (hassets : w.totalAssets v = 0)
    (hdeposit : Vault.deposit e w attacker a = .ok o)
    (hdonate : o.state.usdc.transfer e attacker v d = .ok usdc) :
    0 < a ∧ 0 ≤ d ∧ (World.pool v { o.state with usdc := usdc }).Sound ∧
      (World.pool v { o.state with usdc := usdc }).assets = a + d ∧
      (World.pool v { o.state with usdc := usdc }).supply = a ∧
      o.state.vault.sharesOf attacker = a := by
  rcases Vault.deposit_spec hdeposit with ⟨_, hpos, hmint⟩
  have hstep := mintFor_step hv hattacker hpos hbooks hmint
  rcases Vault.mintFor_spec hmint with ⟨hshares, _, _, _, hvault, _⟩
  rcases Token.transfer_eq_ok.mp hdonate with ⟨_, hnn, _, husdc⟩
  have hS : (w.pool v).supply = 0 := hsupply
  have hA : (w.pool v).assets = 0 := hassets
  have hzero : w.vault.sharesOf attacker = 0 := by
    have hle := hbooks.shares_le_supply attacker
    rw [hS] at hle
    exact le_antisymm hle (hbooks.shares_nonneg attacker)
  have hvalue : o.value = a := by
    subst hv
    rw [Vault.toShares_spec hbooks hpos.le hshares, hS, hA]
    simp
  -- the donation is one more movement of the books
  have hgift : Pool.Step (o.state.pool v) (.donate d)
      (World.pool v { o.state with usdc := usdc }) := by
    refine ⟨hnn, ?_⟩
    simp only [World.pool, husdc, Token.moved_target _ _ _ _ hattacker, Pool.Action.apply]
  refine ⟨hpos, hnn, hgift.sound (hstep.sound hbooks), ?_, ?_, ?_⟩
  · rw [hgift.2, hstep.2]
    simp only [Pool.assets, Pool.Action.apply] at hA ⊢
    omega
  · rw [hgift.2, hstep.2]
    simp only [Pool.Action.apply, hS, hvalue]
    omega
  · rw [hvault, Vault.State.credited_sharesOf, Function.update_self, hzero, hvalue]
    omega

/-! ## When the attack does not pay -/

/-- From every reachable state with an empty vault, for every deposit and donation
of the attacker and every list of deposits by others, the attacker receives at
most what it put in exactly when its shares' part of the rounding leaked by the
others is less than the price of one share after the donation. -/
theorem attack_unprofitable_iff {v attacker : Address} {c : Clocked World} {e : Env}
    {a d received : Int}
    {victims : List (Env × Address × Int)} (h : Reachable v c) (hv : e.contract = v)
    (hsupply : c.state.vault.totalShares = 0) (hassets : c.state.totalAssets v = 0)
    (hattacker : attacker ≠ v)
    (hothers : ∀ x ∈ victims, x.1.contract = v ∧ x.2.1 ≠ v ∧ x.2.1 ≠ attacker)
    (hattack : attack e c.state attacker a d victims = .ok received) :
    received ≤ a + d ↔
      (a : ℚ) * SharePool.leak (a + d) a (amounts victims) <
        ((a + d + 1 : Int) : ℚ) / ((a + 1 : Int) : ℚ) := by
  simp only [attack, bind_eq_ok, pure_eq_ok] at hattack
  rcases hattack with ⟨o, hdeposit, usdc, hdonate, w, hvictims, o', hredeem, rfl⟩
  rw [hv] at hdonate
  rcases opening_pool h.sound.books hv hattacker hsupply hassets hdeposit hdonate with
    ⟨hpos, hnn, hbooks, hA, hS, hshares⟩
  rcases depositAll_pool hbooks hothers hvictims with ⟨hsound, hkept, hamounts, hfill⟩
  have hholding : w.vault.sharesOf attacker = a := hkept.trans hshares
  have hreceived : o'.value = SharePool.value (w.pool v).assets (w.pool v).supply a := by
    rcases Vault.redeem_eq_ok.mp hredeem with ⟨_, _, _, hconv, _⟩
    subst hv
    rw [Vault.toAssets_sharesOf hsound hconv, ← hholding]
    rfl
  rw [hA, hS] at hfill
  have hiff := SharePool.value_fill_le_iff (a := a + d) (s := a) (by omega) (by omega) hamounts
  rw [hfill] at hiff
  rw [hreceived]
  exact hiff

/-- Accounts `6` and `7` are funded, and nobody has deposited. -/
def fundingCalls : List Call :=
  [.signedBy ⟨4⟩ 1000 (.transfer ⟨4⟩ ⟨6⟩ 100000), .signedBy ⟨4⟩ 1000 (.transfer ⟨4⟩ ⟨7⟩ 100000)]

/-- The environment of a call of vault `1` signed by one account. -/
def vaultEnv (signer : Address) : Env := ⟨2000, ⟨1⟩, fun a => a = signer⟩

/-- Each victim deposits one unit less than two shares cost at its turn, against a
price of 2500 after the donation. -/
def firstVictim : Env × Address × Int := (vaultEnv ⟨6⟩, ⟨6⟩, 4999)

def secondVictim : Env × Address × Int := (vaultEnv ⟨7⟩, ⟨7⟩, 5999)

/-- One such victim does not make up for the donation. -/
theorem attack_unprofitable_iff_one_victim :
    ∃ c received, Reachable ⟨1⟩ c ∧
      attack (vaultEnv ⟨4⟩) c.state ⟨4⟩ 3 9996 [firstVictim] = .ok received ∧
      received ≤ 3 + 9996 := by
  have hrun : ∃ c, Clocked.run? Call.timestamp (Call.exec ⟨1⟩) launch fundingCalls = some c ∧
      c.state.vault.totalShares = 0 ∧ c.state.totalAssets ⟨1⟩ = 0 ∧
      ∃ received, attack (vaultEnv ⟨4⟩) c.state ⟨4⟩ 3 9996 [firstVictim] = .ok received ∧
        received = 8999 := by decide
  rcases hrun with ⟨c, hc, hsupply, hassets, received, hattack, -⟩
  have hreach : Reachable ⟨1⟩ c := reachable_of_run? hc (by decide)
  refine ⟨c, received, hreach, hattack, (attack_unprofitable_iff hreach rfl hsupply hassets
    (by decide) ?_ hattack).mpr ?_⟩
  · simp [firstVictim, vaultEnv]
  · norm_num [amounts, firstVictim, SharePool.leak, SharePool.minted]

/-- Two of them do: the attacker puts in 9999 and gets 10499 out. -/
theorem attack_pays_against_two_victims :
    ∃ (v attacker : Address) (c : Clocked World) (e : Env) (a d received : Int)
      (victims : List (Env × Address × Int)), Reachable v c ∧ e.contract = v ∧
      c.state.vault.totalShares = 0 ∧ c.state.totalAssets v = 0 ∧ attacker ≠ v ∧ 1 ≤ a ∧ 0 ≤ d ∧
      (∀ x ∈ victims, x.1.contract = v ∧ x.2.1 ≠ v ∧ x.2.1 ≠ attacker ∧ 0 < x.2.2) ∧
      attack e c.state attacker a d victims = .ok received ∧ ¬ received ≤ a + d := by
  have hrun : ∃ c, Clocked.run? Call.timestamp (Call.exec ⟨1⟩) launch fundingCalls = some c ∧
      c.state.vault.totalShares = 0 ∧ c.state.totalAssets ⟨1⟩ = 0 ∧
      ∃ received, attack (vaultEnv ⟨4⟩) c.state ⟨4⟩ 3 9996 [firstVictim, secondVictim] =
        .ok received ∧ ¬ received ≤ 3 + 9996 := by decide
  rcases hrun with ⟨c, hc, hsupply, hassets, received, hattack, hprofit⟩
  refine ⟨⟨1⟩, ⟨4⟩, c, vaultEnv ⟨4⟩, 3, 9996, received, [firstVictim, secondVictim],
    reachable_of_run? hc (by decide), rfl, hsupply, hassets, by decide, by decide, by decide, ?_,
    hattack, hprofit⟩
  simp [firstVictim, secondVictim, vaultEnv]

end Lendoor.System
