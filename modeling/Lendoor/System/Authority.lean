import Lendoor.LoanManager.Admission
import Lendoor.System.Bystander

/-! # What nobody else can do

The owners of the two contracts write the policy: who may borrow how much, on which offers,
and what is written off. While they sign nothing the policy stands, and what anybody can come
to owe is bounded by what they owed and were offered.
-/

namespace Lendoor.LoanManager

/-! ## The owner's calls -/

def Op.ownerOnly : Op → Bool
  | .setOwner _ | .setVault _ | .setDefaultGracePeriod _ | .setMinHoldForTenor _ _ => true
  | .setUserRisk _ _ _ _ _ | .setLoanOffer _ _ _ _ _ | .setPremiumConfig _ _ _ | .markDefault _ =>
      true
  | .openLoan _ _ _ _ | .closeLoan _ _ | .accrueLate _ | .applyPayment _ _ => false

/-- Everything that the owner decides, but for the offers. -/
structure SamePolicy (s t : State) : Prop where
  owner : t.owner = s.owner
  config : t.config = s.config
  minHold : t.minHold = s.minHold
  risk : t.risk = s.risk
  premium : t.premium = s.premium

theorem SamePolicy.refl (s : State) : SamePolicy s s := ⟨rfl, rfl, rfl, rfl, rfl⟩

theorem SamePolicy.trans {s t u : State} (h : SamePolicy s t) (h' : SamePolicy t u) :
    SamePolicy s u :=
  ⟨h'.owner.trans h.owner, h'.config.trans h.config, h'.minHold.trans h.minHold,
    h'.risk.trans h.risk, h'.premium.trans h.premium⟩

variable {e : Env} {s : State} {op : Op} {o : Outcome State Ret}

theorem exec_ownerOnly (h : exec e s op = .ok o) (hop : op.ownerOnly = true) :
    e.auth s.owner = true := by
  cases op <;> simp only [exec, map_eq_ok] at h <;> rcases h with ⟨o, h, rfl⟩
  case openLoan | closeLoan | accrueLate | applyPayment => cases hop
  case markDefault => exact (markDefault_spec h).1
  all_goals
    rcases bind_eq_ok.mp h with ⟨_, hauth, _⟩
    exact Env.requireAuth_eq_ok.mp hauth

theorem exec_policy (h : exec e s op = .ok o) (hop : op.ownerOnly = false) :
    SamePolicy s o.state := by
  cases op <;> simp only [exec, map_eq_ok] at h <;> rcases h with ⟨o, h, rfl⟩
  case openLoan =>
    rcases openLoan_spec h with ⟨_, _, _, _, _, _, _, _, hstate, _⟩
    rw [Outcome.as_state, hstate]
    exact ⟨rfl, rfl, rfl, rfl, rfl⟩
  case closeLoan =>
    rcases closeLoan_spec h with ⟨_, _, _, _, _, hstate⟩
    rw [Outcome.as_state, hstate]
    exact ⟨rfl, rfl, rfl, rfl, rfl⟩
  case accrueLate =>
    rw [Outcome.as_state]
    rcases accrueLate_spec h with ⟨_, hstate⟩ | ⟨_, _, _, hstate⟩ <;>
      rw [hstate] <;> exact ⟨rfl, rfl, rfl, rfl, rfl⟩
  case applyPayment =>
    rcases applyPayment_spec h with ⟨_, _, _, _, _, ⟨_, _, rfl⟩ | ⟨_, _, _, _, rfl⟩⟩ <;>
      exact ⟨rfl, rfl, rfl, rfl, rfl⟩
  all_goals cases hop

/-! ## What an account may come to owe -/

/-- The amount of the offer that waits for the account. -/
def State.offered (s : State) (b : Address) : Int :=
  ((s.offer.get? b).map LoanOffer.maxAmount).getD 0

/-- The principal of the account's loan, or of the one it may open next. -/
def State.exposure (s : State) (b : Address) : Int := max (s.readLoan b).principal (s.offered b)

theorem exec_offered (h : exec e s op = .ok o) (hop : op.ownerOnly = false) (b : Address) :
    o.state.offer.get? b = s.offer.get? b ∨ op.Opens b ∧ o.state.offer.get? b = none := by
  rcases exec_offer h b with ⟨_, _, _, _, rfl, -⟩ | hopens | ⟨-, -, hsame⟩
  · cases hop
  · exact .inr hopens
  · exact .inl hsame

/-- Only an opening raises a principal, and then to no more than was offered. -/
theorem exec_principal {now : Nat} (h : exec e s op = .ok o) (hsound : s.Sound now)
    (hle : now ≤ e.timestamp) (b : Address) :
    (o.state.readLoan b).principal ≤ (s.readLoan b).principal ∨
      op.Opens b ∧ (o.state.readLoan b).principal ≤ s.offered b := by
  have hsound' := exec_sound h hsound hle
  have heffect := exec_effect h
  cases hafter : (o.state.readLoan b).active with
  | false =>
      rw [(hsound'.loans b).inactive hafter]
      exact .inl (hsound.loans b).principal_nonneg
  | true =>
      cases hbefore : (s.readLoan b).active with
      | true => exact .inl (heffect.continues hsound hbefore hafter).principal_le
      | false =>
          by_cases hopens : op.Opens b
          · refine .inr ⟨hopens, ?_⟩
            rcases hopens with ⟨principal, tenorDays, feeBps, rfl⟩
            simp only [exec, map_eq_ok] at h
            rcases h with ⟨o, h, rfl⟩
            rcases openLoan_spec h
              with ⟨-, hpos, -, -, -, ⟨offer, hget, -, htenor, -, hmax⟩, l, hl, hopened, -⟩
            have htenorPos := (hsound.configured.offers b offer hget).1
            rw [Outcome.as_state, hopened, State.readLoan_writeLoan_self,
              (openedLoan_spec hpos (by omega) hl).2, State.offered, hget]
            exact hmax
          · rw [(heffect.idle hbefore hopens).1] at hafter
            cases hafter

theorem exec_exposure {now : Nat} (h : exec e s op = .ok o) (hsound : s.Sound now)
    (hle : now ≤ e.timestamp)
    (hop : op.ownerOnly = false) (b : Address) : o.state.exposure b ≤ s.exposure b := by
  have hnonneg : 0 ≤ s.exposure b := (hsound.loans b).principal_nonneg.trans (le_max_left _ _)
  have hprincipal : (o.state.readLoan b).principal ≤ s.exposure b := by
    rcases exec_principal h hsound hle b with hfalls | ⟨-, hoffered⟩
    · exact hfalls.trans (le_max_left _ _)
    · exact hoffered.trans (le_max_right _ _)
  refine max_le hprincipal ?_
  rcases exec_offered h hop b with hsame | ⟨-, hnone⟩
  · rw [State.offered, hsame]
    exact le_max_right _ _
  · rw [State.offered, hnone]
    exact hnonneg

end Lendoor.LoanManager

namespace Lendoor.System

open LoanManager (SamePolicy)

/-! ## One call -/

section Call

variable {v : Address} {s t : Clocked World} {label : Label}

theorem loanManagerOp_ownerOnly {op : Op} {ret : Ret} {lmOp : LoanManager.Op}
    (h : loanManagerOp op ret = some lmOp)
    (hop : lmOp.ownerOnly = true) : op = .loanManager lmOp := by
  unfold loanManagerOp at h
  split at h <;> cases h
  case h_4 => rfl
  all_goals cases hop

/-- A call that the owner of the loan manager has not signed leaves the policy; it makes no
offer, and the exposure of nobody rises. -/
theorem Step.policy (h : Step v s label t) (hsound : s.state.Sound v s.now)
    (howner : label.1.auth s.state.loanManager.owner = false) :
    SamePolicy s.state.loanManager t.state.loanManager ∧ ∀ b,
      (∀ offer, t.state.loanManager.offer.get? b = some offer →
        s.state.loanManager.offer.get? b = some offer) ∧
        t.state.loanManager.exposure b ≤ s.state.loanManager.exposure b := by
  have hmoves := (h.simulated hsound).loanManager
  unfold MovesLoanManager at hmoves
  split at hmoves
  · rw [hmoves]
    exact ⟨.refl _, fun _ => ⟨fun _ h => h, le_rfl⟩⟩
  · rename_i lmOp hlmOp
    rcases hmoves with ⟨e', o, htime, ho, hstate⟩
    have hle : s.now ≤ e'.timestamp := htime ▸ h.call.clock
    have hop : lmOp.ownerOnly = false := by
      rw [Bool.eq_false_iff]
      intro honly
      rcases h.exec_ok with ⟨o', ho', -⟩
      rw [loanManagerOp_ownerOnly hlmOp honly] at ho'
      simp only [exec, map_eq_ok] at ho'
      rcases ho' with ⟨o'', ho'', -⟩
      have hauth : label.1.auth s.state.loanManager.owner = true :=
        LoanManager.exec_ownerOnly ho'' honly
      rw [howner] at hauth
      cases hauth
    rw [← hstate]
    refine ⟨LoanManager.exec_policy ho hop,
      fun b => ⟨fun offer hget => ?_, LoanManager.exec_exposure ho hsound.loanManager hle hop b⟩⟩
    rcases LoanManager.exec_offered ho hop b with hsame | ⟨-, hnone⟩
    · rw [← hsame, hget]
    · rw [hnone] at hget
      cases hget

/-- A call that the vault's owner has not signed writes nothing off, and the fees go where
they went. -/
theorem Step.noLoss (h : Step v s label t) (hsound : s.state.Sound v s.now)
    (howner : label.1.auth s.state.vault.config.owner = false) :
    t.state.vault.config = s.state.vault.config ∧ label.loss = 0 := by
  have hnone : ∀ auth : Bool, auth = label.1.auth s.state.vault.config.owner → auth ≠ true := by
    rintro auth rfl
    rw [howner]
    decide
  rcases h.exec_ok with ⟨o, ho, hstate, -⟩
  refine ⟨?_, ?_⟩
  · rcases (h.simulated hsound).recipient with hsame | hop
    · exact hsame
    · rw [hop] at ho
      simp only [exec, Vault.exec, map_eq_ok] at ho
      rcases ho with ⟨_, ⟨r, hr, rfl⟩, rfl⟩
      rcases bind_eq_ok.mp hr with ⟨_, hauth, -⟩
      exact absurd (Env.requireAuth_eq_ok.mp hauth) (hnone _ rfl)
  · unfold Label.loss
    split
    · rename_i b amount hop
      rw [hop] at ho
      simp only [exec, Vault.exec, map_eq_ok] at ho
      rcases ho with ⟨_, ⟨r, hr, rfl⟩, rfl⟩
      rcases bind_eq_ok.mp hr with ⟨_, hauth, -⟩
      exact absurd (Env.requireAuth_eq_ok.mp hauth) (hnone _ rfl)
    · rfl

end Call

/-! ## Whole runs -/

/-- From every reachable state, whoever else acts: while neither owner signs a call, the policy
and the fee recipient stand, nothing is offered and nothing is written off, and nobody comes
to owe more principal than they owed or were offered. -/
theorem policy_needs_owner {v : Address} {c c' : Clocked World}
    {labels : List Label} (h : Reachable v c)
    (run : Run (Step v) c labels c')
    (hsilent : ∀ label ∈ labels, label.1.auth c.state.loanManager.owner = false ∧
      label.1.auth c.state.vault.config.owner = false) :
    SamePolicy c.state.loanManager c'.state.loanManager ∧ c'.state.vault.config =
      c.state.vault.config ∧ totalLoss labels = 0 ∧
      ∀ b,
        (∀ offer, c'.state.loanManager.offer.get? b = some offer →
        c.state.loanManager.offer.get? b = some offer) ∧
        c'.state.loanManager.exposure b ≤ c.state.loanManager.exposure b := by
  induction run with
  | nil => exact ⟨.refl _, rfl, rfl, fun _ => ⟨fun _ h => h, le_rfl⟩⟩
  | @snoc t u labels label hrun hstep ih =>
      have hsound : t.state.Sound v t.now :=
        hrun.invariant (P := fun s => s.state.Sound v s.now)
          (fun _ _ _ hs hstep => hstep.sound hs) h.sound
      rcases ih fun label hmem =>
        hsilent label (by simp [hmem]) with ⟨hpolicy, hconfig, hloss, hoffers⟩
      rcases hsilent label (by simp) with ⟨hlm, hvault⟩
      rcases hstep.policy hsound (hpolicy.owner ▸ hlm) with ⟨hpolicy', hoffers'⟩
      rcases hstep.noLoss hsound (hconfig ▸ hvault) with ⟨hconfig', hloss'⟩
      refine ⟨hpolicy.trans hpolicy', hconfig'.trans hconfig, ?_,
        fun b => ⟨fun offer hget => ?_, ?_⟩⟩
      · simp only [totalLoss, List.map_append, List.map_cons, List.map_nil, List.sum_append,
          List.sum_cons, List.sum_nil] at hloss ⊢
        omega
      · exact (hoffers b).1 offer ((hoffers' b).1 offer hget)
      · exact (hoffers' b).2.trans (hoffers b).2

/-- An offer stands; it is taken, and the loan is paid off. -/
theorem policy_needs_owner_payoff :
    ∃ c c' labels, Reachable ⟨1⟩ c ∧ labels.map Prod.fst = payoffCalls.drop 3 ∧
      Run (Step ⟨1⟩) c labels c' ∧
      c.state.loanManager.exposure ⟨5⟩ = 100000000 ∧
        SamePolicy c.state.loanManager c'.state.loanManager ∧
          c'.state.loanManager.exposure ⟨5⟩ ≤ 100000000 := by
  have hrun : ∃ c, Clocked.run? Call.timestamp (Call.exec ⟨1⟩) launch (payoffCalls.take 3) =
      some c ∧
      (c.state.loanManager.exposure ⟨5⟩ = 100000000 ∧ c.state.loanManager.owner = ⟨2⟩ ∧
        c.state.vault.config.owner = ⟨2⟩) ∧
      ∃ c', Clocked.run? Call.timestamp (Call.exec ⟨1⟩) c (payoffCalls.drop 3) =
      some c' ∧ True := by decide
  rcases hrun with ⟨c, hc, ⟨hexposure, hlm, hvault⟩, c', hc', -⟩
  have hreach : Reachable ⟨1⟩ c := reachable_of_run? hc (by decide)
  rcases run_of_run? hc' (by decide) with ⟨labels, run, hcalls⟩
  have hsilent : ∀ label ∈ labels, label.1.auth ⟨2⟩ = false :=
    forall_label_of_calls hcalls (P := fun c => c.auth ⟨2⟩ = false) (by decide)
  have hkept := policy_needs_owner hreach run fun label hmem =>
    ⟨by rw [hlm]; exact hsilent label hmem, by rw [hvault]; exact hsilent label hmem⟩
  exact ⟨c, c', labels, hreach, hcalls, run, hexposure, hkept.1, hexposure ▸ (hkept.2.2.2 ⟨5⟩).2⟩

end Lendoor.System
