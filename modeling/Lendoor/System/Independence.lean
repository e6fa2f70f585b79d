import Lendoor.System.Locality

/-! # Operations on different borrowers commute

Two operations on the loans of different borrowers, made in the same ledger in
either order, have the same outcomes and leave the same state. Each one makes the
same change before and after the other, and two such changes compose in either
order.
-/

namespace Lendoor

/-! ## Two changes -/

section Square

variable {a b : Address} {w w₁ w₂ w₁₂ w₂₁ : World}

theorem LoanManager.State.eq_of_square {s s₁ s₂ s₁₂ s₂₁ : LoanManager.State} (hab : a ≠ b)
    (h₁ : s.Frame a s₁) (h₁₂ : s₁.Frame b s₁₂) (h₂ : s.Frame b s₂) (h₂₁ : s₂.Frame a s₂₁)
    (ha : s₁.SameAt a s₂₁) (hb : s₂.SameAt b s₁₂) : s₁₂ = s₂₁ := by
  ext1
  · rw [h₁₂.owner, h₁.owner, h₂₁.owner, h₂.owner]
  · rw [h₁₂.config, h₁.config, h₂₁.config, h₂.config]
  · rw [h₁₂.minHold, h₁.minHold, h₂₁.minHold, h₂.minHold]
  · exact Store.ext (congrFun (eq_of_commuting hab h₁.risk h₁₂.risk h₂.risk h₂₁.risk
      ha.risk.symm hb.risk.symm))
  · rw [h₁₂.offer, h₁.offer, h₂₁.offer, h₂.offer]
  · exact Store.ext (congrFun (eq_of_commuting hab h₁.loan h₁₂.loan h₂.loan h₂₁.loan
      ha.loan.symm hb.loan.symm))
  · rw [h₁₂.premium, h₁.premium, h₂₁.premium, h₂.premium]
  · exact Store.ext (congrFun (eq_of_commuting hab h₁.nextBorrow h₁₂.nextBorrow h₂.nextBorrow
      h₂₁.nextBorrow ha.nextBorrow.symm hb.nextBorrow.symm))

/-- Changes at two borrowers, each the same before and after the other. -/
theorem eq_of_localChanges (hab : a ≠ b) (h₁ : LocalChange a w w₂ w₁ w₂₁)
    (h₂ : LocalChange b w w₁ w₂ w₁₂) : w₁₂ = w₂₁ := by
  have hv₁ := h₁.frame.vault
  have hv₂₁ := h₁.frame'.vault
  have hv₂ := h₂.frame.vault
  have hv₁₂ := h₂.frame'.vault
  ext1
  · refine Token.ext fun c => ?_
    have hc₁ := h₁.usdc c
    have hc₂ := h₂.usdc c
    omega
  · have hborrows₁ := h₁.borrows
    have hborrows₂ := h₂.borrows
    ext1
    · rw [hv₁₂.config, hv₁.config, hv₂₁.config, hv₂.config]
    · rw [hv₁₂.totalShares, hv₁.totalShares, hv₂₁.totalShares, hv₂.totalShares]
    · omega
    · rw [hv₁₂.shares, hv₁.shares, hv₂₁.shares, hv₂.shares]
    · exact Store.ext (congrFun (eq_of_commuting hab hv₁.writtenOff hv₁₂.writtenOff hv₂.writtenOff
        hv₂₁.writtenOff h₁.same.writtenOff.symm h₂.same.writtenOff.symm))
  · exact LoanManager.State.eq_of_square hab h₁.frame.loanManager h₂.frame'.loanManager
      h₂.frame.loanManager h₁.frame'.loanManager h₁.same.loanManager h₂.same.loanManager

end Square

namespace System

/-! ## Attempted calls -/

/-- The state after a call, which a failed one leaves alone, and what the call
published and returned or the fault it stopped with. -/
def Call.attempt (v : Address) (c : Call) (w : World) : World × Except Fault (List Event × Ret) :=
  match c.exec v w with
  | .ok r => (r.1, .ok r.2)
  | .error fault => (w, .error fault)

section Attempt

variable {v b : Address} {now : Nat} {c : Call} {w x : World}

theorem attempt_cases (v : Address) (c : Call) (w : World) :
    (∃ o, exec (c.env v) w c.op = .ok o ∧ c.attempt v w = (o.state, .ok (o.events, o.value))) ∨
      (∃ fault, exec (c.env v) w c.op = .error fault ∧ c.attempt v w = (w, .error fault)) := by
  unfold Call.attempt Call.exec
  cases h : exec (c.env v) w c.op with
  | ok o => exact .inl ⟨o, rfl, rfl⟩
  | error fault => exact .inr ⟨fault, rfl, rfl⟩

theorem attempt_sound (hadm : c.Admissible v) (hclock : now ≤ c.timestamp) (hw : w.Sound v now) :
    ∃ later, (c.attempt v w).1.Sound v later := by
  rcases attempt_cases v c w with ⟨o, ho, hattempt⟩ | ⟨fault, _, hattempt⟩
  · have hexec : c.exec v w = .ok o.split := by
      rw [Call.exec, ho]
      rfl
    have hstep : Step v ⟨now, w⟩ (c, o.split.2) ⟨c.timestamp, o.split.1⟩ :=
      Step.of_exec hadm hclock hexec
    rw [hattempt]
    exact ⟨c.timestamp, hstep.sound hw⟩
  · rw [hattempt]
    exact ⟨now, hw⟩

theorem attempt_local (h : Comparable v b (c.env v) w x) (hop : LoanOp b c.op)
    (hfund : ∀ payer amount, c.op.payer? = some payer → Pulls (c.env v) w c.op amount →
      (amount ≤ w.usdc.balance payer ↔ amount ≤ x.usdc.balance payer)) :
    (c.attempt v w).2 = (c.attempt v x).2 ∧
      LocalChange b w x (c.attempt v w).1 (c.attempt v x).1 := by
  have hagree := exec_local h hop hfund
  unfold Call.attempt Call.exec
  generalize exec (c.env v) w c.op = y at hagree ⊢
  generalize exec (c.env v) x c.op = z at hagree ⊢
  cases hagree with
  | ok hop =>
      refine ⟨?_, hop.toLocalChange⟩
      simp only [Except.map, Outcome.split, hop.events, hop.value]
  | error fault => exact ⟨rfl, .refl h.same⟩

theorem paymentEffect_balance {e : Env} {w' : World} {payer : Address} {r : Vault.Payment}
    (hlive : (w.loanManager.readLoan b).Live) (h : Vault.PaymentEffect e w payer b r w') :
    0 ≤ r.fee ∧ w'.usdc.balance = Vault.paidBalance e w payer r := by
  have hfee : ∀ {interest : Int}, 0 ≤ interest →
      0 ≤ interest * Vault.protocolFeeBps / Vault.bpsDenom := by
    intro interest hnn
    exact Int.ediv_nonneg (mul_nonneg hnn (by decide)) (by decide)
  cases h with
  | closed hfee_eq husdc _ _ hacc =>
      have hle := (hlive.accrued_bounds hacc).2
      refine ⟨?_, husdc⟩
      simp only [hfee_eq]
      exact hfee (by omega)
  | reduced hpos _ _ hsplit hfee_eq husdc _ _ hacc =>
      have hle := (hlive.accrued_bounds hacc).2
      refine ⟨?_, husdc⟩
      simp only [hfee_eq]
      exact hfee (by omega)

theorem exec_balance_le {e : Env} {op : Op} {o : Outcome World Ret} {a : Address}
    (hcontract : e.contract = v) (hw : w.Sound v now) (hop : LoanOp b op)
    (ha : op.payer? ≠ some a) (hav : a ≠ v) (h : exec e w op = .ok o) :
    w.usdc.balance a ≤ o.state.usdc.balance a := by
  have hlive := (hw.loanManager.loans b).live
  have hpaid : ∀ {payer : Address} {r : Vault.Payment} {w' : World}, some payer ≠ some a →
      (w.loanManager.readLoan b).active = true → Vault.PaymentEffect e w payer b r w' →
      w.usdc.balance a ≤ w'.usdc.balance a := by
    intro payer r w' hne hactive heffect
    rcases paymentEffect_balance (hlive hactive) heffect with ⟨hfee, hbal⟩
    have hap : a ≠ payer := fun heq => hne (congrArg some heq.symm)
    rw [hbal, Vault.paidBalance, hcontract]
    simp only [Token.moved, if_neg hap, if_neg hav]
    split <;> omega
  cases hop with
  | repay payer =>
      simp only [exec, Vault.exec, map_eq_ok] at h
      rcases h with ⟨_, ⟨o, h, rfl⟩, rfl⟩
      rcases Vault.repay_spec hlive h with ⟨_, hactive, _, _, _, heffect⟩
      exact hpaid ha hactive heffect
  | repayPartial payer amount =>
      simp only [exec, Vault.exec, map_eq_ok] at h
      rcases h with ⟨_, ⟨o, h, rfl⟩, rfl⟩
      rcases Vault.repayPartial_spec hlive h with ⟨_, _, hactive, _, _, _, heffect⟩
      exact hpaid ha hactive heffect
  | accrueLate =>
      simp only [exec, map_eq_ok] at h
      rcases h with ⟨o, _, rfl⟩
      exact le_rfl
  | markDefault =>
      simp only [exec, map_eq_ok] at h
      rcases h with ⟨o, _, rfl⟩
      exact le_rfl
  | manualWriteOff amount =>
      simp only [exec, Vault.exec, map_eq_ok] at h
      rcases h with ⟨_, ⟨o, h, rfl⟩, rfl⟩
      rcases Vault.manualWriteOff_spec h with ⟨_, _, _, ⟨_, hstate⟩ | ⟨_, _, hstate⟩⟩
      · simp only [Outcome.as_state, hstate]
        exact le_rfl
      · simp only [Outcome.as_state, hstate]
        exact le_rfl

theorem attempt_balance_le {a : Address} (hw : w.Sound v now) (hop : LoanOp b c.op)
    (ha : c.op.payer? ≠ some a) (hav : a ≠ v) :
    w.usdc.balance a ≤ (c.attempt v w).1.usdc.balance a := by
  rcases attempt_cases v c w with ⟨o, ho, hattempt⟩ | ⟨fault, _, hattempt⟩
  · rw [hattempt]
    exact exec_balance_le rfl hw hop ha hav ho
  · rw [hattempt]

/-- The payer of the call holds at `w` what the call pulls. -/
def Funded (v : Address) (c : Call) (w : World) : Prop :=
  ∀ payer amount, c.op.payer? = some payer → Pulls (c.env v) w c.op amount →
    amount ≤ w.usdc.balance payer

/-- An operation on one borrower makes the same change whether or not an operation on
another was attempted before it. -/
theorem attempt_after {a : Address} {d : Call} (hab : a ≠ b) (hadm : c.Admissible v)
    (hadm' : d.Admissible v) (hclock' : now ≤ d.timestamp) (hw : w.Sound v now)
    (hop : LoanOp a c.op)
    (hop' : LoanOp b d.op) (hpayer : ∀ payer, c.op.payer? = some payer → payer ≠ v)
    (hpayers : ∀ payer, c.op.payer? = some payer → d.op.payer? ≠ some payer)
    (hfund : Funded v c w) :
    (c.attempt v w).2 = (c.attempt v (d.attempt v w).1).2 ∧
      LocalChange a w (d.attempt v w).1 (c.attempt v w).1 (c.attempt v (d.attempt v w).1).1 := by
  have hself : Comparable v b (d.env v) w w :=
    ⟨rfl, hadm'.outsider, ⟨.refl b _, rfl, rfl⟩, ⟨now, hw⟩, ⟨now, hw⟩⟩
  have hframe := (attempt_local hself hop' fun _ _ _ _ => Iff.rfl).2.frame
  have hcompare : Comparable v a (c.env v) w (d.attempt v w).1 :=
    ⟨rfl, hadm.outsider, hframe.sameAt hab, ⟨now, hw⟩, attempt_sound hadm' hclock' hw⟩
  refine attempt_local hcompare hop fun payer amount hp hpull => ?_
  have hle := hfund payer amount hp hpull
  have hkept := attempt_balance_le hw hop' (hpayers payer hp) (hpayer payer hp)
  exact iff_of_true hle (hle.trans hkept)

end Attempt

/-! ## Every pair of operations -/

/-- In every reachable state, two operations on the loans of different borrowers made
at the same ledger time, by payers who are distinct, are not the vault and hold what
is pulled, have the same outcomes in both orders and leave the same state. -/
theorem loanOps_commute {v a b : Address} {s : Clocked World} {c d : Call} (h : Reachable v s)
    (hab : a ≠ b) (htime : d.timestamp = c.timestamp) (hclock : s.now ≤ c.timestamp)
    (hadm : c.Admissible v) (hadm' : d.Admissible v) (hop : LoanOp a c.op) (hop' : LoanOp b d.op)
    (hpayer : ∀ payer, c.op.payer? = some payer → payer ≠ v)
    (hpayer' : ∀ payer, d.op.payer? = some payer → payer ≠ v)
    (hpayers : ∀ payer, c.op.payer? = some payer → d.op.payer? ≠ some payer)
    (hfund : Funded v c s.state) (hfund' : Funded v d s.state) :
    (c.attempt v s.state).2 = (c.attempt v (d.attempt v s.state).1).2 ∧
      (d.attempt v (c.attempt v s.state).1).2 = (d.attempt v s.state).2 ∧
      (d.attempt v (c.attempt v s.state).1).1 = (c.attempt v (d.attempt v s.state).1).1 := by
  have hsound := h.sound
  have hpayers' : ∀ payer, d.op.payer? = some payer → c.op.payer? ≠ some payer :=
    fun payer hd hc => hpayers payer hc hd
  have hclock' : s.now ≤ d.timestamp := hclock.trans_eq htime.symm
  rcases attempt_after hab hadm hadm' hclock' hsound hop hop' hpayer hpayers hfund with
    ⟨houtcome, hchange⟩
  rcases attempt_after hab.symm hadm' hadm hclock hsound hop' hop hpayer' hpayers' hfund' with
    ⟨houtcome', hchange'⟩
  exact ⟨houtcome, houtcome'.symm, eq_of_localChanges hab hchange hchange'⟩

/-- Account `6` borrows next to account `5`. -/
def twoBorrowersCalls : List Call :=
  lendingCalls ++
    [.signedBy ⟨2⟩ 1000 (.loanManager (.setUserRisk ⟨6⟩ 600 true 0 100000000)),
      .signedBy ⟨2⟩ 1000 (.loanManager (.setLoanOffer ⟨6⟩ 14 700 2000 100000000)),
      .signedBy ⟨6⟩ 1000 (.vault (.borrowWithTerm ⟨6⟩ 80000000 14 700))]

/-- The provider settles the loan of `5`. -/
def settleFive : Call := .signedBy ⟨4⟩ 2000 (.vault (.repay ⟨4⟩ ⟨5⟩))

/-- Account `6` pays a part of its own loan. -/
def reduceSix : Call := .signedBy ⟨6⟩ 2000 (.vault (.repayPartial ⟨6⟩ ⟨6⟩ 30000000))

theorem loanOps_commute_two_payments :
    ∃ s, Reachable ⟨1⟩ s ∧
      (∃ r, settleFive.exec ⟨1⟩ s.state = .ok r ∧ ∃ r', reduceSix.exec ⟨1⟩ r.1 = .ok r' ∧
        r'.1.vault.totalBorrows = 50400000) ∧
      (reduceSix.attempt ⟨1⟩ (settleFive.attempt ⟨1⟩ s.state).1).1 =
        (settleFive.attempt ⟨1⟩ (reduceSix.attempt ⟨1⟩ s.state).1).1 := by
  have hrun : ∃ s, Clocked.run? Call.timestamp (Call.exec ⟨1⟩) launch twoBorrowersCalls = some s ∧
      s.now ≤ 2000 ∧ 30000000 ≤ s.state.usdc.balance ⟨6⟩ ∧
      (∃ owed, LoanManager.previewOwed (settleFive.env ⟨1⟩).subcall s.state.loanManager ⟨5⟩ =
        .ok owed ∧ owed ≤ s.state.usdc.balance ⟨4⟩) ∧
      ∃ r, settleFive.exec ⟨1⟩ s.state = .ok r ∧ ∃ r', reduceSix.exec ⟨1⟩ r.1 = .ok r' ∧
        r'.1.vault.totalBorrows = 50400000 := by decide
  rcases hrun with ⟨s, hs, hclock, hfund', ⟨owed, howed, hfund⟩, hboth⟩
  have hreach : Reachable ⟨1⟩ s := reachable_of_run? hs (by decide)
  refine ⟨s, hreach, hboth, ?_⟩
  refine (loanOps_commute (c := settleFive) (d := reduceSix) hreach (by decide) rfl hclock
    (.of_admissible (by decide)) (.of_admissible (by decide)) (.repay ⟨4⟩)
    (.repayPartial ⟨6⟩ 30000000) ?_ ?_ ?_ ?_ ?_).2.2
  · intro payer hp
    cases hp
    decide
  · intro payer hp
    cases hp
    decide
  · intro payer hp
    cases hp
    decide
  · intro payer amount hp hpull
    cases hp
    have hamount : owed = amount := Except.ok.inj (howed.symm.trans hpull)
    exact hamount ▸ hfund
  · intro payer amount hp hpull
    cases hp
    cases hpull
    exact hfund'

end System

end Lendoor
