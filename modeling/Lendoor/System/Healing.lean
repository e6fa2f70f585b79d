import Lendoor.System.Locality
import Lendoor.System.Settlement
import Lendoor.LoanManager.Record

/-! # A settlement heals every write-off

Two runs that differ in the write-offs of one defaulted loan differ in two numbers
only: what is written off of it and, by the same amount, the outstanding borrows.
Everything but a share conversion preserves that relation, and the settlement of
the loan removes the difference.
-/

namespace Lendoor

namespace System

/-- `w'` is `w` with more of `b`'s principal written off. -/
structure Healed (b : Address) (w w' : World) : Prop where
  usdc : w'.usdc = w.usdc
  loanManager : w'.loanManager = w.loanManager
  vault : w.vault.Frame b w'.vault
  written_le : w.vault.readWrittenOff b ≤ w'.vault.readWrittenOff b
  counted : w'.vault.totalBorrows + w'.vault.readWrittenOff b =
    w.vault.totalBorrows + w.vault.readWrittenOff b

section Healed

variable {v b : Address} {now now' : Nat} {e : Env} {w w' : World}

theorem Healed.refl (b : Address) (w : World) : Healed b w w :=
  ⟨rfl, rfl, .refl b _, le_rfl, rfl⟩

theorem Healed.sameAt (h : Healed b w w') {a : Address} (ha : a ≠ b) : w.SameAt a w' :=
  ⟨h.loanManager ▸ .refl a _, h.vault.config, h.vault.writtenOff a ha⟩

theorem Healed.of_localChange {x x' : World} (h : Healed b w w') {a : Address} (ha : a ≠ b)
    (hchange : LocalChange a w w' x x') : Healed b x x' := by
  have hlm := hchange.frame.loanManager
  have hlm' := hchange.frame'.loanManager
  rw [h.loanManager] at hlm'
  have hv := hchange.frame.vault
  have hv' := hchange.frame'.vault
  have hread : ∀ {s t : Vault.State}, s.Frame a t → t.readWrittenOff b = s.readWrittenOff b := by
    intro s t hframe
    rw [Vault.State.readWrittenOff, Vault.State.readWrittenOff, Store.getD, Store.getD,
      hframe.writtenOff b ha.symm]
  refine ⟨?_, ?_, ?_, ?_, ?_⟩
  · refine Token.ext fun c => ?_
    have hc := hchange.usdc c
    rw [h.usdc] at hc
    omega
  · have hsame := hchange.same.loanManager
    ext1
    · exact hsame.owner
    · exact hsame.config
    · exact hsame.minHold
    · exact Store.ext (congrFun (eq_of_eq_off hlm'.risk hlm.risk hsame.risk))
    · rw [hlm'.offer, hlm.offer]
    · exact Store.ext (congrFun (eq_of_eq_off hlm'.loan hlm.loan hsame.loan))
    · rw [hlm'.premium, hlm.premium]
    · exact Store.ext (congrFun (eq_of_eq_off hlm'.nextBorrow hlm.nextBorrow hsame.nextBorrow))
  · refine ⟨hchange.same.config, ?_, ?_, fun c hc => ?_⟩
    · rw [hv'.totalShares, h.vault.totalShares, hv.totalShares]
    · rw [hv'.shares, h.vault.shares, hv.shares]
    · by_cases hca : c = a
      · rw [hca]
        exact hchange.same.writtenOff
      · rw [hv'.writtenOff c hca, h.vault.writtenOff c hc, hv.writtenOff c hca]
  · rw [hread hv, hread hv']
    exact h.written_le
  · have hcounted := h.counted
    have hborrows := hchange.borrows
    rw [hread hv, hread hv']
    omega

/-! ## Write-offs of the loan -/

theorem manualWriteOff_ok (hw : w.Sound v now) (hauth : e.auth w.vault.config.owner = true)
    (hdefaulted : (w.loanManager.readLoan b).defaulted = true)
    (hfits : I128.Fits (w.loanManager.readLoan b).principal) (amount : Int) :
    ∃ o, Vault.manualWriteOff e w b amount = .ok o := by
  have hnn := hw.books.writtenOff_nonneg b
  have hle := hw.books.writtenOff_le b
  simp only [World.pool] at hnn hle
  have howed : Vault.principalInBorrows (w.loanManager.readLoan b).principal
      (w.vault.readWrittenOff b) =
        .ok ((w.loanManager.readLoan b).principal - w.vault.readWrittenOff b) :=
    Vault.principalInBorrows_ok hnn hle hfits
  have hauth : e.requireAuth w.vault.config.owner = .ok () := Env.requireAuth_eq_ok.mpr hauth
  simp only [Vault.manualWriteOff, LoanManager.isDefaulted, howed, ok_bind, hauth, panicIf,
    hdefaulted, Bool.true_eq_false, if_false, ← min_def_lt]
  split
  · exact ⟨_, rfl⟩
  · have hsub : I128.Fits (w.vault.totalBorrows -
        min amount ((w.loanManager.readLoan b).principal - w.vault.readWrittenOff b)) :=
      counted_fits hw b (by omega) (min_le_right _ _)
    have hadd : I128.Fits (w.vault.readWrittenOff b + min amount
        ((w.loanManager.readLoan b).principal - w.vault.readWrittenOff b)) :=
      hfits.of_le (by omega) (by omega)
    rw [I128.sub_eq_some.mpr ⟨rfl, hsub⟩, I128.add_eq_some.mpr ⟨rfl, hadd⟩]
    exact ⟨_, rfl⟩

/-- What is written off moves towards the principal, and the borrows move with it. -/
theorem manualWriteOff_written {o : Outcome World Unit} {amount : Int} (hw : w.Sound v now)
    (h : Vault.manualWriteOff e w b amount = .ok o) :
    o.state.usdc = w.usdc ∧ o.state.loanManager = w.loanManager ∧ w.vault.Frame b o.state.vault ∧
      o.state.vault.readWrittenOff b = max (w.vault.readWrittenOff b)
        (min (w.vault.readWrittenOff b + amount) (w.loanManager.readLoan b).principal) ∧
      o.state.vault.totalBorrows + o.state.vault.readWrittenOff b =
        w.vault.totalBorrows + w.vault.readWrittenOff b := by
  have hle := hw.books.writtenOff_le b
  simp only [World.pool] at hle
  rcases Vault.manualWriteOff_spec h with ⟨_, amt, hamt, ⟨hnone, hstate⟩ | ⟨hpos, _, hstate⟩⟩
  · rw [hstate]
    exact ⟨rfl, rfl, .refl b _, by omega, rfl⟩
  · rw [hstate]
    have hread := congrFun (readWrittenOff_setWrittenOff (w.vault.lowered amt) b
      (w.vault.readWrittenOff b + amt)) b
    have htotal := setWrittenOff_totalBorrows (w.vault.lowered amt) b
      (w.vault.readWrittenOff b + amt)
    rw [Function.update_self] at hread
    simp only [hread, htotal]
    refine ⟨trivial, trivial,
      ((Vault.State.Frame.refl b w.vault).totalBorrows _).setWrittenOff _, by omega, ?_⟩
    simp only [Vault.State.lowered]
    omega

theorem Healed.manualWriteOff (hw : w.Sound v now) (hw' : w'.Sound v now') (h : Healed b w w')
    (hfits : I128.Fits (w.loanManager.readLoan b).principal) {amount : Int} {o : Outcome World Unit}
    (ho : Vault.manualWriteOff e w b amount = .ok o) :
    ∃ o', Vault.manualWriteOff e w' b amount = .ok o' ∧ Healed b o.state o'.state := by
  have hauth : e.auth w'.vault.config.owner = true := by
    simp only [Vault.manualWriteOff, bind_eq_ok, Env.requireAuth_eq_ok] at ho
    rcases ho with ⟨_, hauth, _⟩
    rw [h.vault.config]
    exact hauth
  have hdefaulted := (Vault.manualWriteOff_spec ho).1
  rcases manualWriteOff_ok hw' hauth (h.loanManager ▸ hdefaulted) (h.loanManager ▸ hfits) amount
    with
    ⟨o', ho'⟩
  rcases manualWriteOff_written hw ho with ⟨husdc, hlm, hframe, hwritten, hcounted⟩
  rcases manualWriteOff_written hw' ho' with ⟨husdc', hlm', hframe', hwritten', hcounted'⟩
  have hle := h.written_le
  have heq := h.counted
  refine ⟨o', ho', ?_, ?_, (hframe.symm.trans h.vault).trans hframe', ?_, ?_⟩
  · rw [husdc', h.usdc, husdc]
  · rw [hlm', h.loanManager, hlm]
  · rw [hwritten, hwritten', h.loanManager]
    omega
  · omega

/-- One more write-off on the second side only keeps the relation. -/
theorem Healed.writeOff (hw' : w'.Sound v now') (h : Healed b w w')
    (hauth : e.auth w.vault.config.owner = true)
    (hdefaulted : (w.loanManager.readLoan b).defaulted = true)
    (hfits : I128.Fits (w.loanManager.readLoan b).principal) (amount : Int) :
    ∃ o', Vault.manualWriteOff e w' b amount = .ok o' ∧ Healed b w o'.state := by
  rcases manualWriteOff_ok hw' (h.vault.config ▸ hauth) (h.loanManager ▸ hdefaulted)
    (h.loanManager ▸ hfits) amount with ⟨o', ho'⟩
  rcases manualWriteOff_written hw' ho' with ⟨husdc', hlm', hframe', hwritten', hcounted'⟩
  have hle := h.written_le
  exact ⟨o', ho', husdc'.trans h.usdc, hlm'.trans h.loanManager, h.vault.trans hframe', by omega,
    hcounted'.trans h.counted⟩

/-! ## Every other call before the settlement -/

/-- The calls that may stand before the settlement of `b`'s loan: anything but a
conversion of shares and a payment on that loan. -/
def BeforeSettlement (b : Address) : Op → Prop
  | .vault (.deposit _ _) => False
  | .vault (.depositFrom _ _ _) => False
  | .vault (.withdraw _ _) => False
  | .vault (.redeem _ _) => False
  | .vault (.repay _ a) => a ≠ b
  | .vault (.repayPartial _ a _) => a ≠ b
  | _ => True

theorem Healed.loanOp (hcontract : e.contract = v) (houtsider : e.auth v = false)
    (hw : w.Sound v now) (hw' : w'.Sound v now') (h : Healed b w w') {a : Address} (ha : a ≠ b)
    {op : Op} (hop : LoanOp a op) {o : Outcome World Ret} (ho : exec e w op = .ok o) :
    ∃ o', exec e w' op = .ok o' ∧ Healed b o.state o'.state := by
  have hcompare : Comparable v a e w w' :=
    ⟨hcontract, houtsider, h.sameAt ha, ⟨now, hw⟩, ⟨now', hw'⟩⟩
  have hlocal := exec_local hcompare hop (fun payer amount _ _ => by rw [h.usdc])
  rcases hlocal.exists_ok ho with ⟨o', ho', houtcome⟩
  exact ⟨o', ho', h.of_localChange ha houtcome.toLocalChange⟩

/-- Lending does not look at the outstanding borrows before it raises them. -/
theorem Healed.borrowWithTerm (hw' : w'.Sound v now') (h : Healed b w w') {a : Address}
    {amount : Int} {tenorDays feeBps : Nat} {o : Outcome World Int}
    (ho : Vault.borrowWithTerm e w a amount tenorDays feeBps = .ok o) :
    ∃ o', Vault.borrowWithTerm e w' a amount tenorDays feeBps = .ok o' ∧
      Healed b o.state o'.state := by
  have hlent := hw'.books.lent_nonneg
  simp only [World.pool] at hlent
  have hle := h.written_le
  have hcounted := h.counted
  have hcash : Vault.cash e w' = Vault.cash e w := congrArg (fun t => t.balance e.contract) h.usdc
  simp only [Vault.borrowWithTerm, hcash, bind_eq_ok, panicIf_eq_ok, unwrapOr_eq_ok,
    I128.add_eq_some, pure_eq_ok, h.usdc, h.loanManager] at ho ⊢
  rcases ho with ⟨_, hauth, _, hpos, _, hlimit, _, hcash, usdc, hsend, _,
    ⟨rfl, hfits⟩, opened, hopen, rfl⟩
  have hpos' : 0 < amount := by omega
  refine ⟨_, ⟨_, hauth, (), hpos, (), hlimit, (), hcash, usdc, hsend, _,
    ⟨rfl, hfits.of_le (by omega) (by omega)⟩, opened, hopen, rfl⟩, rfl, rfl, ?_, hle, ?_⟩
  · exact ⟨h.vault.config, h.vault.totalShares, h.vault.shares, h.vault.writtenOff⟩
  · simp only [Vault.State.readWrittenOff] at hcounted ⊢
    omega

theorem Healed.keep (hcontract : e.contract = v) (houtsider : e.auth v = false) (hw : w.Sound v now)
    (hw' : w'.Sound v now') (h : Healed b w w')
    (hfits : I128.Fits (w.loanManager.readLoan b).principal) {op : Op} (hop : BeforeSettlement b op)
    {o : Outcome World Ret} (ho : exec e w op = .ok o) :
    ∃ o', exec e w' op = .ok o' ∧ Healed b o.state o'.state := by
  cases op with
  | vault op =>
      cases op with
      | deposit => exact hop.elim
      | depositFrom => exact hop.elim
      | withdraw => exact hop.elim
      | redeem => exact hop.elim
      | borrowWithTerm a amount tenorDays feeBps =>
          simp only [System.exec, Vault.exec, map_eq_ok] at ho
          rcases ho with ⟨_, ⟨r, hr, rfl⟩, rfl⟩
          rcases h.borrowWithTerm hw' hr with ⟨r', hr', hhealed⟩
          refine ⟨(r'.as .amount).as .vault, ?_, hhealed⟩
          simp only [System.exec, Vault.exec, hr', Except.map]
      | repay p a => exact h.loanOp hcontract houtsider hw hw' hop (.repay p) ho
      | repayPartial p a amount =>
          exact h.loanOp hcontract houtsider hw hw' hop (.repayPartial p amount) ho
      | manualWriteOff a amount =>
          by_cases ha : a = b
          · subst ha
            simp only [System.exec, Vault.exec, map_eq_ok] at ho
            rcases ho with ⟨_, ⟨r, hr, rfl⟩, rfl⟩
            rcases h.manualWriteOff hw hw' hfits hr with ⟨r', hr', hhealed⟩
            refine ⟨(r'.as fun _ => .unit).as .vault, ?_, hhealed⟩
            simp only [System.exec, Vault.exec, hr', Except.map]
          · exact h.loanOp hcontract houtsider hw hw' ha (.manualWriteOff amount) ho
      | setFeeRecipient a =>
          simp only [System.exec, Vault.exec, Vault.setFeeRecipient, map_eq_ok, bind_eq_ok,
            pure_eq_ok, h.vault.config] at ho ⊢
          rcases ho with ⟨_, ⟨_, ⟨_, hauth, rfl⟩, rfl⟩, rfl⟩
          refine ⟨_, ⟨_, ⟨_, ⟨_, hauth, rfl⟩, rfl⟩, rfl⟩, h.usdc, h.loanManager, ?_, h.written_le,
            h.counted⟩
          exact ⟨rfl, h.vault.totalShares, h.vault.shares, h.vault.writtenOff⟩
  | loanManager op =>
      simp only [System.exec, map_eq_ok, h.loanManager] at ho ⊢
      rcases ho with ⟨r, hr, rfl⟩
      exact ⟨_, ⟨r, hr, rfl⟩, h.usdc, rfl, h.vault, h.written_le, h.counted⟩
  | transfer source target amount =>
      simp only [System.exec, map_eq_ok, h.usdc] at ho ⊢
      rcases ho with ⟨r, hr, rfl⟩
      exact ⟨_, ⟨r, hr, rfl⟩, rfl, h.loanManager, h.vault, h.written_le, h.counted⟩

/-! ## The settlement -/

/-- Either entry point that can pay off the loan of `b`. -/
def SettlementOf (b : Address) (op : Op) : Prop :=
  (∃ payer, op = .vault (.repay payer b)) ∨
    ∃ payer amount, op = .vault (.repayPartial payer b amount)

/-- What is counted of the principal leaves the books of both sides, and with it the
difference between them. -/
theorem Healed.settled (h : Healed b w w') (principal : Int) :
    Vault.State.setWrittenOff { w'.vault with totalBorrows :=
        w'.vault.totalBorrows - (principal - w'.vault.readWrittenOff b) } b 0 =
      Vault.State.setWrittenOff { w.vault with totalBorrows :=
        w.vault.totalBorrows - (principal - w.vault.readWrittenOff b) } b 0 := by
  have hcounted := h.counted
  simp only [Vault.State.setWrittenOff, if_true]
  ext1
  · exact h.vault.config
  · exact h.vault.totalShares
  · simp only
    omega
  · exact h.vault.shares
  · refine Store.ext fun c => ?_
    simp only [Store.get?_remove]
    by_cases hc : c = b
    · simp only [if_pos hc]
    · simp only [if_neg hc]
      exact h.vault.writtenOff c hc

theorem settlement_fits (hw : w.Sound v now)
    (hfits : I128.Fits (w.loanManager.readLoan b).principal) :
    Vault.principalInBorrows (w.loanManager.readLoan b).principal (w.vault.readWrittenOff b) =
        .ok ((w.loanManager.readLoan b).principal - w.vault.readWrittenOff b) ∧
      0 ≤ (w.loanManager.readLoan b).principal - w.vault.readWrittenOff b ∧
      I128.Fits (w.vault.totalBorrows -
        ((w.loanManager.readLoan b).principal - w.vault.readWrittenOff b)) := by
  have hnn := hw.books.writtenOff_nonneg b
  have hle := hw.books.writtenOff_le b
  simp only [World.pool] at hnn hle
  exact ⟨Vault.principalInBorrows_ok hnn hle hfits, by omega, counted_fits hw b (by omega) le_rfl⟩

theorem Healed.repay (hw : w.Sound v now) (hw' : w'.Sound v now') (h : Healed b w w')
    (hfits : I128.Fits (w.loanManager.readLoan b).principal) (payer : Address) :
    Agree (fun o o' => o'.state = o.state) (Vault.repay e w payer b)
    (Vault.repay e w' payer b) := by
  have hrecipient : w'.vault.config.feeRecipient = w.vault.config.feeRecipient := by
    rw [h.vault.config]
  rcases settlement_fits hw hfits with ⟨hin, _, hsub⟩
  rcases settlement_fits hw' (h.loanManager ▸ hfits) with ⟨hin', _, hsub'⟩
  rw [h.loanManager] at hin' hsub'
  simp only [Vault.repay, h.usdc, h.loanManager, hrecipient, hin, hin', ok_bind]
  refine .same _ fun _ _ => .same _ fun _ _ => .same _ fun _ _ => .same _ fun _ _ => ?_
  refine .same _ fun _ _ => .same _ fun paid _ => .same _ fun _ _ => .same _ fun usdc _ => ?_
  refine .bind (lower_local hsub hsub') fun n m _ _ hnm => .pure ?_
  rcases hnm with ⟨rfl, rfl⟩
  simp only [h.settled]

/-- On a defaulted loan the loan manager takes the whole balance or nothing. -/
theorem applyPayment_defaulted {s : LoanManager.State} {paid : Int}
    {o : Outcome LoanManager.State (Int × Int × Int)}
    (hlive : (s.readLoan b).active = true → (s.readLoan b).Live)
    (hdefaulted : (s.readLoan b).defaulted = true)
    (h : LoanManager.applyPayment e s b paid = .ok o) :
    o.value.1 = (s.readLoan b).principal ∧ o.value.2.2 = 0 ∧
      (o.state.readLoan b).active = false := by
  rcases LoanManager.applyPayment_spec h with ⟨_, _, hactive, acc, hacc, hbranch⟩
  have hprin := ((hlive hactive).accrued_bounds hacc).1
  rcases LoanManager.accruedInMemory_spec (hlive hactive).amountDue_pos.le hacc with ⟨x, _, rfl⟩
  rcases hbranch with ⟨_, _, rfl⟩ | ⟨_, hhealthy, _⟩
  · refine ⟨hprin, rfl, ?_⟩
    rw [LoanManager.closedState_readLoan, if_pos rfl]
    rfl
  · rw [hdefaulted] at hhealthy
    cases hhealthy

theorem Healed.repayPartial (hw : w.Sound v now) (hw' : w'.Sound v now') (h : Healed b w w')
    (hfits : I128.Fits (w.loanManager.readLoan b).principal)
    (hdefaulted : (w.loanManager.readLoan b).defaulted = true) (payer : Address) (amount : Int) :
    Agree (fun o o' => o'.state = o.state) (Vault.repayPartial e w payer b amount)
      (Vault.repayPartial e w' payer b amount) := by
  have hrecipient : w'.vault.config.feeRecipient = w.vault.config.feeRecipient := by
    rw [h.vault.config]
  rcases settlement_fits hw hfits with ⟨hin, hnn, hsub⟩
  rcases settlement_fits hw' (h.loanManager ▸ hfits) with ⟨hin', hnn', hsub'⟩
  rw [h.loanManager] at hin' hnn' hsub'
  simp only [Vault.repayPartial, h.usdc, h.loanManager, hrecipient]
  refine .same _ fun _ _ => .same _ fun _ _ => .same _ fun _ _ => .same _ fun _ _ => ?_
  refine .same _ fun _ _ => .same _ fun _ _ => .same _ fun _ _ => .same _ fun paid hpaid => ?_
  rcases applyPayment_defaulted (hw.loanManager.loans b).live hdefaulted hpaid with
    ⟨hprin, hzero, _⟩
  obtain ⟨s, events, principalPaid, interestPaid, remaining⟩ := paid
  simp only at hprin hzero
  subst hprin hzero
  refine .same _ fun _ _ => .same _ fun usdc _ => ?_
  simp only [hin, hin', subIfPositive_ok hnn hsub, subIfPositive_ok hnn' hsub', ok_bind, if_true]
  exact .pure (by simp only [h.settled])

theorem settlement_closes (hw : w.Sound v now)
    (hdefaulted : (w.loanManager.readLoan b).defaulted = true) {op : Op} (hop : SettlementOf b op)
    {o : Outcome World Ret} (ho : exec e w op = .ok o) :
    (o.state.loanManager.readLoan b).active = false ∧ o.state.vault.readWrittenOff b = 0 := by
  have hlive := (hw.loanManager.loans b).live
  have hclosed : ∀ {payer : Address} {r : Vault.Payment} {x : World},
      (w.loanManager.readLoan b).active = true → Vault.PaymentEffect e w payer b r x →
      (x.loanManager.readLoan b).active = false ∧ x.vault.readWrittenOff b = 0 := by
    intro payer r x hactive heffect
    cases heffect with
    | closed _ _ hvault hlm =>
        refine ⟨?_, ?_⟩
        · rw [hlm, LoanManager.closedState_readLoan, if_pos rfl]
          rfl
        · rw [hvault, Vault.State.settled, readWrittenOff_setWrittenOff, Function.update_self]
    | reduced _ _ hhealthy _ _ _ _ _ hacc =>
        rcases LoanManager.accruedInMemory_spec (hlive hactive).amountDue_pos.le hacc
          with ⟨y, _, rfl⟩
        rw [hdefaulted] at hhealthy
        cases hhealthy
  rcases hop with ⟨payer, rfl⟩ | ⟨payer, amount, rfl⟩
  · simp only [System.exec, Vault.exec, map_eq_ok] at ho
    rcases ho with ⟨_, ⟨r, hr, rfl⟩, rfl⟩
    rcases Vault.repay_spec hlive hr with ⟨_, hactive, _, _, _, heffect⟩
    exact hclosed hactive heffect
  · simp only [System.exec, Vault.exec, map_eq_ok] at ho
    rcases ho with ⟨_, ⟨r, hr, rfl⟩, rfl⟩
    rcases Vault.repayPartial_spec hlive hr with ⟨_, _, hactive, _, _, _, heffect⟩
    exact hclosed hactive heffect

theorem Healed.settle (hw : w.Sound v now) (hw' : w'.Sound v now') (h : Healed b w w')
    (hfits : I128.Fits (w.loanManager.readLoan b).principal)
    (hdefaulted : (w.loanManager.readLoan b).defaulted = true) {op : Op} (hop : SettlementOf b op)
    {o : Outcome World Ret} (ho : System.exec e w op = .ok o) :
    ∃ o', System.exec e w' op = .ok o' ∧ o'.state = o.state := by
  rcases hop with ⟨payer, rfl⟩ | ⟨payer, amount, rfl⟩
  · simp only [System.exec, Vault.exec, map_eq_ok] at ho
    rcases ho with ⟨_, ⟨r, hr, rfl⟩, rfl⟩
    rcases (h.repay hw hw' hfits payer).exists_ok hr with ⟨r', hr', hstate⟩
    refine ⟨(r'.as .payment).as .vault, ?_, hstate⟩
    simp only [System.exec, Vault.exec, hr', Except.map]
  · simp only [System.exec, Vault.exec, map_eq_ok] at ho
    rcases ho with ⟨_, ⟨r, hr, rfl⟩, rfl⟩
    rcases (h.repayPartial hw hw' hfits hdefaulted payer amount).exists_ok hr with ⟨r', hr', hstate⟩
    refine ⟨(r'.as .payment).as .vault, ?_, hstate⟩
    simp only [System.exec, Vault.exec, hr', Except.map]

end Healed

/-! ## Runs -/

section Runs

variable {v b : Address} {s t : Clocked World} {label : Label}

theorem Step.principals_fit (hstep : Step v s label t) (hs : s.state.Sound v s.now)
    (hfits : ∀ a, I128.Fits (s.state.loanManager.readLoan a).principal) (a : Address) :
    I128.Fits (t.state.loanManager.readLoan a).principal := by
  have hclock : s.now ≤ label.1.timestamp := hstep.call.clock
  have hmoves := (hstep.simulated hs).loanManager
  unfold MovesLoanManager at hmoves
  split at hmoves
  · rw [hmoves]
    exact hfits a
  · rcases hmoves with ⟨e', o, htime, ho, hstate⟩
    have htime : e'.timestamp = label.1.timestamp := htime
    rw [← hstate]
    exact (LoanManager.exec_effect ho).principals_fit hs.loanManager (htime ▸ hclock) hfits a

theorem Reachable.principals_fit (h : Reachable v s) (a : Address) :
    I128.Fits (s.state.loanManager.readLoan a).principal := by
  rcases h with ⟨usdc, owner, feeRecipient, lmOwner, now, labels, run⟩
  let P : Clocked World → Prop := fun s => s.state.Sound v s.now ∧
    ∀ a, I128.Fits (s.state.loanManager.readLoan a).principal
  have hkeep : ∀ s label t, P s → Step v s label t → P t := fun s label t hP hstep =>
    ⟨hstep.sound hP.1, hstep.principals_fit hP.1 hP.2⟩
  have hend : P s := run.invariant hkeep ⟨deployed_sound v usdc owner feeRecipient lmOwner now,
    fun _ => (by decide : I128.Fits 0)⟩
  exact hend.2 a

theorem Step.vault_owner (hstep : Step v s label t) (hs : s.state.Sound v s.now) :
    t.state.vault.config.owner = s.state.vault.config.owner := by
  rcases (hstep.simulated hs).recipient with hconfig | hop
  · rw [hconfig]
  · rcases hstep.exec_ok with ⟨o, ho, hstate, _⟩
    rw [hop] at ho
    simp only [System.exec, Vault.exec, Vault.setFeeRecipient, map_eq_ok, bind_eq_ok,
      pure_eq_ok] at ho
    rcases ho with ⟨_, ⟨_, ⟨_, _, rfl⟩, rfl⟩, rfl⟩
    rw [← hstate]
    rfl

theorem Step.stays_defaulted (hstep : Step v s label t) (hs : s.state.Sound v s.now)
    (hop : BeforeSettlement b label.1.op)
    (hdefaulted : (s.state.loanManager.readLoan b).defaulted = true) :
    (t.state.loanManager.readLoan b).defaulted = true := by
  have hactive := ((hs.loanManager.loans b).defaulted hdefaulted).1
  have houtsider := hstep.admissible.outsider
  have hmoves := (hstep.simulated hs).loanManager
  rcases hstep.exec_ok with ⟨o, ho, hstate, hvalue⟩
  rw [← hstate] at hmoves ⊢
  have hframe : ∀ {a : Address}, a ≠ b → LoanOp a label.1.op →
      (o.state.loanManager.readLoan b).defaulted = true := by
    intro a ha hloan
    have hsame := (exec_frame rfl houtsider hs hloan ho).sameAt ha.symm
    rw [hsame.loanManager.readLoan]
    exact hdefaulted
  generalize hlabel : label.1.op = op at hop ho hmoves hframe
  cases op with
  | vault op =>
      cases op with
      | deposit => exact hop.elim
      | depositFrom => exact hop.elim
      | withdraw => exact hop.elim
      | redeem => exact hop.elim
      | borrowWithTerm a amount tenorDays feeBps =>
          simp only [System.exec, Vault.exec, map_eq_ok] at ho
          rcases ho with ⟨_, ⟨r, hr, rfl⟩, rfl⟩
          rcases Vault.borrowWithTerm_spec hr with ⟨_, _, _, _, _, _, opened, hopen, hlm⟩
          rcases LoanManager.openLoan_spec hopen with ⟨_, _, _, hinactive, _, _, l, _, hopened, _⟩
          have hne : b ≠ a := by
            rintro rfl
            rw [hactive] at hinactive
            cases hinactive
          rw [Outcome.as_state, Outcome.as_state, hlm, hopened,
            LoanManager.State.readLoan_writeLoan, if_neg hne]
          exact hdefaulted
      | repay p a => exact hframe hop (.repay p)
      | repayPartial p a amount => exact hframe hop (.repayPartial p amount)
      | manualWriteOff a amount =>
          rw [show o.state.loanManager = s.state.loanManager from hmoves]
          exact hdefaulted
      | setFeeRecipient a =>
          rw [show o.state.loanManager = s.state.loanManager from hmoves]
          exact hdefaulted
  | loanManager op =>
      simp only [System.exec, map_eq_ok] at ho
      rcases ho with ⟨r, hr, rfl⟩
      refine (LoanManager.exec_effect hr).keeps_default hs.loanManager ?_ hdefaulted
      rw [hs.wired]
      exact houtsider
  | transfer source target amount =>
      rw [show o.state.loanManager = s.state.loanManager from hmoves]
      exact hdefaulted

/-- The two runs of the comparison, so far. -/
structure HealedRuns (v b owner : Address) (s s' : Clocked World) : Prop where
  sound : s.state.Sound v s.now
  sound' : s'.state.Sound v s'.now
  healed : Healed b s.state s'.state
  fits : ∀ a, I128.Fits (s.state.loanManager.readLoan a).principal
  defaulted : (s.state.loanManager.readLoan b).defaulted = true
  owner_eq : s.state.vault.config.owner = owner

/-- A write-off of `b`'s loan by the owner of the vault, for any amount. -/
structure WritesOff (v b owner : Address) (call : Call) : Prop where
  admissible : call.Admissible v
  auth : call.auth owner = true
  op_eq : ∃ amount, call.op = .vault (.manualWriteOff b amount)

/-- The step a call makes on the second side, given what it returns there. -/
theorem Step.of_exec_ok {call : Call} {o : Outcome World Ret} (hadm : call.Admissible v)
    (hclock : s.now ≤ call.timestamp) (ho : System.exec (call.env v) s.state call.op = .ok o) :
    Step v s (call, (o.events, o.value)) ⟨call.timestamp, o.state⟩ :=
  Step.of_exec hadm hclock (r := o.split) (by rw [Call.exec, ho]; rfl)

theorem HealedRuns.keep {owner : Address} {s' : Clocked World} (h : HealedRuns v b owner s s')
    (hop : BeforeSettlement b label.1.op) (hstep : Step v s label t)
    (hclock : s'.now ≤ label.1.timestamp) :
    ∃ r t', Step v s' (label.1, r) t' ∧ HealedRuns v b owner t t' := by
  rcases hstep.exec_ok with ⟨o, ho, hstate, _⟩
  rcases h.healed.keep rfl hstep.admissible.outsider h.sound h.sound' (h.fits b) hop ho with
    ⟨o', ho', hhealed⟩
  have hstep' := Step.of_exec_ok hstep.admissible hclock ho'
  refine ⟨_, _, hstep', hstep.sound h.sound, hstep'.sound h.sound', hstate ▸ hhealed,
    hstep.principals_fit h.sound h.fits, hstep.stays_defaulted h.sound hop h.defaulted,
    (hstep.vault_owner h.sound).trans h.owner_eq⟩

theorem HealedRuns.insert {owner : Address} {s' : Clocked World} {call : Call}
    (h : HealedRuns v b owner s s') (hcall : WritesOff v b owner call)
    (hclock : s'.now ≤ call.timestamp) :
    ∃ r t', Step v s' (call, r) t' ∧ HealedRuns v b owner s t' := by
  rcases hcall.op_eq with ⟨amount, hop⟩
  have hauth : (call.env v).auth s.state.vault.config.owner = true := by
    rw [h.owner_eq]
    exact hcall.auth
  rcases h.healed.writeOff h.sound' hauth h.defaulted (h.fits b) amount with ⟨o', ho', hhealed⟩
  have hexec : System.exec (call.env v) s'.state call.op =
      .ok ((o'.as fun _ => .unit).as .vault) := by
    rw [hop]
    simp only [System.exec, Vault.exec, ho', Except.map]
  have hstep' := Step.of_exec_ok hcall.admissible hclock hexec
  exact ⟨_, _, hstep', h.sound, hstep'.sound h.sound', hhealed, h.fits, h.defaulted, h.owner_eq⟩

end Runs

/-- From every reachable state in which the loan of `b` is defaulted, hence open: take a
run of calls other than share conversions that ends with the settlement of that loan,
and insert any write-offs of it by the owner, of any amounts, before the settlement.
The calls still succeed, and both runs end in the same state, with the loan closed and
nothing written off of it. -/
theorem writeOffs_healed {v b : Address} {c c₁ : Clocked World} {others inserted : List Call}
    {settlement : Call} {labels : List Label} (h : Reachable v c)
    (hdefaulted : (c.state.loanManager.readLoan b).defaulted = true)
    (hothers : ∀ call ∈ others, BeforeSettlement b call.op)
    (hsettlement : SettlementOf b settlement.op) (run : Run (Step v) c labels c₁)
    (hcalls : labels.map Prod.fst = others ++ [settlement])
    (hinserted : Inserted (WritesOff v b c.state.vault.config.owner) others inserted)
    (hsorted : (inserted ++ [settlement]).Pairwise fun x y => x.timestamp ≤ y.timestamp)
    (hstart : ∀ call ∈ inserted ++ [settlement], c.now ≤ call.timestamp) :
    ∃ labels' c₁', Run (Step v) c labels' c₁' ∧ labels'.map Prod.fst = inserted ++ [settlement] ∧
      c₁'.state.vault.totalBorrows = c₁.state.vault.totalBorrows ∧
      c₁'.state.usdc.balance v = c₁.state.usdc.balance v ∧
      c₁'.state.totalAssets v = c₁.state.totalAssets v ∧
      c₁'.state.loanManager = c₁.state.loanManager ∧
      c₁.state.vault.readWrittenOff b = 0 ∧ c₁'.state.vault.readWrittenOff b = 0 ∧
      (c₁.state.loanManager.readLoan b).active = false ∧ c₁' = c₁ := by
  rcases List.eq_nil_or_concat' labels with rfl | ⟨before, last, rfl⟩
  · simp at hcalls
  simp only [List.map_append, List.map_cons, List.map_nil] at hcalls
  rcases List.append_inj' hcalls rfl with ⟨hbefore, hlast⟩
  cases hlast
  rcases run.snoc_inv with ⟨u, hrun, hstep⟩
  have hsound := h.sound
  have hinit : HealedRuns v b c.state.vault.config.owner c c :=
    ⟨hsound, hsound, .refl b _, h.principals_fit, hdefaulted, rfl⟩
  have hclock : ∀ s label t, Step v s label t → t.now = label.1.timestamp :=
    fun _ _ _ hstep => hstep.call.now_eq
  have hbound := (List.pairwise_append.mp hsorted).2.2
  rcases Clocked.run_inserted hclock (fun _ _ _ _ hrel hop hstep hle => hrel.keep hop hstep hle)
    (fun _ _ _ hrel hcall hle => hrel.insert hcall hle) hinserted hinit
    (List.pairwise_append.mp hsorted).1 (fun call hmem => hstart call (by simp [hmem])) hothers hrun
    hbefore with ⟨before', u', hrun', hbefore', hrel⟩
  have hready : u'.now ≤ last.1.timestamp := by
    refine Clocked.run_now_le hclock hrun' (hstart last.1 (by simp)) ?_
    exact forall_label_of_calls (P := fun call => call.timestamp ≤ last.1.timestamp) hbefore'
      fun call hmem => hbound call hmem last.1 (by simp)
  rcases hstep.exec_ok with ⟨o, ho, hstate, _⟩
  rcases hrel.healed.settle hrel.sound hrel.sound' (hrel.fits b) hrel.defaulted hsettlement ho with
    ⟨o', ho', hsame⟩
  have hstep' := Step.of_exec_ok hstep.admissible hready ho'
  have hend : (⟨last.1.timestamp, o'.state⟩ : Clocked World) = c₁ := by
    rw [hsame, hstate, ← hstep.call.now_eq]
  rw [hend] at hstep'
  rcases settlement_closes hrel.sound hrel.defaulted hsettlement ho with ⟨hclosed, hwritten⟩
  rw [hstate] at hclosed hwritten
  exact ⟨_, c₁, hrun'.snoc hstep', by simp [hbefore'], rfl, rfl, rfl, rfl,
    hwritten, hwritten, hclosed, rfl⟩

/-- A stranger accrues the defaulted loan before the provider repays it. -/
def accrueFive : Call := .signedBy ⟨7⟩ 1988300 (.loanManager (.accrueLate ⟨5⟩))

def repayFive : Call := .signedBy ⟨4⟩ 2000000 (.vault (.repay ⟨4⟩ ⟨5⟩))

def writeOffFive (timestamp : Nat) (amount : Int) : Call :=
  .signedBy ⟨2⟩ timestamp (.vault (.manualWriteOff ⟨5⟩ amount))

/-- A partial write-off before the accrual, a negative one and one beyond the
principal after it. -/
theorem writeOffs_healed_three :
    ∃ c c₁ labels, Reachable ⟨1⟩ c ∧ Run (Step ⟨1⟩) c labels c₁ ∧
      labels.map Prod.fst = [writeOffFive 1988201 60000000, accrueFive, writeOffFive 1988400 (-5),
        writeOffFive 1988400 1000000000000] ++ [repayFive] ∧
      c₁.state.vault.readWrittenOff ⟨5⟩ = 0 := by
  have hrun : ∃ c, Clocked.run? Call.timestamp (Call.exec ⟨1⟩) launch
        (lendingCalls ++ [.signedBy ⟨2⟩ 1988201 (.loanManager (.markDefault ⟨5⟩))]) = some c ∧
      c.now ≤ 1988201 ∧ c.state.vault.config.owner = ⟨2⟩ ∧
      (c.state.loanManager.readLoan ⟨5⟩).defaulted = true ∧
      (Clocked.run? Call.timestamp (Call.exec ⟨1⟩) c [accrueFive, repayFive]).isSome := by decide
  rcases hrun with ⟨c, hc, hclock, howner, hdefaulted, hsome⟩
  rcases Option.isSome_iff_exists.mp hsome with ⟨c₁, hc₁⟩
  have hreach : Reachable ⟨1⟩ c := reachable_of_run? hc (by decide)
  rcases run_of_run? hc₁ (by decide) with ⟨labels, run, hcalls⟩
  have hwrites : ∀ timestamp amount, WritesOff ⟨1⟩ ⟨5⟩ ⟨2⟩ (writeOffFive timestamp amount) :=
    fun _ _ => ⟨.of_admissible rfl, rfl, _, rfl⟩
  have hinserted := ((((Inserted.nil (P := WritesOff ⟨1⟩ ⟨5⟩ ⟨2⟩)).insert
    (hwrites 1988201 60000000)).keep accrueFive).insert (hwrites 1988400 (-5))).insert
      (hwrites 1988400 1000000000000)
  have hothers : ∀ call ∈ [accrueFive], BeforeSettlement ⟨5⟩ call.op := by
    intro call hmem
    cases List.mem_singleton.mp hmem
    trivial
  have hlate : ∀ call ∈ [writeOffFive 1988201 60000000, accrueFive, writeOffFive 1988400 (-5),
      writeOffFive 1988400 1000000000000] ++ [repayFive], 1988201 ≤ call.timestamp := by decide
  rcases writeOffs_healed hreach hdefaulted hothers (.inl ⟨⟨4⟩, rfl⟩) run hcalls
    (howner ▸ hinserted) (by decide) (fun call hmem => hclock.trans (hlate call hmem)) with
    ⟨labels', _, run', hcalls', _, _, _, _, hwritten, _, _, rfl⟩
  exact ⟨c, _, labels', hreach, run', hcalls', hwritten⟩

end System

end Lendoor
