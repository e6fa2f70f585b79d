import Lendoor.Core.Relational
import Lendoor.System.Refinement

/-! # What an operation on one loan reads and writes

Repayments, accrual, default and write-off of a borrower read that borrower's own
entries and the configuration, and write those entries only. Besides them they
move the token balances and the outstanding borrows by amounts that depend on the
same entries. So from two states that agree on the borrower, an operation fails in
the same way, or makes the same change to both.
-/

namespace Lendoor

attribute [ext] World Vault.State LoanManager.State

/-! ## The loan manager -/

namespace LoanManager

/-- The two states agree on what the operations on `b`'s loan read. -/
structure State.SameAt (b : Address) (s t : State) : Prop where
  owner : t.owner = s.owner
  config : t.config = s.config
  minHold : t.minHold = s.minHold
  loan : t.loan.get? b = s.loan.get? b
  premium : t.premium.get? b = s.premium.get? b
  nextBorrow : t.nextBorrow.get? b = s.nextBorrow.get? b
  risk : t.risk.get? b = s.risk.get? b

/-- Nothing but the record, the cooldown and the risk profile of `b` differs. -/
structure State.Frame (b : Address) (s t : State) : Prop where
  owner : t.owner = s.owner
  config : t.config = s.config
  minHold : t.minHold = s.minHold
  offer : t.offer = s.offer
  premium : t.premium = s.premium
  loan : ∀ a, a ≠ b → t.loan.get? a = s.loan.get? a
  nextBorrow : ∀ a, a ≠ b → t.nextBorrow.get? a = s.nextBorrow.get? a
  risk : ∀ a, a ≠ b → t.risk.get? a = s.risk.get? a

section Same

variable {b : Address} {s t : State}

theorem State.SameAt.refl (b : Address) (s : State) : s.SameAt b s :=
  ⟨rfl, rfl, rfl, rfl, rfl, rfl, rfl⟩

theorem State.SameAt.readLoan (h : s.SameAt b t) : t.readLoan b = s.readLoan b := by
  rw [State.readLoan, State.readLoan, Store.getD, Store.getD, h.loan]

theorem State.SameAt.readPremium (h : s.SameAt b t) : t.readPremium b = s.readPremium b := by
  rw [State.readPremium, State.readPremium, Store.getD, Store.getD, h.premium]

theorem State.SameAt.minHoldSecs (h : s.SameAt b t) (tenorDays : Nat) :
    t.minHoldSecs tenorDays = s.minHoldSecs tenorDays := by
  rw [State.minHoldSecs, State.minHoldSecs, h.minHold]

theorem State.SameAt.writeLoan (h : s.SameAt b t) (l : Loan) :
    (s.writeLoan b l).SameAt b (t.writeLoan b l) :=
  ⟨h.owner, h.config, h.minHold, by simp [State.writeLoan, Store.get?_set], h.premium,
    h.nextBorrow, h.risk⟩

theorem State.SameAt.writeNextBorrow (h : s.SameAt b t) (ts : Nat) :
    (s.writeNextBorrow b ts).SameAt b (t.writeNextBorrow b ts) :=
  ⟨h.owner, h.config, h.minHold, h.loan, h.premium,
    by simp [State.writeNextBorrow, Store.get?_set], h.risk⟩

theorem State.SameAt.zeroLimit (h : s.SameAt b t) :
    State.SameAt b { s with risk := zeroLimit s.risk b } { t with risk := zeroLimit t.risk b } := by
  refine ⟨h.owner, h.config, h.minHold, h.loan, h.premium, h.nextBorrow, ?_⟩
  simp only [LoanManager.zeroLimit, h.risk]
  cases hrisk : s.risk.get? b with
  | none => simp [hrisk, h.risk]
  | some r => simp [Store.get?_set]

theorem State.Frame.refl (b : Address) (s : State) : s.Frame b s :=
  ⟨rfl, rfl, rfl, rfl, rfl, fun _ _ => rfl, fun _ _ => rfl, fun _ _ => rfl⟩

theorem State.Frame.writeLoan (h : s.Frame b t) (l : Loan) : s.Frame b (t.writeLoan b l) :=
  ⟨h.owner, h.config, h.minHold, h.offer, h.premium,
    fun a ha => by rw [State.writeLoan, Store.get?_set, if_neg ha, h.loan a ha],
    h.nextBorrow, h.risk⟩

theorem State.Frame.writeNextBorrow (h : s.Frame b t) (ts : Nat) :
    s.Frame b (t.writeNextBorrow b ts) :=
  ⟨h.owner, h.config, h.minHold, h.offer, h.premium, h.loan,
    fun a ha => by rw [State.writeNextBorrow, Store.get?_set, if_neg ha, h.nextBorrow a ha], h.risk⟩

theorem State.Frame.zeroLimit (h : s.Frame b t) :
    State.Frame b s { t with risk := zeroLimit t.risk b } := by
  refine ⟨h.owner, h.config, h.minHold, h.offer, h.premium, h.loan, h.nextBorrow, fun a ha => ?_⟩
  rw [← h.risk a ha]
  simp only [LoanManager.zeroLimit]
  split
  · rw [Store.get?_set, if_neg ha]
  · rfl

/-- An operation that leaves everything but `b` alone does not show at another account. -/
theorem State.Frame.sameAt (h : s.Frame b t) {a : Address} (ha : a ≠ b) : s.SameAt a t :=
  ⟨h.owner, h.config, h.minHold, h.loan a ha, by rw [h.premium], h.nextBorrow a ha, h.risk a ha⟩

end Same

/-- The same change at `b`, with the same events and return value. -/
structure LocalOutcome {α : Type} (b : Address) (s t : State) (o p : Outcome State α) : Prop where
  value : o.value = p.value
  events : o.events = p.events
  same : o.state.SameAt b p.state
  frame : s.Frame b o.state
  frame' : t.Frame b p.state

section Local

variable {b : Address} {s t : State} {e : Env}

theorem previewOwed_local (h : s.SameAt b t) : previewOwed e t b = previewOwed e s b := by
  rw [previewOwed, previewOwed, h.readLoan, h.readPremium]

theorem accrueLate_local (h : s.SameAt b t) :
    Agree (LocalOutcome b s t) (accrueLate e s b) (accrueLate e t b) := by
  simp only [accrueLate, h.readLoan, h.readPremium]
  refine .ite (fun _ => .pure ⟨rfl, rfl, h, .refl b s, .refl b t⟩) (fun _ => ?_)
  refine .same _ fun acc _ => .pure ⟨rfl, rfl, h.writeLoan _, ?_, ?_⟩
  · exact (State.Frame.refl b s).writeLoan _
  · exact (State.Frame.refl b t).writeLoan _

theorem markDefault_local (h : s.SameAt b t) :
    Agree (LocalOutcome b s t) (markDefault e s b) (markDefault e t b) := by
  simp only [markDefault, h.readLoan, h.owner, h.config]
  refine .same _ fun _ _ => .same _ fun _ _ => .same _ fun _ _ => .same _ fun _ _ => ?_
  refine .same _ fun _ _ => .same _ fun _ _ => .same _ fun _ _ => .pure ⟨rfl, rfl, ?_, ?_, ?_⟩
  · exact ((h.writeLoan _).zeroLimit).writeNextBorrow _
  · exact (((State.Frame.refl b s).writeLoan _).zeroLimit).writeNextBorrow _
  · exact (((State.Frame.refl b t).writeLoan _).zeroLimit).writeNextBorrow _

theorem finishClose_local (h : s.SameAt b t) (l : Loan) (paid : Int) :
    Agree (LocalOutcome b s t) (finishClose e s b l paid) (finishClose e t b l paid) := by
  simp only [finishClose, h.minHoldSecs]
  refine .same _ fun _ _ => .pure ⟨rfl, rfl, (h.writeNextBorrow _).writeLoan _, ?_, ?_⟩
  · exact ((State.Frame.refl b s).writeNextBorrow _).writeLoan _
  · exact ((State.Frame.refl b t).writeNextBorrow _).writeLoan _

theorem applyPayment_local (h : s.SameAt b t) (paid : Int) :
    Agree (LocalOutcome b s t) (applyPayment e s b paid) (applyPayment e t b paid) := by
  simp only [applyPayment, h.readLoan, h.readPremium, h.config]
  refine .same _ fun _ _ => .same _ fun _ _ => .same _ fun _ _ => .same _ fun acc _ => ?_
  refine .ite (fun _ => .same _ fun _ _ => ?_) (fun _ => ?_)
  · refine .bind (finishClose_local h _ paid) fun o p _ _ hop => .pure ?_
    exact ⟨rfl, hop.events, hop.same, hop.frame, hop.frame'⟩
  · refine .same _ fun _ _ => .same _ fun _ _ => .same _ fun _ _ => .same _ fun _ _ => ?_
    refine .same _ fun _ _ => .pure ⟨rfl, rfl, h.writeLoan _, ?_, ?_⟩
    · exact (State.Frame.refl b s).writeLoan _
    · exact (State.Frame.refl b t).writeLoan _

end Local

end LoanManager

/-! ## The token -/

/-- Both ledgers moved every balance by the same amount. -/
def Token.Shifted (t t' u u' : Token) : Prop :=
  ∀ a, t'.balance a - t.balance a = u'.balance a - u.balance a

theorem Token.Shifted.refl (t u : Token) : Token.Shifted t t u u := fun _ => by omega

theorem Token.transfer_shifted {e : Env} {t₀ t u₀ u : Token}
    {source target : Address} {amount : Int}
    (h : Token.Shifted t₀ t u₀ u) (hfund : amount ≤ t.balance source ↔ amount ≤ u.balance source) :
    Agree (fun t' u' => Token.Shifted t₀ t' u₀ u') (t.transfer e source target amount)
      (u.transfer e source target amount) := by
  refine .same _ fun _ _ => ?_
  by_cases h0 : 0 ≤ amount
  · by_cases h1 : amount ≤ t.balance source
    · rw [dif_pos h0, dif_pos h0, dif_pos h1, dif_pos (hfund.mp h1)]
      refine .ok fun a => ?_
      have ha := h a
      simp only [Token.move, Token.moved]
      omega
    · rw [dif_pos h0, dif_pos h0, dif_neg h1, dif_neg (mt hfund.mpr h1)]
      exact .error _
  · rw [dif_neg h0, dif_neg h0]
    exact .error _

/-- A payout that both sides can fund. -/
theorem Vault.sendIfPositive_shifted {e : Env} {t₀ t u₀ u : Token} {target : Address} {amount : Int}
    (h : Token.Shifted t₀ t u₀ u) (ht : amount ≤ t.balance e.contract)
    (hu : amount ≤ u.balance e.contract) :
    Agree (fun t' u' => Token.Shifted t₀ t' u₀ u') (Vault.sendIfPositive e t target amount)
      (Vault.sendIfPositive e u target amount) :=
  .ite (fun _ => Token.transfer_shifted h (iff_of_true ht hu)) (fun _ => .pure h)

/-! ## The composed state -/

/-- The two states agree on what the operations on `b`'s loan read. -/
structure World.SameAt (b : Address) (w x : World) : Prop where
  loanManager : w.loanManager.SameAt b x.loanManager
  config : x.vault.config = w.vault.config
  writtenOff : x.vault.writtenOff.get? b = w.vault.writtenOff.get? b

/-- Nothing but the outstanding borrows and the write-off of `b` differs. -/
structure Vault.State.Frame (b : Address) (s t : Vault.State) : Prop where
  config : t.config = s.config
  totalShares : t.totalShares = s.totalShares
  shares : t.shares = s.shares
  writtenOff : ∀ a, a ≠ b → t.writtenOff.get? a = s.writtenOff.get? a

/-- Outside the token and the outstanding borrows, nothing but the entries of `b` differs. -/
structure World.Frame (b : Address) (w x : World) : Prop where
  loanManager : w.loanManager.Frame b x.loanManager
  vault : w.vault.Frame b x.vault

theorem Vault.State.Frame.refl (b : Address) (s : Vault.State) : s.Frame b s :=
  ⟨rfl, rfl, rfl, fun _ _ => rfl⟩

theorem Vault.State.Frame.symm {b : Address} {s t : Vault.State} (h : s.Frame b t) : t.Frame b s :=
  ⟨h.config.symm, h.totalShares.symm, h.shares.symm, fun a ha => (h.writtenOff a ha).symm⟩

theorem Vault.State.Frame.trans {b : Address} {s t u : Vault.State} (h : s.Frame b t)
    (h' : t.Frame b u) : s.Frame b u :=
  ⟨h'.config.trans h.config, h'.totalShares.trans h.totalShares, h'.shares.trans h.shares,
    fun a ha => (h'.writtenOff a ha).trans (h.writtenOff a ha)⟩

theorem Vault.State.Frame.totalBorrows {b : Address} {s t : Vault.State} (h : s.Frame b t)
    (borrows : Int) : s.Frame b { t with totalBorrows := borrows } :=
  ⟨h.config, h.totalShares, h.shares, h.writtenOff⟩

theorem Vault.State.setWrittenOff_get? (s : Vault.State) (b a : Address) (amount : Int) :
    (s.setWrittenOff b amount).writtenOff.get? a =
      if a = b then (if amount = 0 then none else some amount) else s.writtenOff.get? a := by
  unfold Vault.State.setWrittenOff
  split
  · rw [Store.get?_remove]
  · rw [Store.get?_set]

theorem Vault.State.Frame.setWrittenOff {b : Address} {s t : Vault.State} (h : s.Frame b t)
    (amount : Int) : s.Frame b (t.setWrittenOff b amount) := by
  refine ⟨?_, ?_, ?_, fun a ha => ?_⟩
  · rw [← h.config]
    exact System.setWrittenOff_config t b amount
  · rw [← h.totalShares, Vault.State.setWrittenOff]
    split <;> rfl
  · rw [← h.shares, Vault.State.setWrittenOff]
    split <;> rfl
  · rw [Vault.State.setWrittenOff_get?, if_neg ha, h.writtenOff a ha]

theorem World.SameAt.readWrittenOff {b : Address} {w x : World} (h : w.SameAt b x) :
    x.vault.readWrittenOff b = w.vault.readWrittenOff b := by
  rw [Vault.State.readWrittenOff, Vault.State.readWrittenOff, Store.getD, Store.getD, h.writtenOff]

theorem World.Frame.sameAt {a b : Address} {w x : World} (h : w.Frame b x) (ha : a ≠ b) :
    w.SameAt a x :=
  ⟨h.loanManager.sameAt ha, h.vault.config, h.vault.writtenOff a ha⟩

/-- The same change from `w` to `w'` and from `x` to `x'`: at `b`'s entries, and by the
same amounts in the token and the outstanding borrows. -/
structure LocalChange (b : Address) (w x w' x' : World) : Prop where
  same : w'.SameAt b x'
  frame : w.Frame b w'
  frame' : x.Frame b x'
  usdc : Token.Shifted w.usdc w'.usdc x.usdc x'.usdc
  borrows : w'.vault.totalBorrows - w.vault.totalBorrows =
    x'.vault.totalBorrows - x.vault.totalBorrows

/-- The same change, with the same events and return value. -/
structure LocalOutcome {α : Type} (b : Address) (w x : World) (o p : Outcome World α) : Prop
    extends LocalChange b w x o.state p.state where
  value : o.value = p.value
  events : o.events = p.events

theorem LocalChange.refl {b : Address} {w x : World} (h : w.SameAt b x) : LocalChange b w x w x :=
  ⟨h, ⟨.refl b _, .refl b _⟩, ⟨.refl b _, .refl b _⟩, fun _ => by omega, by omega⟩

namespace System

section Local

variable {v b : Address} {now now' : Nat} {e : Env} {w x : World}

theorem counted_fits (hsound : w.Sound v now) (b : Address) {amount : Int} (hnn : 0 ≤ amount)
    (hle : amount ≤ (w.loanManager.readLoan b).principal - w.vault.readWrittenOff b) :
    I128.Fits (w.vault.totalBorrows - amount) := by
  have hlent := hsound.books.outstanding_le_lent b
  simp only [World.pool] at hlent
  exact I128.Fits.of_le (by omega) (by omega) hsound.borrows_fit

/-- Lowering the borrows of both states, each by what is counted there. -/
theorem lower_local {amount amount' : Int} (hw : I128.Fits (w.vault.totalBorrows - amount))
    (hx : I128.Fits (x.vault.totalBorrows - amount')) :
    Agree (fun n m => n = w.vault.totalBorrows - amount ∧ m = x.vault.totalBorrows - amount')
      (orTrap (I128.sub w.vault.totalBorrows amount))
      (orTrap (I128.sub x.vault.totalBorrows amount')) := by
  rw [I128.sub_eq_some.mpr ⟨rfl, hw⟩, I128.sub_eq_some.mpr ⟨rfl, hx⟩]
  exact .ok ⟨rfl, rfl⟩

theorem local_written {α : Type} (h : w.SameAt b x) {s s' : LoanManager.State}
    (hsame : s.SameAt b s') (hframe : w.loanManager.Frame b s) (hframe' : x.loanManager.Frame b s')
    {t u : Token} (htu : Token.Shifted w.usdc t x.usdc u) (amount written : Int)
    (events : List Event) (value : α) :
    LocalOutcome b w x
      ⟨⟨t, Vault.State.setWrittenOff
        { w.vault with totalBorrows := w.vault.totalBorrows - amount } b written, s⟩, events, value⟩
      ⟨⟨u, Vault.State.setWrittenOff
        { x.vault with totalBorrows := x.vault.totalBorrows - amount } b written, s'⟩,
          events, value⟩ := by
  refine ⟨⟨⟨hsame, ?_, ?_⟩,
    ⟨hframe, ((Vault.State.Frame.refl b w.vault).totalBorrows _).setWrittenOff _⟩,
    ⟨hframe', ((Vault.State.Frame.refl b x.vault).totalBorrows _).setWrittenOff _⟩, htu, ?_⟩, rfl,
    rfl⟩
  · simp only [setWrittenOff_config]
    exact h.config
  · simp only [Vault.State.setWrittenOff_get?, if_pos]
  · simp only [setWrittenOff_totalBorrows]
    omega

theorem local_lowered {α : Type} (h : w.SameAt b x) {s s' : LoanManager.State}
    (hsame : s.SameAt b s') (hframe : w.loanManager.Frame b s) (hframe' : x.loanManager.Frame b s')
    {t u : Token} (htu : Token.Shifted w.usdc t x.usdc u) (amount : Int)
    (events : List Event) (value : α) :
    LocalOutcome b w x
      ⟨⟨t, { w.vault with totalBorrows := w.vault.totalBorrows - amount }, s⟩, events, value⟩
      ⟨⟨u, { x.vault with totalBorrows := x.vault.totalBorrows - amount }, s'⟩, events, value⟩ :=
  ⟨⟨⟨hsame, h.config, h.writtenOff⟩, ⟨hframe, (Vault.State.Frame.refl b w.vault).totalBorrows _⟩,
    ⟨hframe', (Vault.State.Frame.refl b x.vault).totalBorrows _⟩, htu,
    by simp only; omega⟩, rfl, rfl⟩

theorem manualWriteOff_local (hw : w.Sound v now) (hx : x.Sound v now') (h : w.SameAt b x)
    (amount : Int) :
    Agree (LocalOutcome b w x) (Vault.manualWriteOff e w b amount)
      (Vault.manualWriteOff e x b amount) := by
  have howner : x.vault.config.owner = w.vault.config.owner := by rw [h.config]
  simp only [Vault.manualWriteOff, LoanManager.isDefaulted, howner, h.loanManager.readLoan,
    h.readWrittenOff]
  refine .same _ fun _ _ => .same _ fun _ _ => .same _ fun owed howed => ?_
  have howed := Vault.principalInBorrows_eq_ok howed
  simp only [← min_def_lt]
  refine .ite (fun _ => ?_) (fun hpos => ?_)
  · exact .pure ⟨.refl h, rfl, rfl⟩
  · have hle : min amount owed ≤
        (w.loanManager.readLoan b).principal - w.vault.readWrittenOff b := by omega
    have hle' : min amount owed ≤
        (x.loanManager.readLoan b).principal - x.vault.readWrittenOff b := by
      rw [h.loanManager.readLoan, h.readWrittenOff]
      exact hle
    refine .bind
      (lower_local (counted_fits hw b (by omega) hle) (counted_fits hx b (by omega) hle'))
      fun n m _ _ hnm => .same _ fun total _ => .pure ?_
    rcases hnm with ⟨rfl, rfl⟩
    exact local_written h h.loanManager (.refl b _) (.refl b _) (fun _ => by omega) _ total _ _

theorem applyPayment_bounds {s : LoanManager.State} {paid : Int}
    {o : Outcome LoanManager.State (Int × Int × Int)}
    (hlive : (s.readLoan b).active = true → (s.readLoan b).Live)
    (h : LoanManager.applyPayment e s b paid = .ok o) :
    0 ≤ o.value.2.1 ∧ o.value.2.1 ≤ paid ∧ o.value.1 ≤ (s.readLoan b).principal := by
  rcases LoanManager.applyPayment_spec h with ⟨_, hpos, hactive, acc, hacc, hbranch⟩
  rcases (hlive hactive).accrued_bounds hacc with ⟨hprin, hle⟩
  have hprin_pos := (hlive hactive).principal_pos
  rcases hbranch with ⟨hcovers, _, rfl⟩ | ⟨hshort, _, interest, hsplit, rfl⟩
  · simp only
    omega
  · simp only
    omega

theorem inBorrows_fits (hw : w.Sound v now) {paid inBorrows : Int}
    (hle : paid ≤ (w.loanManager.readLoan b).principal)
    (hin : Vault.principalInBorrows paid (w.vault.readWrittenOff b) = .ok inBorrows) :
    I128.Fits (w.vault.totalBorrows - inBorrows) := by
  have hin := Vault.principalInBorrows_eq_ok hin
  have hwritten := hw.books.writtenOff_le b
  simp only [World.pool] at hwritten
  exact counted_fits hw b (by omega) (by omega)

theorem inBorrows_local (hw : w.Sound v now) (hx : x.Sound v now') (h : w.SameAt b x)
    {paid inBorrows : Int} (hle : paid ≤ (w.loanManager.readLoan b).principal)
    (hin : Vault.principalInBorrows paid (w.vault.readWrittenOff b) = .ok inBorrows) :
    I128.Fits (w.vault.totalBorrows - inBorrows) ∧
      I128.Fits (x.vault.totalBorrows - inBorrows) := by
  refine ⟨inBorrows_fits hw hle hin, ?_⟩
  rw [← h.loanManager.readLoan] at hle
  rw [← h.readWrittenOff] at hin
  exact inBorrows_fits hx hle hin

/-- The conditions under which payments on `b`'s loan are compared. -/
structure Comparable (v b : Address) (e : Env) (w x : World) : Prop where
  contract : e.contract = v
  outsider : e.auth v = false
  same : w.SameAt b x
  sound : ∃ now, w.Sound v now
  sound' : ∃ now, x.Sound v now

theorem le_balance_of_pull {t t' : Token} {payer : Address} {amount : Int}
    (hpayer : payer ≠ e.contract)
    (h : t.transfer e.subcall payer e.contract amount = .ok t') :
    amount ≤ t'.balance e.contract := by
  rcases Token.transfer_eq_ok.mp h with ⟨_, _, _, hmoved⟩
  have hnn := t.balance_nonneg e.contract
  rw [hmoved, Token.moved_target _ _ _ _ hpayer]
  omega

theorem balance_of_refund {t t' : Token} {payer : Address} {refund : Int}
    (hpayer : payer ≠ e.contract) (hnn : 0 ≤ refund)
    (h : Vault.sendIfPositive e t payer refund = .ok t') :
    t'.balance e.contract = t.balance e.contract - refund := by
  rw [Vault.sendIfPositive_spec hnn h, Token.moved_source _ _ _ _ hpayer.symm]

theorem previewOwed_pos {s : LoanManager.State} {owed : Int} (hlive : (s.readLoan b).Live)
    (h : LoanManager.previewOwed e s b = .ok owed) : 0 < owed := by
  simp only [LoanManager.previewOwed, bind_eq_ok, pure_eq_ok] at h
  rcases h with ⟨acc, hacc, rfl⟩
  rcases hlive.accrued_bounds hacc with ⟨hprin, hle⟩
  have hpos := hlive.principal_pos
  omega

theorem repay_local (h : Comparable v b e w x) {payer : Address}
    (hfund : ∀ owed, LoanManager.previewOwed e.subcall w.loanManager b = .ok owed →
      (owed ≤ w.usdc.balance payer ↔ owed ≤ x.usdc.balance payer)) :
    Agree (LocalOutcome b w x) (Vault.repay e w payer b) (Vault.repay e x payer b) := by
  rcases h with ⟨rfl, houtsider, h, ⟨now, hw⟩, ⟨now', hx⟩⟩
  have hrecipient : x.vault.config.feeRecipient = w.vault.config.feeRecipient := by rw [h.config]
  simp only [Vault.repay, h.loanManager.readLoan, LoanManager.previewOwed_local h.loanManager,
    h.readWrittenOff, hrecipient]
  refine .same _ fun _ hauth => .same _ fun _ hactive => .same _ fun pay hpay => ?_
  refine .same _ fun _ hpos => ?_
  have hpayer := ne_vault_of_auth houtsider (Env.requireAuth_eq_ok.mp hauth)
  refine .bind (Token.transfer_shifted (.refl w.usdc x.usdc)
    (hfund pay hpay)) fun t u ht hu htu => ?_
  refine .bind (LoanManager.applyPayment_local h.loanManager pay) fun paid paid' hpaid _ hlocal =>
    ?_
  rcases hlocal with ⟨hvalue, hevents, hsame, hframe, hframe'⟩
  have hbounds := applyPayment_bounds (hw.loanManager.loans b).live hpaid
  obtain ⟨s', events, value⟩ := paid
  obtain ⟨s'', events', value'⟩ := paid'
  simp only at hvalue hevents hbounds hsame hframe hframe'
  subst hvalue hevents
  refine .same _ fun fee hfee => ?_
  have hfee_le := (Vault.protocolFee_spec hbounds.1 hfee).2.2
  refine .bind (Vault.sendIfPositive_shifted htu ?_ ?_) fun t' u' _ _ htu' => ?_
  · exact (hfee_le.trans hbounds.2.1).trans (le_balance_of_pull hpayer ht)
  · exact (hfee_le.trans hbounds.2.1).trans (le_balance_of_pull hpayer hu)
  refine .same _ fun inBorrows hin => ?_
  rcases inBorrows_local hw hx h le_rfl hin with ⟨hfit, hfit'⟩
  refine .bind (lower_local hfit hfit') fun n m _ _ hnm => .pure ?_
  rcases hnm with ⟨rfl, rfl⟩
  exact local_written h hsame hframe hframe' htu' inBorrows 0 _ _

theorem subIfPositive_ok {total amount : Int} (hnn : 0 ≤ amount)
    (hfits : I128.Fits (total - amount)) :
    Vault.subIfPositive total amount = .ok (total - amount) := by
  unfold Vault.subIfPositive
  split
  · rw [I128.sub_eq_some.mpr ⟨rfl, hfits⟩]
    rfl
  · have hzero : amount = 0 := by omega
    rw [hzero, sub_zero]
    rfl

theorem repayPartial_local (h : Comparable v b e w x) {payer : Address} {amount : Int}
    (hfund : amount ≤ w.usdc.balance payer ↔ amount ≤ x.usdc.balance payer) :
    Agree (LocalOutcome b w x) (Vault.repayPartial e w payer b amount)
      (Vault.repayPartial e x payer b amount) := by
  rcases h with ⟨rfl, houtsider, h, ⟨now, hw⟩, ⟨now', hx⟩⟩
  have hrecipient : x.vault.config.feeRecipient = w.vault.config.feeRecipient := by rw [h.config]
  simp only [Vault.repayPartial, h.loanManager.readLoan,
    LoanManager.previewOwed_local h.loanManager, h.readWrittenOff, hrecipient, ← min_def_lt]
  refine .same _ fun _ hauth => .same _ fun _ hpos => .same _ fun _ hactive => ?_
  have hpayer := ne_vault_of_auth houtsider (Env.requireAuth_eq_ok.mp hauth)
  refine .bind (Token.transfer_shifted (.refl w.usdc x.usdc) hfund)
    fun t u ht hu htu => .same _ fun owed howed => .same _ fun refund hrefund => ?_
  have hpull := le_balance_of_pull hpayer ht
  have hpull' := le_balance_of_pull hpayer hu
  have hrefund : amount - min amount owed = refund :=
    (I128.sub_eq_some.mp (unwrapOr_eq_ok.mp hrefund)).1
  have hlive := (hw.loanManager.loans b).live (by simpa using panicIf_eq_ok.mp hactive)
  have howed_pos := previewOwed_pos hlive howed
  have hamount := panicIf_eq_ok.mp hpos
  refine .bind (Vault.sendIfPositive_shifted htu (by omega) (by omega)) fun t' u' ht' hu' htu' => ?_
  -- what the vault keeps of the pull is the payment
  have hkept := balance_of_refund hpayer (by omega) ht'
  have hkept' := balance_of_refund hpayer (by omega) hu'
  refine .bind (LoanManager.applyPayment_local h.loanManager _) fun paid paid' hpaid _ hlocal => ?_
  rcases hlocal with ⟨hvalue, hevents, hsame, hframe, hframe'⟩
  have hbounds := applyPayment_bounds (hw.loanManager.loans b).live hpaid
  obtain ⟨s', events, value⟩ := paid
  obtain ⟨s'', events', value'⟩ := paid'
  simp only at hvalue hevents hbounds hsame hframe hframe'
  subst hvalue hevents
  refine .same _ fun fee hfee => ?_
  have hfee_le := (Vault.protocolFee_spec hbounds.1 hfee).2.2
  refine .bind (Vault.sendIfPositive_shifted htu' (by omega) (by omega)) fun t'' u'' _ _ htu'' => ?_
  refine .same _ fun inBorrows hin => ?_
  rcases inBorrows_local hw hx h hbounds.2.2 hin with ⟨hfit, hfit'⟩
  have hin_nn : 0 ≤ inBorrows := by
    rw [Vault.principalInBorrows_eq_ok hin]
    exact le_max_left _ _
  rw [subIfPositive_ok hin_nn hfit, subIfPositive_ok hin_nn hfit', ok_bind, ok_bind]
  refine .pure ?_
  by_cases hclosed : value.2.2 = 0
  · simp only [hclosed, if_true]
    exact local_written h hsame hframe hframe' htu'' inBorrows 0 _ _
  · simp only [hclosed, if_false]
    exact local_lowered h hsame hframe hframe' htu'' inBorrows _ _

end Local

/-! ## Every operation on one loan -/

/-- The operations on the loan of `b`. -/
inductive LoanOp (b : Address) : Op → Prop
  | repay (payer : Address) : LoanOp b (.vault (.repay payer b))
  | repayPartial (payer : Address) (amount : Int) : LoanOp b (.vault (.repayPartial payer b amount))
  | accrueLate : LoanOp b (.loanManager (.accrueLate b))
  | markDefault : LoanOp b (.loanManager (.markDefault b))
  | manualWriteOff (amount : Int) : LoanOp b (.vault (.manualWriteOff b amount))

/-- The account a payment is pulled from. -/
def Op.payer? : Op → Option Address
  | .vault (.repay payer _) => some payer
  | .vault (.repayPartial payer _ _) => some payer
  | _ => none

/-- The amount a payment pulls: the previewed balance, or the amount signed for. -/
def Pulls (e : Env) (w : World) : Op → Int → Prop
  | .vault (.repay _ b), amount => LoanManager.previewOwed e.subcall w.loanManager b = .ok amount
  | .vault (.repayPartial _ _ signed), amount => amount = signed
  | _, _ => False

theorem exec_local {v b : Address} {e : Env} {w x : World} {op : Op} (h : Comparable v b e w x)
    (hop : LoanOp b op)
    (hfund : ∀ payer amount, op.payer? = some payer → Pulls e w op amount →
      (amount ≤ w.usdc.balance payer ↔ amount ≤ x.usdc.balance payer)) :
    Agree (LocalOutcome b w x) (exec e w op) (exec e x op) := by
  have hlift : ∀ {α β γ : Type} {f : α → β} {g : β → γ} {y z : Except Fault (Outcome World α)},
      Agree (LocalOutcome b w x) y z →
      Agree (LocalOutcome b w x) ((y.map (·.as f)).map (·.as g))
      ((z.map (·.as f)).map (·.as g)) := by
    intro α β γ f g y z hyz
    refine (hyz.map (S := LocalOutcome b w x) fun o p hop => ?_).map fun o p hop => ?_
    · exact ⟨hop.toLocalChange, congrArg f hop.value, hop.events⟩
    · exact ⟨hop.toLocalChange, congrArg g hop.value, hop.events⟩
  have hlm : ∀ {y z : Except Fault (Outcome LoanManager.State Unit)},
      Agree (LoanManager.LocalOutcome b w.loanManager x.loanManager) y z →
      Agree (LocalOutcome b w x)
        ((y.map (·.as fun _ => LoanManager.Ret.unit)).map fun o =>
          (⟨{ w with loanManager := o.state }, o.events, .loanManager o.value⟩ : Outcome World Ret))
        ((z.map (·.as fun _ => LoanManager.Ret.unit)).map fun o =>
          ⟨{ x with loanManager := o.state }, o.events, .loanManager o.value⟩) := by
    intro y z hyz
    cases hyz with
    | ok hop =>
        exact .ok ⟨⟨⟨hop.same, h.same.config, h.same.writtenOff⟩, ⟨hop.frame, .refl b _⟩,
          ⟨hop.frame', .refl b _⟩, fun _ => by simp, by simp⟩, rfl, hop.events⟩
    | error error => exact .error error
  rcases h.sound with ⟨now, hw⟩
  rcases h.sound' with ⟨now', hx⟩
  cases hop with
  | repay payer => exact hlift (repay_local h fun owed howed => hfund payer owed rfl howed)
  | repayPartial payer amount => exact hlift (repayPartial_local h (hfund payer amount rfl rfl))
  | accrueLate => exact hlm (LoanManager.accrueLate_local h.same.loanManager)
  | markDefault => exact hlm (LoanManager.markDefault_local h.same.loanManager)
  | manualWriteOff amount => exact hlift (manualWriteOff_local hw hx h.same amount)

theorem exec_frame {v b : Address} {now : Nat} {e : Env} {w : World} {op : Op}
    {o : Outcome World Ret} (hcontract : e.contract = v) (houtsider : e.auth v = false)
    (hw : w.Sound v now) (hop : LoanOp b op) (ho : exec e w op = .ok o) : w.Frame b o.state := by
  have hself : Comparable v b e w w :=
    ⟨hcontract, houtsider, ⟨.refl b _, rfl, rfl⟩, ⟨now, hw⟩, ⟨now, hw⟩⟩
  rcases (exec_local hself hop fun _ _ _ _ => Iff.rfl).exists_ok ho with ⟨_, _, hlocal⟩
  exact hlocal.frame

end System

end Lendoor
