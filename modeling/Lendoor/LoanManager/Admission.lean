import Lendoor.LoanManager.Record

/-! # Admission over whole runs

Which offer an opened loan consumed, and what separates two loans of one
borrower. Both are facts about the history of a run: the stored offer is the last
one written and not yet consumed, and the stored cooldown is the one the last
close wrote.
-/

namespace Lendoor.LoanManager

/-- A successful call with what it published and returned. -/
abbrev Label := Call × (List Event × Ret)

def Label.time (label : Label) : Nat := label.1.time

/-! ## Calls on one borrower -/

def Op.Offers (b : Address) (op : Op) : Prop :=
  ∃ tenorDays feeBps validUntil maxAmount,
    op = .setLoanOffer b tenorDays feeBps validUntil maxAmount

def Op.Opens (b : Address) (op : Op) : Prop :=
  ∃ principal tenorDays feeBps, op = .openLoan b principal tenorDays feeBps

/-- The call writes or consumes the offer of `b`. -/
def TouchesOffer (b : Address) (label : Label) : Prop := label.1.2.Offers b ∨ label.1.2.Opens b

/-- The call opens a loan of `b`. -/
def Opens (b : Address) (label : Label) : Prop := label.1.2.Opens b

/-! ## One call -/

theorem exec_offer {e : Env} {s : State} {op : Op} {o : Outcome State Ret}
    (h : exec e s op = .ok o) (b : Address) :
    (∃ tenorDays feeBps validUntil maxAmount,
        op = .setLoanOffer b tenorDays feeBps validUntil maxAmount ∧
        o.state.offer.get? b = some ⟨tenorDays, feeBps, validUntil, maxAmount⟩) ∨
      (op.Opens b ∧ o.state.offer.get? b = none) ∨
      (¬ op.Offers b ∧ ¬ op.Opens b ∧ o.state.offer.get? b = s.offer.get? b) := by
  cases op <;> simp only [exec, map_eq_ok] at h <;> obtain ⟨o, h, rfl⟩ := h
  case setLoanOffer a t f v m =>
    simp only [setLoanOffer, bind_eq_ok, panicIf_eq_ok, pure_eq_ok] at h
    obtain ⟨_, _, _, _, _, _, rfl⟩ := h
    by_cases hab : b = a
    · subst hab
      exact .inl ⟨t, f, v, m, rfl, by simp [Store.get?_set]⟩
    · refine .inr (.inr ⟨?_, by simp [Op.Opens], by simp [Store.get?_set, hab]⟩)
      rintro ⟨t', f', v', m', heq⟩
      cases heq
      exact hab rfl
  case openLoan a p t f =>
    rcases openLoan_spec h with ⟨_, _, _, _, _, _, l, _, hstate, _⟩
    rw [Outcome.as_state, hstate]
    by_cases hab : b = a
    · subst hab
      exact .inr (.inl ⟨⟨p, t, f, rfl⟩, by simp [State.writeLoan, Store.get?_remove]⟩)
    · refine .inr
        (.inr ⟨by simp [Op.Offers], ?_, by simp [State.writeLoan, Store.get?_remove, hab]⟩)
      rintro ⟨p', t', f', heq⟩
      cases heq
      exact hab rfl
  all_goals refine .inr (.inr ⟨by simp [Op.Offers], by simp [Op.Opens], ?_⟩)
  case setOwner =>
    simp only [setOwner, bind_eq_ok, pure_eq_ok] at h
    obtain ⟨_, _, rfl⟩ := h
    rfl
  case setVault =>
    simp only [setVault, bind_eq_ok, pure_eq_ok] at h
    obtain ⟨_, _, rfl⟩ := h
    rfl
  case setDefaultGracePeriod =>
    simp only [setDefaultGracePeriod, bind_eq_ok, pure_eq_ok] at h
    obtain ⟨_, _, rfl⟩ := h
    rfl
  case setMinHoldForTenor =>
    simp only [setMinHoldForTenor, bind_eq_ok, pure_eq_ok] at h
    obtain ⟨_, _, _, _, rfl⟩ := h
    rfl
  case setUserRisk =>
    simp only [setUserRisk, bind_eq_ok, pure_eq_ok] at h
    obtain ⟨_, _, _, _, rfl⟩ := h
    rfl
  case setPremiumConfig =>
    simp only [setPremiumConfig, bind_eq_ok, pure_eq_ok] at h
    obtain ⟨_, _, _, _, rfl⟩ := h
    rfl
  case closeLoan a paid =>
    rcases closeLoan_spec h with ⟨_, _, acc, _, _, hstate⟩
    rw [Outcome.as_state, hstate]
    rfl
  case markDefault a =>
    rcases markDefault_spec h with ⟨_, _, _, _, hstate⟩
    rw [Outcome.as_state, hstate]
    rfl
  case accrueLate a =>
    rw [Outcome.as_state]
    rcases accrueLate_spec h with ⟨_, hstate⟩ | ⟨_, acc, _, hstate⟩
    · rw [hstate]
    · rw [hstate]
      rfl
  case applyPayment a paid =>
    rcases applyPayment_spec h with ⟨_, _, _, acc, _, ⟨_, _, rfl⟩ | ⟨_, _, _, _, rfl⟩⟩ <;> rfl

/-- Nothing but an opening changes the record and the cooldown of an account without a loan. -/
theorem Effect.idle {e : Env} {s s' : State} {op : Op} {b : Address} (h : Effect e s op s')
    (hidle : (s.readLoan b).active = false) (hop : ¬ op.Opens b) :
    (s'.readLoan b).active = false ∧ s'.readNextBorrow b = s.readNextBorrow b := by
  -- an effect on an active record of `a` is not one on `b`
  have hne : ∀ {a : Address}, (s.readLoan a).active = true → b ≠ a := by
    intro a hactive heq
    rw [heq, hactive] at hidle
    cases hidle
  cases h with
  | frame hloan hnext =>
      rw [State.readLoan, State.readNextBorrow, hloan, hnext]
      exact ⟨hidle, rfl⟩
  | @opened a principal tenorDays feeBps l =>
      have hba : b ≠ a := by
        intro heq
        exact hop ⟨principal, tenorDays, feeBps, by rw [heq]⟩
      rw [State.readLoan_writeLoan, if_neg hba]
      exact ⟨hidle, rfl⟩
  | accrued hactive =>
      rw [State.readLoan_writeLoan, if_neg (hne hactive)]
      exact ⟨hidle, rfl⟩
  | closed _ _ hactive =>
      rw [closedState_readLoan, closedState_readNextBorrow, if_neg (hne hactive),
        if_neg (hne hactive)]
      exact ⟨hidle, rfl⟩
  | reduced _ _ hactive =>
      rw [State.readLoan_writeLoan, if_neg (hne hactive)]
      exact ⟨hidle, rfl⟩
  | defaulted _ hactive =>
      rw [defaultedState_readLoan, defaultedState_readNextBorrow, if_neg (hne hactive),
        if_neg (hne hactive)]
      exact ⟨hidle, rfl⟩

/-- A loan that a call ends leaves the cooldown of its holding period. -/
theorem Effect.ended {e : Env} {s s' : State} {op : Op} {now : Nat} {b : Address}
    (h : Effect e s op s') (hs : s.Sound now) (hbefore : (s.readLoan b).active = true)
    (hafter : (s'.readLoan b).active = false) :
    s'.readNextBorrow b =
      max e.timestamp ((s.readLoan b).start + s.minHoldSecs (s.readLoan b).tenorDays) := by
  have hsame : ∀ {a : Address} {l : Loan}, (if b = a then l else s.readLoan b).active = false →
      l.active = true → False := by
    intro a l hoff hl
    split at hoff
    · rw [hl] at hoff
      cases hoff
    · rw [hbefore] at hoff
      cases hoff
  have hadvance : ∀ {a : Address} {acc : Loan}, (s.readLoan a).active = true →
      accruedInMemory e (s.readLoan a) (s.readPremium a) = .ok acc →
      (acc.advance e.timestamp).active = true := by
    intro a acc hactive hacc
    rcases accruedInMemory_spec (hs.loans a).amountDue_nonneg hacc with ⟨x, _, rfl⟩
    rw [Loan.advance_eq]
    exact hactive
  cases h with
  | frame hloan =>
      rw [State.readLoan, hloan, ← State.readLoan, hbefore] at hafter
      cases hafter
  | opened _ hpos _ _ hget ht hf hrec =>
      have hoffer := hs.configured.offers _ _ hget
      rcases openedLoan_live hpos (by omega) (by omega) hrec with ⟨_, hactive, _⟩
      rw [State.readLoan_writeLoan] at hafter
      exact (hsame hafter hactive).elim
  | accrued hactive hacc =>
      rw [State.readLoan_writeLoan] at hafter
      exact (hsame hafter (hadvance hactive hacc)).elim
  | @closed _ a acc paid _ _ hactive hacc =>
      rcases accruedInMemory_spec (hs.loans a).amountDue_nonneg hacc with ⟨x, _, rfl⟩
      rw [closedState_readLoan] at hafter
      split at hafter
      · rename_i hba
        rw [closedState_readNextBorrow, if_pos hba, hba]
        rfl
      · rw [hbefore] at hafter
        cases hafter
  | reduced _ _ hactive hacc =>
      rw [State.readLoan_writeLoan] at hafter
      exact (hsame hafter (hadvance hactive hacc)).elim
  | defaulted _ hactive =>
      rw [defaultedState_readLoan] at hafter
      exact (hsame hafter hactive).elim

/-- `l` is the record of the loan that `opening` opened for `b`. -/
def LoanOf (b : Address) (opening : Label) (l : Loan) : Prop :=
  ∃ principal tenorDays feeBps, opening.1.2 = .openLoan b principal tenorDays feeBps ∧
    l.start = opening.time ∧ l.tenorDays = tenorDays

theorem LoanOf.continues {b : Address} {opening : Label} {l l' : Loan} (h : LoanOf b opening l)
    (hcont : l.Continues l') : LoanOf b opening l' := by
  rcases h with ⟨principal, tenorDays, feeBps, hop, hstart, htenor⟩
  exact ⟨principal, tenorDays, feeBps, hop, hcont.start.trans hstart, hcont.tenorDays.trans htenor⟩

theorem Step.opening {s t : Clocked State} {e : Env} {b : Address} {principal : Int}
    {tenorDays feeBps : Word32} {r : List Event × Ret}
    (h : Step s ((e, .openLoan b principal tenorDays feeBps), r) t) (hs : s.state.Sound s.now) :
    (s.state.readLoan b).active = false ∧ s.state.readNextBorrow b ≤ e.timestamp ∧
      principal ≤ creditLimit e s.state b ∧
      (∃ offer, s.state.offer.get? b = some offer ∧ e.timestamp ≤ offer.validUntil ∧
        offer.tenorDays = tenorDays ∧ offer.feeBps = feeBps ∧ principal ≤ offer.maxAmount) ∧
      (t.state.readLoan b).active = true ∧ t.state.offer.get? b = none ∧
      LoanOf b ((e, .openLoan b principal tenorDays feeBps), r) (t.state.readLoan b) := by
  rcases h.exec_ok with ⟨o, ho, hstate⟩
  rw [← hstate]
  simp only [exec, map_eq_ok] at ho
  rcases ho with ⟨o, ho, rfl⟩
  rcases openLoan_spec ho with
    ⟨_, hpos, hcool, hidle, hlimit, ⟨offer, hget, hvalid, ht, hf, hmax⟩, l, hl, hst, _⟩
  have hoffer := hs.configured.offers _ _ hget
  have hrecord := (openedLoan_spec hpos (by omega) hl).2
  rw [Outcome.as_state, hst]
  refine ⟨hidle, hcool, hlimit, ⟨offer, hget, hvalid, ht, hf, hmax⟩, ?_, ?_, ?_⟩
  · rw [State.readLoan_writeLoan_self, hrecord]
  · simp [State.writeLoan, Store.get?_remove]
  · rw [State.readLoan_writeLoan_self, hrecord]
    exact ⟨principal, tenorDays, feeBps, rfl, rfl, rfl⟩

/-! ## Histories -/

section History

variable {start c : Clocked State} {labels : List Label} {b : Address}

/-- The stored offer is the last one the history set for `b`, not consumed since. -/
theorem run_offer (hstart : start.state.offer.get? b = none) (run : Run Step start labels c)
    {offer : LoanOffer} (h : c.state.offer.get? b = some offer) :
    ∃ (i : Nat) (e : Env) (tenorDays feeBps : Word32) (validUntil : Word64) (maxAmount : Int)
      (r : List Event × Ret), offer = ⟨tenorDays, feeBps, validUntil, maxAmount⟩ ∧
      LastAt (TouchesOffer b) labels i
        ((e, .setLoanOffer b tenorDays feeBps validUntil maxAmount), r) := by
  induction run with
  | nil =>
      rw [hstart] at h
      cases h
  | @snoc t u labels label before hstep ih =>
      rcases hstep.exec_ok with ⟨o, ho, hstate⟩
      rw [← hstate] at h
      rcases exec_offer ho b with ⟨t', f, v, m, hop, hset⟩ | ⟨_, hgone⟩ | ⟨hoffers, hopens, hsame⟩
      · rw [hset] at h
        cases h
        obtain ⟨⟨e, op⟩, r⟩ := label
        simp only at hop
        subst hop
        exact ⟨labels.length, e, t', f, v, m, r, rfl, LastAt.concat _ _ _⟩
      · rw [hgone] at h
        cases h
      · rw [hsame] at h
        rcases ih h with ⟨i, e, t', f, v, m, r, heq, hlast⟩
        exact ⟨i, e, t', f, v, m, r, heq, hlast.snoc (not_or.mpr ⟨hoffers, hopens⟩)⟩

/-- Call `k` of the history ends the loan that `opening` opened for `b`. -/
structure Ends (start : Clocked State) (labels : List Label) (b : Address)
    (opening : Label) (k : Nat)
    (u : Clocked State) (closing : Label) (u' : Clocked State) : Prop
    extends StepAt Step start labels k u closing u' where
  loan : LoanOf b opening (u.state.readLoan b)
  active_before : (u.state.readLoan b).active = true
  idle_after : (u'.state.readLoan b).active = false

/-- How the history accounts for a loan of `b` opened at position `j`: it is the one still
open, or a later call ended it, and until the next opening the cooldown which that
call wrote stands. -/
def Accounted (start : Clocked State) (labels : List Label) (b : Address)
    (c : Clocked State) (j : Nat)
    (opening : Label) : Prop :=
  ((c.state.readLoan b).active = true ∧ LastAt (Opens b) labels j opening ∧
      LoanOf b opening (c.state.readLoan b)) ∨
    ∃ k u closing u', j < k ∧ Ends start labels b opening k u closing u' ∧
      (LastAt (Opens b) labels j opening → (c.state.readLoan b).active = false ∧
        max closing.time (opening.time + u.state.minHoldSecs (u.state.readLoan b).tenorDays) ≤
          c.state.readNextBorrow b)

theorem Accounted.snoc {t : Clocked State} {label opening : Label} {j : Nat}
    (before : Run Step start labels c) (hs : c.state.Sound c.now) (hstep : Step c label t)
    (hfound : labels[j]? = some opening) (h : Accounted start labels b c j opening) :
    Accounted start (labels ++ [label]) b t j opening := by
  rcases hstep.exec_ok with ⟨o, ho, hstate⟩
  have heffect := exec_effect ho
  rw [hstate] at heffect
  have hlt : j < labels.length := (List.getElem?_eq_some_iff.mp hfound).choose
  rcases h with ⟨hactive, hlast, hloan⟩ | ⟨k, u, closing, u', hjk, hends, hstands⟩
  · have hnot : ¬ Opens b label := by
      rintro ⟨principal, tenorDays, feeBps, hop⟩
      obtain ⟨⟨e, op⟩, r⟩ := label
      simp only at hop
      subst hop
      rw [(Step.opening hstep hs).1] at hactive
      cases hactive
    cases hafter : (t.state.readLoan b).active with
    | true =>
        have hcont := heffect.continues hs hactive hafter
        exact .inl ⟨hafter, hlast.snoc hnot, hloan.continues hcont⟩
    | false =>
        have hcool := heffect.ended hs hactive hafter
        have hstart : (c.state.readLoan b).start = opening.time := by
          rcases hloan with ⟨_, _, _, _, hstart, _⟩
          exact hstart
        refine .inr ⟨labels.length, c, label, t, hlt,
          ⟨StepAt.concat before hstep, hloan, hactive, hafter⟩, fun _ => ⟨hafter, ?_⟩⟩
        rw [hcool, hstart]
        exact le_refl _
  · refine .inr ⟨k, u, closing, u', hjk,
      ⟨hends.toStepAt.snoc, hends.loan, hends.active_before, hends.idle_after⟩, fun hlast => ?_⟩
    have hnot : ¬ Opens b label := hlast.since labels.length label hlt List.getElem?_concat_length
    have hlast' : LastAt (Opens b) labels j opening :=
      ⟨hfound, fun i later hi hlater => hlast.since i later hi (getElem?_snoc_of_some hlater)⟩
    rcases hstands hlast' with ⟨hidle, hle⟩
    rcases heffect.idle hidle hnot with ⟨hidle', hnext⟩
    rw [hnext]
    exact ⟨hidle', hle⟩

theorem run_accounted (hs : start.state.Sound start.now) (run : Run Step start labels c) {j : Nat}
    {opening : Label} (hfound : labels[j]? = some opening) (hopens : Opens b opening) :
    Accounted start labels b c j opening := by
  induction run with
  | nil => simp at hfound
  | @snoc t u labels label before hstep ih =>
      have hsound : t.state.Sound t.now := before.invariant (P := fun s => s.state.Sound s.now)
        (fun _ _ _ h hstep => Step.sound hstep h) hs
      rcases getElem?_snoc_cases hfound with ⟨_, hold⟩ | ⟨rfl, rfl⟩
      · exact (ih hold).snoc before hsound hstep hold
      · rcases hopens with ⟨principal, tenorDays, feeBps, hop⟩
        obtain ⟨⟨e, op⟩, r⟩ := opening
        simp only at hop
        subst hop
        rcases Step.opening hstep hsound with ⟨_, _, _, _, hactive, _, hloan⟩
        exact .inl ⟨hactive, LastAt.concat _ _ _, hloan⟩

end History

/-! ## The discipline -/

/-- Call `j` of the history consumes the offer that call `i` set: it opens a loan of `b`, and
between the two no offer of `b` is set or consumed. -/
structure Consumes (b : Address) (labels : List Label) (i j : Nat) : Prop where
  offered : ∃ offering, LastAt (TouchesOffer b) (labels.take j) i offering ∧
    offering.1.2.Offers b
  opened : ∃ opening, labels[j]? = some opening ∧ Opens b opening

theorem Consumes.offer_unique {b : Address} {labels : List Label} {i i' j : Nat}
    (h : Consumes b labels i j) (h' : Consumes b labels i' j) : i = i' := by
  rcases h.offered with ⟨offering, hlast, hoffers⟩
  rcases h'.offered with ⟨offering', hlast', hoffers'⟩
  exact hlast.unique (.inl hoffers) hlast' (.inl hoffers')

/-- An offer is not consumed again: the first opening already touched it. -/
theorem Consumes.not_lt {b : Address} {labels : List Label} {i j j' : Nat}
    (h : Consumes b labels i j) (h' : Consumes b labels i j') : ¬ j < j' := by
  intro hlt
  rcases h.offered with ⟨offering, hlast, _⟩
  rcases h'.offered with ⟨offering', hlast', _⟩
  rcases h.opened with ⟨opening, hfound, hopens⟩
  have hij := (getElem?_take_eq_some hlast.found).1
  have hat : (labels.take j')[j]? = some opening := by
    rw [List.getElem?_take, if_pos hlt]
    exact hfound
  exact hlast'.since j opening hij hat (.inr hopens)

/-- In every run of the contract, for every borrower: each opening finds no open loan,
stays within the credit limit of that moment and consumes exactly one offer set
before it, on that offer's terms; no offer is consumed twice; and between two
openings a call ends the first loan, which, when no other opening stands between
them, the second follows only after the end and the holding period then configured. -/
theorem admission_discipline {owner vault : Address} {now : Nat} {labels : List Label}
    {c : Clocked State} (run : Run Step ⟨now, construct owner vault⟩ labels c) (b : Address) :
    (∀ j e principal tenorDays feeBps r,
      labels[j]? = some ((e, .openLoan b principal tenorDays feeBps), r) →
      ∃ u u', StepAt Step ⟨now, construct owner vault⟩ labels j u
          ((e, .openLoan b principal tenorDays feeBps), r) u' ∧
        (u.state.readLoan b).active = false ∧ (u'.state.readLoan b).active = true ∧
        LoanOf b ((e, .openLoan b principal tenorDays feeBps), r) (u'.state.readLoan b) ∧
        ∃ (i : Nat) (e' : Env) (validUntil : Word64) (maxAmount : Int) (r' : List Event × Ret),
          labels[i]? = some ((e', .setLoanOffer b tenorDays feeBps validUntil maxAmount), r') ∧
          Consumes b labels i j ∧ (∀ i', Consumes b labels i' j → i' = i) ∧
          u.state.offer.get? b = some ⟨tenorDays, feeBps, validUntil, maxAmount⟩ ∧
          u'.state.offer.get? b = none ∧ e.timestamp ≤ validUntil ∧
          principal ≤ min maxAmount (creditLimit e u.state b)) ∧
      (∀ i j j', Consumes b labels i j → Consumes b labels i j' → j = j') ∧
      ∀ j j' opening opening', labels[j]? = some opening → labels[j']? = some opening' →
        Opens b opening → Opens b opening' → j < j' →
        ∃ k u closing u', j < k ∧ k < j' ∧
          Ends ⟨now, construct owner vault⟩ labels b opening k u closing u' ∧
          (LastAt (Opens b) (labels.take j') j opening →
            closing.time ≤ opening'.time ∧
            opening.time + u.state.minHoldSecs (u.state.readLoan b).tenorDays ≤ opening'.time) := by
  have hstart := construct_sound owner vault now
  have hsound : ∀ {k : Nat} {u : Clocked State},
      Run Step ⟨now, construct owner vault⟩ (labels.take k) u → u.state.Sound u.now := by
    intro k u hbefore
    exact Reachable.sound ⟨owner, vault, now, _, hbefore⟩
  refine ⟨?_, ?_, ?_⟩
  · intro j e principal tenorDays feeBps r hfound
    rcases run.stepAt hfound with ⟨u, u', hat⟩
    rcases Step.opening hat.taken (hsound hat.before) with
      ⟨hidle, _, hlimit, ⟨offer, hget, hvalid, htenor, hfee, hmax⟩, hactive, hgone, hloan⟩
    rcases run_offer rfl hat.before hget with ⟨i, e', t, f, v, m, r', rfl, hlast⟩
    have ht : t = tenorDays := Fin.ext htenor
    have hf : f = feeBps := Fin.ext hfee
    subst ht hf
    have hconsumes : Consumes b labels i j :=
      ⟨⟨_, hlast, t, f, v, m, rfl⟩, ⟨_, hfound, principal, t, f, rfl⟩⟩
    exact ⟨u, u', hat, hidle, hactive, hloan, i, e', v, m, r',
      (getElem?_take_eq_some hlast.found).2, hconsumes, fun i' h' =>
      h'.offer_unique hconsumes, hget, hgone, hvalid, le_min hmax hlimit⟩
  · intro i j j' h h'
    have hle := h.not_lt h'
    have hge := h'.not_lt h
    omega
  · intro j j' opening opening' hfound hfound' hopens hopens' hlt
    rcases run.stepAt hfound' with ⟨w, w', hat⟩
    rcases hopens' with ⟨principal, tenorDays, feeBps, hop⟩
    obtain ⟨⟨e, op⟩, r⟩ := opening'
    simp only at hop
    subst hop
    rcases Step.opening hat.taken (hsound hat.before) with ⟨hidle, hcool, _⟩
    have hearlier : (labels.take j')[j]? = some opening := by
      rw [List.getElem?_take, if_pos hlt]
      exact hfound
    rcases run_accounted hstart hat.before hearlier hopens with
      ⟨hactive, _⟩ | ⟨k, u, closing, u', hjk, hends, hstands⟩
    · rw [hidle] at hactive
      cases hactive
    · rcases hends.toStepAt.of_take with ⟨hkj', hstepAt⟩
      refine ⟨k, u, closing, u', hjk, hkj',
        ⟨hstepAt, hends.loan, hends.active_before, hends.idle_after⟩, fun hlast => ?_⟩
      have hle := (hstands hlast).2.trans hcool
      exact max_le_iff.mp hle

/-- A borrower's calls around two loans: the first is closed on its fifth day. -/
def twoLoanCalls : List Call :=
  [(.signedBy ⟨1⟩ 1000, .setUserRisk ⟨3⟩ 700 true 0 20000000),
    (.signedBy ⟨1⟩ 1000, .setLoanOffer ⟨3⟩ 7 500 (Fin.last _) 10000000),
    (.signedBy ⟨2⟩ 1000, .openLoan ⟨3⟩ 10000000 7 500),
    (.signedBy ⟨2⟩ 400000, .closeLoan ⟨3⟩ 20000000),
    (.signedBy ⟨1⟩ 400001, .setLoanOffer ⟨3⟩ 14 700 (Fin.last _) 20000000),
    (.signedBy ⟨2⟩ 400002, .openLoan ⟨3⟩ 20000000 14 700)]

/-- In that run a call between the two openings ends the first loan. -/
theorem admission_discipline_two_loans :
    ∃ labels c, Run Step ⟨1000, construct ⟨1⟩ ⟨2⟩⟩ labels c ∧ labels.map Prod.fst = twoLoanCalls ∧
      ∃ k opening u closing u', 2 < k ∧ k < 5 ∧
        Ends ⟨1000, construct ⟨1⟩ ⟨2⟩⟩ labels ⟨3⟩ opening k u closing u' := by
  have hrun : (Clocked.run? Call.time Call.exec ⟨1000, construct ⟨1⟩ ⟨2⟩⟩ twoLoanCalls).isSome := by
    decide
  rcases Option.isSome_iff_exists.mp hrun with ⟨c, hc⟩
  rcases Clocked.run?_run hc with ⟨labels, run, hcalls⟩
  have hat : ∀ j : Nat, (labels[j]?).map Prod.fst = twoLoanCalls[j]? := by
    intro j
    rw [← List.getElem?_map, hcalls]
  rcases Option.map_eq_some_iff.mp (hat 2) with ⟨opening, hfound, hop⟩
  rcases Option.map_eq_some_iff.mp (hat 5) with ⟨opening', hfound', hop'⟩
  have hopens : Opens ⟨3⟩ opening := ⟨_, _, _, congrArg Prod.snd hop⟩
  have hopens' : Opens ⟨3⟩ opening' := ⟨_, _, _, congrArg Prod.snd hop'⟩
  rcases (admission_discipline run ⟨3⟩).2.2 2 5 opening opening' hfound hfound' hopens hopens'
    (by decide) with ⟨k, u, closing, u', hlo, hhi, hends, _⟩
  exact ⟨labels, c, run, hcalls, k, opening, u, closing, u', hlo, hhi, hends⟩

end Lendoor.LoanManager
