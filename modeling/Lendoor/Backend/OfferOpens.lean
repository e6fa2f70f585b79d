import Lendoor.Backend.OfferPolicy

/-! # An offer can be taken

`borrow` reads the cooldown and the limit from the chain before it writes the offer, and the
contract checks both again when the loan is opened. As long as nobody writes the borrower's
profile or opens another loan of theirs, what was read still holds then, and the contract
takes the offer.
-/

namespace Lendoor.Backend

open Cctp (Text falsy)
open Async
  (Trace trace_bind trace_call_bind trace_caught_bind trace_lift_bind trace_pure trace_throw)
open AmountUnits (stellarTokenDecimals)

namespace Borrow

variable {sdk : BorrowSdk} {b : Address} {s s' t u : Market} {asked : List Asked}
  {borrower : Text} {offer : Offer}

/-! ## The world of one borrower -/

/-- The call is none of those on which the borrower's offer rests. -/
def Leaves (b : Address) (op : LoanManager.Op) : Prop :=
  ¬ op.Offers b ∧ ¬ op.Opens b ∧ ∀ score kycOk validUntil limit,
    op ≠ .setUserRisk b score kycOk validUntil limit

/-- Others go on, and leave the borrower alone. -/
inductive Other (b : Address) (s : Market) : Market → Prop
  | chain {op : LoanManager.Op} {s' : Market} : Leaves b op → s.Calls op s' → Other b s s'
  | tables {now : Nat} {users : List User} : s.now ≤ now →
      Other b s { s with now := now, users := users }

abbrev Others (b : Address) : Market → Market → Prop := Relation.ReflTransGen (Other b)

/-- An exchange, others going on before it. -/
def Amid (sdk : BorrowSdk) (b : Address) (s : Market) (x : Asked) (s' : Market) : Prop :=
  ∃ t, Others b s t ∧ Responds sdk t x s'

/-- The borrower has no loan, and the cooldown and the profile are what they were. -/
structure Kept (b : Address) (s s' : Market) : Prop where
  idle : (s'.chain.state.readLoan b).active = false
  nextBorrow : s'.chain.state.readNextBorrow b = s.chain.state.readNextBorrow b
  risk : s'.chain.state.risk.get? b = s.chain.state.risk.get? b
  clock : s.chain.now ≤ s'.chain.now

theorem Kept.refl (h : (s.chain.state.readLoan b).active = false) : Kept b s s :=
  ⟨h, rfl, rfl, le_rfl⟩

theorem Kept.trans (h : Kept b s t) (h' : Kept b t u) : Kept b s u :=
  ⟨h'.idle, h'.nextBorrow.trans h.nextBorrow, h'.risk.trans h.risk, h.clock.trans h'.clock⟩

theorem Kept.calls {op : LoanManager.Op} (hidle : (s.chain.state.readLoan b).active = false)
    (hcall : s.Calls op s')
    (hopens : ¬ op.Opens b)
    (hrisk : ∀ score kycOk validUntil limit, op ≠ .setUserRisk b score kycOk validUntil limit) :
    Kept b s s' := by
  rcases hcall with ⟨e, r, chain, hstep, rfl⟩
  rcases hstep.exec_ok with ⟨o, ho, hstate⟩
  have hclock : s.chain.now ≤ chain.now := hstep.now_eq ▸ hstep.clock
  have heffect := LoanManager.exec_effect ho
  rcases heffect.idle hidle hopens with ⟨hidle', hnext⟩
  have hsame : o.state.risk.get? b = s.chain.state.risk.get? b := by
    rcases LoanManager.exec_risk ho with hrisk' | ⟨a, hop, hzero⟩ |
      ⟨a, score, kycOk, validUntil, limit, risk, hop, hset⟩
    · rw [hrisk']
    · -- a loan that is marked is an open one, and the borrower's is not
      have hne : b ≠ a := by
        rintro rfl
        rw [hop] at ho
        simp only [LoanManager.exec, map_eq_ok] at ho
        rcases ho with ⟨o', ho, rfl⟩
        rw [(LoanManager.markDefault_spec ho).2.1] at hidle
        cases hidle
      rw [hzero, LoanManager.zeroLimit]
      split
      · rw [Store.get?_set, if_neg hne]
      · rfl
    · have hne : b ≠ a := by
        rintro rfl
        exact hrisk _ _ _ _ hop
      rw [hset, Store.get?_set, if_neg hne]
  rw [hstate] at hidle' hnext hsame
  exact ⟨hidle', hnext, hsame, hclock⟩

theorem Market.Calls.offer_eq {op : LoanManager.Op} (hcall : s.Calls op s')
    (hoffers : ¬ op.Offers b) (hopens : ¬ op.Opens b) :
    s'.chain.state.offer.get? b = s.chain.state.offer.get? b := by
  rcases hcall with ⟨e, r, chain, hstep, rfl⟩
  rcases hstep.exec_ok with ⟨o, ho, hstate⟩
  rcases LoanManager.exec_offer ho b with ⟨_, _, _, _, hop, -⟩ | ⟨hop, -⟩ | ⟨-, -, hsame⟩
  · exact absurd ⟨_, _, _, _, hop⟩ hoffers
  · exact absurd hop hopens
  · rw [hstate] at hsame
    exact hsame

theorem Kept.others (hidle : (s.chain.state.readLoan b).active = false) (h : Others b s s') :
    Kept b s s' ∧ s'.chain.state.offer.get? b = s.chain.state.offer.get? b := by
  induction h with
  | refl => exact ⟨.refl hidle, rfl⟩
  | tail _ hother ih =>
      cases hother with
      | chain hleaves hcall =>
          exact ⟨ih.1.trans (.calls ih.1.idle hcall hleaves.2.1 hleaves.2.2),
            (hcall.offer_eq hleaves.1 hleaves.2.1).trans ih.2⟩
      | tables => exact ⟨⟨ih.1.idle, ih.1.nextBorrow, ih.1.risk, ih.1.clock⟩, ih.2⟩

theorem Kept.responds {x : Asked} (hidle : (s.chain.state.readLoan b).active = false)
    (h : Responds sdk s x s') : Kept b s s' := by
  have hdoes : ∀ ask : Ask, s.Does sdk ask s' → Kept b s s' := by
    intro ask hdoes
    cases ask with
    | setLoanOffer borrower tenorDays feeBps validUntil maxAmount =>
        rcases hdoes with ⟨tenor, fee, until', -, -, -, hcall⟩
        exact .calls hidle hcall (by simp [LoanManager.Op.Opens]) (by simp)
    | setPremiumConfig borrower rate =>
        exact .calls hidle hdoes (by simp [LoanManager.Op.Opens]) (by simp)
    | _ =>
        cases hdoes
        exact .refl hidle
  rcases x with ⟨ask, error | answer⟩
  · rcases h with rfl | h
    · exact .refl hidle
    · exact hdoes ask h
  · exact hdoes ask h.2

theorem Kept.exchange {x : Asked} (hidle : (s.chain.state.readLoan b).active = false)
    (h : Amid sdk b s x s') : Kept b s s' := by
  rcases h with ⟨t, hothers, hx⟩
  have hbefore := (Kept.others hidle hothers).1
  exact hbefore.trans (.responds hbefore.idle hx)

theorem Kept.exchanges (hidle : (s.chain.state.readLoan b).active = false)
    (h : Run (Amid sdk b) s asked s') : Kept b s s' :=
  h.invariant (P := Kept b s) (fun _ _ _ hkept hx => hkept.trans (.exchange hkept.idle hx))
    (.refl hidle)

/-! ## The end of a request -/

/-- An offer is valid for three days from the server's clock. -/
theorem createLoanOfferBackend_trace {amountHuman : Text} {tenorDays feeBps : Int}
    (h : Trace (createLoanOfferBackend amountHuman borrower tenorDays feeBps) asked (.ok offer)) :
    ∃ now ledger, 0 < offer.tenorDays ∧ 0 < offer.feeBps ∧ offer.tenorDays = tenorDays ∧
      asked = [⟨.now, .ok now⟩,
        ⟨.setLoanOffer borrower tenorDays offer.feeBps (now / 1000 + 3 * 24 * 60 * 60)
          offer.maxAmountBase, .ok ledger⟩] := by
  unfold createLoanOfferBackend at h
  split at h
  · cases (trace_throw.mp h).2
  split at h
  · cases (trace_throw.mp h).2
  rename_i htenor
  split at h
  · cases (trace_throw.mp h).2
  rename_i hfee
  split at h
  · cases (trace_throw.mp h).2
  split at h
  · cases (trace_throw.mp h).2
  rcases trace_call_bind.mp h with ⟨error, -, hout⟩ | ⟨now, rest, rfl, hset⟩
  · cases hout
  rcases trace_call_bind.mp hset with ⟨error, -, hout⟩ | ⟨ledger, rest', rfl, hend⟩
  · cases hout
  rcases trace_pure.mp hend with ⟨rfl, hout⟩
  cases hout
  exact ⟨now, ledger, not_le.mp htenor, not_le.mp hfee, rfl, rfl⟩

/-- A request that goes through ends with the offer, and then the late rate. -/
structure EndsOffering (borrower : Text) (offer : Offer) (asked : List Asked) : Prop where
  tenor_pos : 0 < offer.tenorDays
  fee_pos : 0 < offer.feeBps
  ends : ∃ before now ledger r, ⟨.now, .ok now⟩ ∈ before ∧ asked = before ++
    [⟨.setLoanOffer borrower offer.tenorDays offer.feeBps (now / 1000 + 3 * 24 * 60 * 60)
      offer.maxAmountBase, .ok ledger⟩, ⟨.setPremiumConfig borrower lateRatePerSecWad, r⟩]

theorem EndsOffering.append (h : EndsOffering borrower offer asked) (past : List Asked) :
    EndsOffering borrower offer (past ++ asked) := by
  rcases h.ends with ⟨before, now, ledger, r, hnow, rfl⟩
  exact ⟨h.tenor_pos, h.fee_pos, past ++ before, now, ledger, r,
    List.mem_append_right _ hnow, by simp⟩

theorem offerTo_trace {dto : BorrowLoanDto} {user : User}
    (h : Trace (offerTo sdk dto borrower user) asked (.ok offer)) :
    EndsOffering borrower offer asked := by
  rcases trace_bind.mp h with ⟨error, -, hout⟩ | ⟨_, past, rest, rfl, -, hlimit⟩
  · cases hout
  rcases trace_bind.mp hlimit with ⟨error, -, hout⟩ | ⟨limit, past', rest', rfl, -, hrequested⟩
  · cases hout
  rcases trace_lift_bind.mp hrequested with ⟨error, -, -, hout⟩ | ⟨requested, -, hwithin⟩
  · cases hout
  split at hwithin
  · cases (trace_throw.mp hwithin).2
  rcases trace_bind.mp hwithin with ⟨error, -, hout⟩ | ⟨ctx, past'', rest'', rfl, -, hfee⟩
  · cases hout
  rcases trace_lift_bind.mp hfee with ⟨error, -, -, hout⟩ | ⟨feeBps, -, hcreate⟩
  · cases hout
  rcases trace_bind.mp hcreate with ⟨error, -, hout⟩ |
    ⟨created, creating, last, rfl, hcreating, hrest⟩
  · cases hout
  rcases Async.trace_settled.mp hcreating with ⟨created', hcreated, hcreate⟩
  cases hcreated
  refine ((EndsOffering.append ?_ past'').append past').append past
  cases created with
  | error error => cases (trace_throw.mp hrest).2
  | ok created =>
      dsimp only at hrest
      rcases trace_caught_bind.mp hrest with ⟨answer, last', rfl, hend⟩
      rcases trace_pure.mp hend with ⟨rfl, hout⟩
      cases hout
      rcases createLoanOfferBackend_trace hcreate with ⟨now, ledger, htenor, hbps, hdto, rfl⟩
      exact ⟨htenor, hbps, [⟨.now, .ok now⟩], now, ledger, answer,
        List.mem_cons_self, by rw [hdto]; rfl⟩

theorem borrow_trace {dto : BorrowLoanDto} (hborrower : normalizeWallet dto.receiver = .ok borrower)
    (h : Trace (borrow sdk dto) asked (.ok offer)) : EndsOffering borrower offer asked := by
  unfold borrow at h
  split at h
  · cases (trace_throw.mp h).2
  rcases trace_lift_bind.mp h with ⟨error, -, -, hout⟩ | ⟨borrower', hborrower', htenor⟩
  · cases hout
  cases hborrower.symm.trans hborrower'
  split at htenor
  · cases (trace_throw.mp htenor).2
  split at htenor
  · cases (trace_throw.mp htenor).2
  rcases trace_call_bind.mp htenor with ⟨error, -, hout⟩ | ⟨found, rest, rfl, hfound⟩
  · cases hout
  cases found with
  | none => cases (trace_throw.mp hfound).2
  | some user =>
      dsimp only at hfound
      split at hfound
      · cases (trace_throw.mp hfound).2
      rcases trace_lift_bind.mp hfound with ⟨error, -, -, hout⟩ | ⟨_, -, hoffer⟩
      · cases hout
      exact (offerTo_trace hoffer).append [_]

/-! ## Opening -/

theorem openedLoan_ok {now tenorDays feeBps : Nat} {principal : Int} (gracePeriod : Nat)
    (hpos : 0 < principal) (htenor : 0 < tenorDays)
    (hsmall : principal + principal * feeBps < 2 ^ 127)
    (hdue : U64.Fits (now + tenorDays * LoanManager.secondsPerDay)) :
    ∃ l, LoanManager.openedLoan now gracePeriod principal tenorDays feeBps = .ok l := by
  have hscaled : 0 ≤ principal * feeBps := by positivity
  have hfits : I128.Fits (principal * feeBps) := .of_bounds hscaled (by omega)
  have hfull : 0 ≤ (principal * feeBps).tdiv LoanManager.bpsDenom :=
    Int.tdiv_nonneg hscaled (by decide)
  have hfullFits : I128.Fits ((principal * feeBps).tdiv LoanManager.bpsDenom) :=
    hfits.tdiv hscaled (by decide)
  have hfullLe : (principal * feeBps).tdiv LoanManager.bpsDenom ≤ principal * feeBps :=
    Int.tdiv_le_self _ hscaled
  have hday : ((principal * feeBps).tdiv LoanManager.bpsDenom).tdiv tenorDays ≤
      (principal * feeBps).tdiv LoanManager.bpsDenom := Int.tdiv_le_self _ hfull
  have hdayFits : I128.Fits (((principal * feeBps).tdiv LoanManager.bpsDenom).tdiv tenorDays) :=
    hfullFits.tdiv hfull (by omega)
  have htenorDue : tenorDays * LoanManager.secondsPerDay < 2 ^ 64 :=
    lt_of_le_of_lt (Nat.le_add_left _ _) hdue
  have hone : LoanManager.secondsPerDay ≤ tenorDays * LoanManager.secondsPerDay :=
    Nat.le_mul_of_pos_left _ htenor
  have hanchor : U64.Fits (now + LoanManager.secondsPerDay) :=
    lt_of_le_of_lt (Nat.add_le_add_left hone _) hdue
  have hsum : I128.Fits
      (principal + if 0 < ((principal * feeBps).tdiv LoanManager.bpsDenom).tdiv tenorDays then
      ((principal * feeBps).tdiv LoanManager.bpsDenom).tdiv tenorDays
        else (principal * feeBps).tdiv LoanManager.bpsDenom) :=
    .of_bounds (by split <;> omega) (by split <;> omega)
  simp only [LoanManager.openedLoan, bind_eq_ok, unwrapOr_eq_ok, I128.mul_eq_some,
    I128.div_eq_some, U64.mul_eq_some, U64.add_eq_some, I128.add_eq_some, ite_eq_ok, pure_eq_ok]
  by_cases hf : 0 < ((principal * feeBps).tdiv LoanManager.bpsDenom).tdiv tenorDays
  · exact ⟨_, _, ⟨rfl, hfits⟩, _, ⟨by decide, rfl, hfullFits⟩, _, ⟨by omega, rfl, hdayFits⟩, _,
      ⟨rfl, htenorDue⟩, _, ⟨rfl, hdue⟩, .inl ⟨hf, _, ⟨rfl, hanchor⟩, _, rfl, _, ⟨rfl, hsum⟩, rfl⟩⟩
  · exact ⟨_, _, ⟨rfl, hfits⟩, _, ⟨by decide, rfl, hfullFits⟩, _, ⟨by omega, rfl, hdayFits⟩, _,
      ⟨rfl, htenorDue⟩, _, ⟨rfl, hdue⟩, .inr ⟨hf, _, rfl, _, ⟨rfl, hsum⟩, rfl⟩⟩

/-- What `open_loan` checks is enough. -/
theorem openLoan_ok {e : Env} {st : LoanManager.State} {principal : Int}
    {stored : LoanManager.LoanOffer}
    (hauth : e.auth st.config.vault = true) (hpos : 0 < principal)
    (hcool : st.readNextBorrow b ≤ e.timestamp)
    (hidle : (st.readLoan b).active = false) (hlimit : principal ≤ LoanManager.creditLimit e st b)
    (hoffer : st.offer.get? b = some stored) (hvalid : e.timestamp ≤ stored.validUntil)
    (hmax : principal ≤ stored.maxAmount)
    (htenor : 0 < stored.tenorDays) (hsmall : principal + principal * stored.feeBps < 2 ^ 127)
    (hdue : U64.Fits (e.timestamp + stored.tenorDays * LoanManager.secondsPerDay)) :
    ∃ o, LoanManager.openLoan e st b principal stored.tenorDays stored.feeBps = .ok o := by
  rcases openedLoan_ok st.config.defaultGracePeriod hpos htenor hsmall hdue with ⟨l, hl⟩
  simp only [LoanManager.openLoan, bind_eq_ok, unwrapOr_eq_ok, panicIf_eq_ok,
    Env.requireAuth_eq_ok, pure_eq_ok]
  exact ⟨_, (), hauth, (), by omega, (), by omega, (), by simp [hidle], (), by omega, stored,
    hoffer, (), by omega, (), by simp, (), by simp, (), by omega, l, hl, rfl⟩

/-- What was exchanged was so when it was, and the borrower was left alone before and since. -/
theorem Kept.exchanged {x : Asked} (hidle : (s.chain.state.readLoan b).active = false)
    (h : Run (Amid sdk b) s asked s')
    (hx : x ∈ asked) : ∃ t u, Kept b s t ∧ Responds sdk t x u ∧ Kept b u s' := by
  rcases List.append_of_mem hx with ⟨before, after, rfl⟩
  rcases h.append_inv with ⟨v, hbefore, hrest⟩
  rcases hrest.cons_inv with ⟨u, ⟨t, hothers, hresponds⟩, hafter⟩
  have hkept : Kept b s t := (Kept.exchanges hidle hbefore).trans
    (Kept.others (Kept.exchanges hidle hbefore).idle hothers).1
  exact ⟨t, u, hkept, hresponds, .exchanges (Kept.responds hkept.idle hresponds).idle hafter⟩

/-- The offer that a request ends with stands on the chain. -/
theorem EndsOffering.stands (hends : EndsOffering borrower offer asked)
    (hidle : (s.chain.state.readLoan (sdk.scAddress borrower)).active = false)
    (run : Run (Amid sdk (sdk.scAddress borrower)) s asked s') :
    ∃ now validUntil, ⟨.now, .ok now⟩ ∈ asked ∧ now / 1000 + 3 * 24 * 60 * 60 = validUntil ∧
      s'.chain.state.offer.get? (sdk.scAddress borrower) =
        some ⟨offer.tenorDays.toNat, offer.feeBps.toNat, validUntil, offer.maxAmountBase⟩ := by
  rcases hends.ends with ⟨before, now, ledger, r, hnow, rfl⟩
  rcases run.append_inv with ⟨t, hbefore, hend⟩
  rcases hend.cons_inv
    with ⟨u, ⟨v, hothers, -, tenor, fee, validUntil, htenor, hfee, huntil, hset⟩, hlast⟩
  rcases hlast.cons_inv with ⟨w, ⟨x, hothers', hrate⟩, hnil⟩
  rw [← hnil.nil_inv]
  have hv : (v.chain.state.readLoan (sdk.scAddress borrower)).active = false :=
    (Kept.others (Kept.exchanges hidle hbefore).idle hothers).1.idle
  have hu : (u.chain.state.readLoan (sdk.scAddress borrower)).active = false :=
    (Kept.calls hv hset (by simp [LoanManager.Op.Opens]) (by simp)).idle
  refine ⟨now, _, List.mem_append_left _ hnow, rfl, ?_⟩
  have hoffered : u.chain.state.offer.get? (sdk.scAddress borrower) =
      some ⟨offer.tenorDays.toNat, offer.feeBps.toNat, now / 1000 + 3 * 24 * 60 * 60,
        offer.maxAmountBase⟩ := by
    rcases hset with ⟨e, r, chain, hstep, rfl⟩
    rcases hstep.exec_ok with ⟨o, ho, hstate⟩
    rcases LoanManager.exec_offer ho (sdk.scAddress borrower) with ⟨_, _, _, _, hop, hget⟩ |
      ⟨⟨_, _, _, hop⟩, -⟩ | ⟨hoffers, -⟩
    · cases hop
      rw [hstate] at hget
      rw [hget, ← htenor, ← hfee, ← huntil]
      simp
    · cases hop
    · exact absurd ⟨_, _, _, _, rfl⟩ hoffers
  have hkeeps : w.chain.state.offer.get? (sdk.scAddress borrower) =
      x.chain.state.offer.get? (sdk.scAddress borrower) := by
    rcases r with error | answer
    · rcases hrate with rfl | hcall
      · rfl
      · exact Market.Calls.offer_eq hcall (by simp [LoanManager.Op.Offers])
          (by simp [LoanManager.Op.Opens])
    · exact Market.Calls.offer_eq hrate.2 (by simp [LoanManager.Op.Offers])
        (by simp [LoanManager.Op.Opens])
  rw [hkeeps, (Kept.others hu hothers').2, hoffered]

/-- What the request had seen before it offered. -/
theorem EndsOffering.cleared {dto : BorrowLoanDto} (hends : EndsOffering borrower offer asked)
    (hsdk : sdk.Documented)
    (h : Trace (borrow sdk dto) asked (.ok offer)) :
    Quoted offer.tenorDays offer.feeBps offer.maxAmountBase ∧
      Cleared sdk asked borrower offer.maxAmountBase := by
  rcases hends.ends with ⟨before, now, ledger, r, -, rfl⟩
  have hpermitted : Permitted sdk before
      (.setLoanOffer borrower offer.tenorDays offer.feeBps _ offer.maxAmountBase) :=
    (borrow_asks hsdk dto).awaits h.awaits
  exact ⟨hpermitted.1, hpermitted.2.mono (List.subset_append_left _ _)⟩

/-- A cooldown that was over when it was read is over. -/
theorem Cooled.over {now : Nat} (h : Cooled asked borrower)
    (hidle : (s.chain.state.readLoan (sdk.scAddress borrower)).active = false)
    (run : Run (Amid sdk (sdk.scAddress borrower)) s asked s')
    (hcooldown : ∀ error, ⟨.readNextBorrowTime borrower, .error error⟩ ∉ asked)
    (hclock : s'.chain.now ≤ now)
    (hserver : ∀ ms, ⟨.now, .ok ms⟩ ∈ asked → ms / 1000 ≤ now) :
    s'.chain.state.readNextBorrow (sdk.scAddress borrower) ≤ now := by
  rcases h with ⟨error | nextAt, hread, hover⟩
  · exact absurd hread (hcooldown error)
  rcases Kept.exchanged hidle run hread with ⟨t, u, -, ⟨rfl, hdoes⟩, hsince⟩
  cases hdoes
  rw [hsince.nextBorrow]
  rcases hover _ rfl with hzero | ⟨seen, hle, hseen⟩
  · omega
  · refine hle.trans ?_
    rcases hseen with hread' | ⟨ms, hread', rfl⟩
    · rcases Kept.exchanged hidle run hread' with ⟨t', u', -, ⟨hanswer, hdoes⟩, hsince'⟩
      cases hdoes
      rcases hanswer with hnone | hsome
      · cases hnone
      · cases hsome
        exact hsince'.clock.trans hclock
    · exact hserver ms hread'

/-- A limit that was read stands, while the profile is valid. -/
theorem WithinLimit.limit {e : Env} {maxAmount : Int} (h : WithinLimit asked borrower maxAmount)
    (hidle : (s.chain.state.readLoan (sdk.scAddress borrower)).active = false)
    (run : Run (Amid sdk (sdk.scAddress borrower)) s asked s')
    (hlimit : ∀ read, ⟨.readCreditLimitOnChain borrower, read⟩ ∈ asked →
      ∃ units : Int, read = .ok units ∧ 0 < units)
    (hprofile : ∀ risk, s'.chain.state.risk.get? (sdk.scAddress borrower) = some risk →
      risk.validUntil = 0 ∨ e.timestamp ≤ risk.validUntil) :
    maxAmount ≤ LoanManager.creditLimit e s'.chain.state (sdk.scAddress borrower) := by
  rcases h with ⟨read, hread, hwithin⟩
  rcases hlimit read hread with ⟨units, rfl, hpos⟩
  refine (hwithin units rfl hpos).trans ?_
  rcases Kept.exchanged hidle run hread with ⟨t, u, -, ⟨⟨e', -, hunits⟩, hdoes⟩, hsince⟩
  cases hdoes
  rw [LoanManager.creditLimit, hsince.risk]
  rw [hsince.risk] at hprofile
  change units = LoanManager.creditLimit e' t.chain.state (sdk.scAddress borrower) at hunits
  rw [LoanManager.creditLimit] at hunits
  cases hrisk : t.chain.state.risk.get? (sdk.scAddress borrower) with
  | none =>
      rw [hrisk] at hunits
      exact absurd hunits (ne_of_gt hpos)
  | some risk =>
      rw [hrisk] at hunits
      dsimp only at hunits ⊢
      split at hunits
      · omega
      rename_i hkyc
      rw [if_neg hkyc]
      split at hunits
      · omega
      · rw [if_neg, hunits]
        have hvalid := hprofile risk hrisk
        omega

/-- The products of a quoted loan are small. -/
theorem Quoted.small {tenorDays feeBps amount principal : Int} (h : Quoted tenorDays feeBps amount)
    (hmax : principal ≤ amount) :
    principal + principal * (feeBps.toNat : Int) < 2 ^ 127 := by
  have hprincipal : principal ≤ 25 * 10 ^ 7 := hmax.trans h.amount
  have hfee : (feeBps.toNat : Int) ≤ 2352 := by
    have := h.fee
    omega
  nlinarith

/-- A borrower without a loan who is told of an offer can take it, for any part of the amount, for
three days: as long as nobody else offers to them, opens for them or writes their profile,
neither while the request runs nor since, the contract accepts the loan. The cooldown and a positive
limit must have been read, and the server's clock must not be ahead of the chain's. -/
theorem offer_opens {dto : BorrowLoanDto} {e : Env} {principal : Int} (hsdk : sdk.Documented)
    (hborrower : normalizeWallet dto.receiver = .ok borrower)
    (hidle : (s.chain.state.readLoan (sdk.scAddress borrower)).active = false)
    (request : Exec (Amid sdk (sdk.scAddress borrower)) s (borrow sdk dto) asked (.ok offer) s')
    (hcooldown : ∀ error, ⟨.readNextBorrowTime borrower, .error error⟩ ∉ asked)
    (hlimit : ∀ read, ⟨.readCreditLimitOnChain borrower, read⟩ ∈ asked →
      ∃ units : Int, read = .ok units ∧ 0 < units)
    (others : Others (sdk.scAddress borrower) s' t)
    (hauth : e.auth t.chain.state.config.vault = true)
    (hclock : t.chain.now ≤ e.timestamp)
    (hserver : ∀ ms, ⟨.now, .ok ms⟩ ∈ asked → ms / 1000 ≤ e.timestamp ∧
      e.timestamp ≤ ms / 1000 + 3 * 24 * 60 * 60)
    (hprofile : ∀ risk, t.chain.state.risk.get? (sdk.scAddress borrower) = some risk →
      risk.validUntil = 0 ∨ e.timestamp ≤ risk.validUntil)
    (hpos : 0 < principal) (hmax : principal ≤ offer.maxAmountBase)
    (hdue : U64.Fits (e.timestamp + offer.tenorDays.toNat * LoanManager.secondsPerDay)) :
    ∃ o, LoanManager.openLoan e t.chain.state (sdk.scAddress borrower) principal
      offer.tenorDays.toNat offer.feeBps.toNat = .ok o := by
  have hends := borrow_trace hborrower request.trace
  rcases hends.cleared hsdk request.trace with ⟨hquoted, hcleared⟩
  rcases hends.stands hidle request.run with ⟨now, validUntil, hnow, rfl, hoffer⟩
  rcases Kept.others (Kept.exchanges hidle request.run).idle others with ⟨hkept, hstands⟩
  have hcool :=
    hcleared.cooled.over hidle request.run hcooldown (hkept.clock.trans hclock) fun ms hms =>
      (hserver ms hms).1
  have hcredit := hcleared.limit.limit (e := e) hidle request.run hlimit (by rwa [← hkept.risk])
  have hsame : LoanManager.creditLimit e t.chain.state (sdk.scAddress borrower) =
      LoanManager.creditLimit e s'.chain.state (sdk.scAddress borrower) := by
    rw [LoanManager.creditLimit, LoanManager.creditLimit, hkept.risk]
  have htenor : 0 < offer.tenorDays.toNat := by
    have := hends.tenor_pos
    omega
  have hsmall : principal + principal * (offer.feeBps.toNat : Int) < 2 ^ 127 := hquoted.small hmax
  have hcool' : t.chain.state.readNextBorrow (sdk.scAddress borrower) ≤ e.timestamp := by
    rw [hkept.nextBorrow]
    exact hcool
  have hcredit' : principal ≤ LoanManager.creditLimit e t.chain.state (sdk.scAddress borrower) := by
    rw [hsame]
    exact hmax.trans hcredit
  have hopens :=
    openLoan_ok hauth hpos hcool' hkept.idle hcredit' (hstands.trans hoffer) (hserver now hnow).2
      hmax htenor hsmall hdue
  exact hopens

/-! ### A request and its opening -/

def scoredMarket : Market :=
  { firstMarket with
    chain := ⟨1000, { LoanManager.construct ⟨1⟩ ⟨2⟩ with
      risk := (LoanManager.construct ⟨1⟩ ⟨2⟩).risk.set ⟨3⟩ ⟨4, true, 0, 1000, 50000000⟩ }⟩ }

/-- The reads went well, and the server's clock stood. -/
def readWell : Asked → Bool
  | ⟨.readNextBorrowTime _, .error _⟩ => false
  | ⟨.readCreditLimitOnChain _, .error _⟩ => false
  | ⟨.readCreditLimitOnChain _, .ok units⟩ => 0 < units
  | ⟨.now, .ok ms⟩ => ms = 5000000
  | _ => true

theorem calmRun_exec (b : Address) (s : Market) (dto : BorrowLoanDto) :
    Exec (Amid plainSdk b) s (borrow plainSdk dto)
    (calmRun s dto).1 (calmRun s dto).2.1 (calmRun s dto).2.2 :=
  Exec.of_simulate (fun s ask => ⟨s, .refl, calmMarket_responds s ask⟩) (borrow plainSdk dto) s

theorem offer_opens_scored : ∃ o, LoanManager.openLoan (.signedBy ⟨2⟩ 6000)
    (calmRun scoredMarket firstRequest).2.2.chain.state ⟨3⟩ 30000000 14 1307 = .ok o := by
  have hexec := calmRun_exec (plainSdk.scAddress borrowerWallet) scoredMarket firstRequest
  have hborrower : normalizeWallet firstRequest.receiver = .ok borrowerWallet := by decide +kernel
  have hidle : (scoredMarket.chain.state.readLoan (plainSdk.scAddress borrowerWallet)).active =
      false := by decide
  have hoffer : (calmRun scoredMarket firstRequest).2.1.toOption.map
      (fun o => (o.feeBps, o.tenorDays, o.maxAmountBase)) =
      some (1307, 14, 45000000) := by decide +kernel
  have hreads : (calmRun scoredMarket firstRequest).1.all readWell = true := by decide +kernel
  have hchain : (calmRun scoredMarket firstRequest).2.2.chain.now = 1000 ∧
      (calmRun scoredMarket firstRequest).2.2.chain.state.config.vault = ⟨2⟩ ∧
      (calmRun scoredMarket firstRequest).2.2.chain.state.risk.get? ⟨3⟩ =
      some ⟨4, true, 0, 1000, 50000000⟩ := by decide +kernel
  generalize (calmRun scoredMarket firstRequest).1 = asked at hexec hreads
  generalize (calmRun scoredMarket firstRequest).2.1 = out at hexec hoffer
  generalize (calmRun scoredMarket firstRequest).2.2 = last at hexec hchain ⊢
  rcases hchain with ⟨hnow, hvault, hrisk⟩
  rw [List.all_eq_true] at hreads
  cases out with
  | error error => cases hoffer
  | ok offer =>
      rcases offer with ⟨feeBps, tenorDays, maxAmountBase, minedBlock⟩
      cases hoffer
      have hlimit : ∀ read, ⟨.readCreditLimitOnChain borrowerWallet, read⟩ ∈ asked →
          ∃ units : Int, read = .ok units ∧ 0 < units := by
        intro read hmem
        have hwell := hreads _ hmem
        cases read with
        | error error => cases hwell
        | ok units => exact ⟨units, rfl, of_decide_eq_true hwell⟩
      have hserver : ∀ ms, ⟨.now, .ok ms⟩ ∈ asked → ms / 1000 ≤ 6000 ∧
          6000 ≤ ms / 1000 + 3 * 24 * 60 * 60 := by
        intro ms hmem
        have hms : ms = 5000000 := of_decide_eq_true (hreads _ hmem)
        rw [hms]
        decide
      have hopens := offer_opens (e := .signedBy ⟨2⟩ 6000) plainSdk_documented hborrower hidle hexec
        (fun error hmem => by cases hreads _ hmem) hlimit .refl (by rw [hvault]; rfl)
        (by rw [hnow]; decide) hserver
        (fun risk hget => by cases hrisk.symm.trans hget; exact .inl rfl)
        (show (0 : Int) < 30000000 by decide)
        (show (30000000 : Int) ≤ 45000000 by decide)
        (show U64.Fits (6000 + 14 * LoanManager.secondsPerDay) by decide)
      exact hopens

end Borrow

end Lendoor.Backend
