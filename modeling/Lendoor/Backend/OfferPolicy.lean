import Lendoor.Backend.Borrow

/-! # What is offered and lent

Borrow requests of many users against the tables and the loan manager, where everybody else
calls the loan manager at will and only these requests write offers. Every offer on the
chain, and every loan, then has a tenor of the menu, a fee of its price range and an amount
within the ladder, and was cleared by the request that wrote it.
-/

namespace Lendoor.Backend

open Cctp (Text falsy)
open Async (AsksAfter AsksOnly Awaits)
open AmountUnits (Spells Amount stellarTokenDecimals)

namespace Borrow

/-! ## The price range -/

/-- The tenors of the menu, each with the fees between the best monthly rate and the worst, and
the top of the ladder. -/
structure Quoted (tenorDays feeBps amount : Int) : Prop where
  fee : tenorDays = 7 ∧ 261 ≤ feeBps ∧ feeBps ≤ 523 ∨ tenorDays = 14 ∧
    653 ≤ feeBps ∧ feeBps ≤ 1307 ∨
    tenorDays = 21 ∧ 1176 ≤ feeBps ∧ feeBps ≤ 2352
  amount : amount ≤ 25 * 10 ^ 7

theorem Quoted.of_le {tenorDays feeBps amount amount' : Int} (h : Quoted tenorDays feeBps amount)
    (hle : amount' ≤ amount) :
    Quoted tenorDays feeBps amount' :=
  ⟨h.fee, hle.trans h.amount⟩

theorem toBps_bounds {d : ℚ} {low high : Int} (hlow : low ≤ d * 10000 + 1 / 2)
    (hhigh : d * 10000 + 1 / 2 < high + 1) :
    low ≤ toBps d ∧ toBps d ≤ high := by
  refine ⟨Int.le_floor.mpr hlow, Int.le_of_lt_add_one (Int.floor_lt.mpr ?_)⟩
  push_cast
  exact hhigh

theorem getFeeBpsForTerm_quoted {days feeBps : Int} {pDefault : Option ℚ}
    {params : TieredParams} {amount : Int}
    (h : getFeeBpsForTerm days pDefault params = .ok feeBps) (hdays : days ∈ [7, 14, 21])
    (hamount : amount ≤ 25 * 10 ^ 7) :
    Quoted days feeBps amount := by
  let pricing : Pricing :=
    ⟨pDefault, params.onTimeLoans, params.walletQuality, params.totalRepaidUsd, params.lateLoans⟩
  have hlow : 14 / 100 ≤ pricing.monthlyRate := pricing.le_monthlyRate
  have hhigh : pricing.monthlyRate ≤ 28 / 100 := pricing.monthlyRate_le
  simp only [List.mem_cons, List.not_mem_nil, or_false] at hdays
  have hpos : ¬ days ≤ 0 := by omega
  simp only [getFeeBpsForTerm, getRatesForTerm, if_neg hpos, Except.map] at h
  cases h
  change Quoted days
    (toBps (max (pricing.monthlyRate * (1 + ((days : ℚ) - 14) / 14 * (4 / 10))) 0 * days / 30))
    amount
  generalize pricing.monthlyRate = rate at hlow hhigh
  refine ⟨?_, hamount⟩
  rcases hdays with rfl | rfl | rfl
  · rw [max_eq_left (by push_cast; linarith)]
    exact .inl ⟨rfl, toBps_bounds (by push_cast; linarith) (by push_cast; linarith)⟩
  · rw [max_eq_left (by push_cast; linarith)]
    exact .inr (.inl ⟨rfl, toBps_bounds (by push_cast; linarith) (by push_cast; linarith)⟩)
  · rw [max_eq_left (by push_cast; linarith)]
    exact .inr (.inr ⟨rfl, toBps_bounds (by push_cast; linarith) (by push_cast; linarith)⟩)

theorem getStepForScore_limit_le (score : Nat) : (getStepForScore score).limitUsdc ≤ 25 := by
  have hmem := climb_mem (fun step => step.score ≤ score) creditLadderBottom creditLadder
  have hall : ∀ step ∈ creditLadderBottom :: creditLadder, step.limitUsdc ≤ 25 := by decide
  exact hall _ hmem

/-! ## The amount -/

theorem digitsBetween_spelled {low high : Nat} {text : Text}
    (h : digitsBetween low high text = true) (hlow : 0 < low) :
    text ≠ [] ∧ Decimal.AllDigits text := by
  simp only [digitsBetween, Bool.and_eq_true, List.all_eq_true, decide_eq_true_eq] at h
  refine ⟨?_, h.1.1⟩
  rintro rfl
  exact absurd h.1.2 (Nat.not_le.mpr hlow)

/-- What the validation lets through spells a number. -/
theorem amountPattern_spells {text : Text} (h : amountPattern text = true) :
    ∃ v, Spells text v := by
  have hjoin : ['.'].intercalate (text.splitOn '.') = text := List.intercalate_splitOn '.'
  unfold amountPattern at h
  split at h
  · rename_i whole hsplit
    rcases digitsBetween_spelled h Nat.one_pos with ⟨hne, hdigits⟩
    rw [hsplit] at hjoin
    rw [← hjoin]
    exact ⟨_, by simpa using Spells.whole hne hdigits⟩
  · rename_i whole frac hsplit
    rw [Bool.and_eq_true] at h
    rcases digitsBetween_spelled h.1 Nat.one_pos with ⟨hne, hdigits⟩
    rw [hsplit] at hjoin
    rw [← hjoin]
    exact ⟨_, by simpa using Spells.point hne hdigits (digitsBetween_spelled h.2 Nat.one_pos).2⟩
  · cases h

/-- The parser of decimals reads what is spelled. -/
def BorrowSdk.Documented (sdk : BorrowSdk) : Prop :=
  ∀ {text v}, Spells text v → sdk.decimal text = some v

theorem Spells.no_comma {text : Text} {v : ℚ} (h : Spells text v) :
    text.filter (fun c => c ≠ ',') = text := by
  rcases h.parts with ⟨_, _, -, -, -, -, -, hchars⟩
  refine List.filter_eq_self.mpr fun c hc => decide_eq_true ?_
  rcases hchars c hc with hdigit | rfl
  · exact AmountUnits.isDigit_ne hdigit (by decide)
  · decide

theorem parseAmountHuman_spells {sdk : BorrowSdk} (hsdk : sdk.Documented) {text : Text}
    {v requested : ℚ} (hspells : Spells text v)
    (h : LoanBook.parseAmountHuman sdk.toLoanSdk text = .ok requested) : requested = v := by
  simp only [LoanBook.parseAmountHuman, Spells.no_comma hspells, hspells.trim] at h
  split at h
  · cases h
  · rw [hsdk hspells] at h
    dsimp only at h
    split at h
    · cases h
    · cases h
      rfl

/-! ## What a request may ask -/

/-- What `borrow` checks of the user's row. -/
structure User.Checked (sdk : BorrowSdk) (user : User) : Prop where
  phone : falsy user.phone = false
  verified : user.phoneVerifiedAt ≠ none
  kyc : sdk.kycGateEnabled = true → user.kycStatus = .approved

/-- A time of the chain, or of the server, that was read. -/
def ReadTime (past : List Asked) (now : Nat) : Prop :=
  ⟨.getChainBlockTimestamp, .ok (some now)⟩ ∈ past ∨ ∃ ms, ⟨.now, .ok ms⟩ ∈ past ∧ now = ms / 1000

/-- The cooldown of the borrower was over, unless it could not be read. -/
def Cooled (past : List Asked) (borrower : Text) : Prop :=
  ∃ read, ⟨.readNextBorrowTime borrower, read⟩ ∈ past ∧
    ∀ nextAt, read = .ok nextAt → nextAt = 0 ∨ ∃ now, nextAt ≤ now ∧ ReadTime past now

/-- The amount is within the limit on the chain, unless that could not be read or was zero. -/
def WithinLimit (past : List Asked) (borrower : Text) (maxAmount : Int) : Prop :=
  ∃ read, ⟨.readCreditLimitOnChain borrower, read⟩ ∈ past ∧
    ∀ units, read = .ok units → 0 < units → maxAmount ≤ units

/-- What a request has seen before it offers a borrower an amount. -/
structure Cleared (sdk : BorrowSdk) (past : List Asked) (borrower : Text) (maxAmount : Int) :
    Prop where
  user : ∃ user : User, ⟨.findUser borrower, .ok (some user)⟩ ∈ past ∧ user.Checked sdk ∧
    maxAmount ≤ user.ladderLimit * 10 ^ 7
  cooled : Cooled past borrower
  limit : WithinLimit past borrower maxAmount

def Permitted (sdk : BorrowSdk) (past : List Asked) : Ask → Prop
  | .setLoanOffer borrower tenorDays feeBps _ maxAmount => Quoted tenorDays feeBps maxAmount ∧
      Cleared sdk past borrower maxAmount
  | _ => True

section Asks

variable {sdk : BorrowSdk} {past past' asked : List Asked} {borrower : Text} {maxAmount : Int}

theorem ReadTime.mono {now : Nat} (h : ReadTime past now) (hsub : past ⊆ past') :
    ReadTime past' now :=
  h.imp (fun h => hsub h) fun ⟨ms, h, hnow⟩ => ⟨ms, hsub h, hnow⟩

theorem Cooled.mono (h : Cooled past borrower) (hsub : past ⊆ past') : Cooled past' borrower := by
  rcases h with ⟨read, hread, hover⟩
  exact ⟨read, hsub hread, fun nextAt hok => (hover nextAt hok).imp_right fun ⟨now, hle, hnow⟩ =>
    ⟨now, hle, hnow.mono hsub⟩⟩

theorem WithinLimit.mono (h : WithinLimit past borrower maxAmount) (hsub : past ⊆ past') :
    WithinLimit past' borrower maxAmount := by
  rcases h with ⟨read, hread, hle⟩
  exact ⟨read, hsub hread, hle⟩

theorem Cleared.mono (h : Cleared sdk past borrower maxAmount) (hsub : past ⊆ past') :
    Cleared sdk past' borrower maxAmount := by
  rcases h.user with ⟨user, hfound, hchecked⟩
  exact ⟨⟨user, hsub hfound, hchecked⟩, h.cooled.mono hsub, h.limit.mono hsub⟩

theorem chainNow_time {now : Nat} (h : Async.Trace chainNow asked (.ok now)) :
    ReadTime asked now := by
  rcases Async.trace_call_bind.mp h with ⟨error, -, hout⟩ | ⟨timestamp, rest, rfl, hrest⟩
  · cases hout
  · cases timestamp with
    | some timestamp =>
        rcases Async.trace_pure.mp hrest with ⟨rfl, hout⟩
        cases hout
        exact .inl List.mem_cons_self
    | none =>
        rcases Async.trace_call_bind.mp hrest with ⟨error, -, hout⟩ | ⟨ms, rest, rfl, hend⟩
        · cases hout
        · rcases Async.trace_pure.mp hend with ⟨rfl, hout⟩
          cases hout
          exact .inr ⟨ms, by simp, rfl⟩

theorem assertNoBorrowCooldown_cooled
    (h : Async.Trace (assertNoBorrowCooldown sdk borrower) asked (.ok ())) :
    Cooled asked borrower := by
  rcases Async.trace_caught_bind.mp h with ⟨read, rest, rfl, hrest⟩
  refine ⟨read, List.mem_cons_self, fun nextAt hok => ?_⟩
  subst hok
  dsimp only at hrest
  split at hrest
  · rename_i hzero
    exact .inl hzero
  · rename_i hnext
    rcases Async.trace_bind.mp hrest with ⟨error, -, hout⟩ | ⟨now, before, after, rfl, hnow, hcheck⟩
    · cases hout
    · refine .inr ⟨now, ?_,
        (chainNow_time hnow).mono (List.subset_cons_of_subset _ (List.subset_append_left _ _))⟩
      split at hcheck
      · rcases Async.trace_throw.mp hcheck with ⟨-, hout⟩
        cases hout
      · rename_i herror
        unfold borrowCooldownError at herror
        split at herror
        · rename_i hover
          exact hover.resolve_left hnext
        · cases herror

theorem effectiveLimit_trace {ladder : Nat} {limit : ℚ}
    (h : Async.Trace (effectiveLimit borrower ladder) asked (.ok limit)) :
    limit ≤ ladder ∧ ∃ read, ⟨.readCreditLimitOnChain borrower, read⟩ ∈ asked ∧
      ∀ units : Int, read = .ok units → 0 < units → limit ≤ units / 10 ^ stellarTokenDecimals := by
  rcases Async.trace_caught_bind.mp h with ⟨read, rest, rfl, hrest⟩
  cases read with
  | error error =>
      rcases Async.trace_pure.mp hrest with ⟨rfl, hout⟩
      cases hout
      exact ⟨le_rfl, _, List.mem_cons_self, by simp⟩
  | ok units =>
      rcases Async.trace_pure.mp hrest with ⟨rfl, hout⟩
      cases hout
      split
      · rename_i hlower
        refine ⟨hlower.2.le, _, List.mem_cons_self, fun units' hok _ => ?_⟩
        cases hok
        exact le_rfl
      · rename_i hlower
        refine ⟨le_rfl, _, List.mem_cons_self, fun units' hok hpos => ?_⟩
        cases hok
        have hunits : (0 : ℚ) < units / 10 ^ stellarTokenDecimals := by positivity
        exact not_lt.mp fun hlt => hlower ⟨hunits, hlt⟩

theorem getTieredPricingContext_asks (userId : Nat) :
    (getTieredPricingContext userId).AsksAfter (Permitted sdk) past :=
  .call_bind trivial fun _ =>
    .call_bind trivial fun _ => .call_bind trivial fun _ => .call_bind trivial fun _ => trivial

theorem assertNoBorrowCooldown_asks :
    (assertNoBorrowCooldown sdk borrower).AsksAfter (Permitted sdk) past := by
  have hnow : ∀ {past}, chainNow.AsksAfter (Permitted sdk) past := by
    refine .call_bind trivial fun timestamp => ?_
    cases timestamp with
    | some timestamp => trivial
    | none => exact .call_bind trivial fun _ => trivial
  refine .caught_bind trivial fun read => ?_
  cases read with
  | error error => trivial
  | ok nextAt =>
      dsimp only
      split
      · trivial
      · refine hnow.bind fun now asked _ => ?_
        split <;> trivial

theorem createLoanOfferBackend_asks {amountHuman : Text} {tenorDays feeBps : Int}
    (h : ∀ maxAmount, AmountUnits.toUnits (.string amountHuman) stellarTokenDecimals =
      some maxAmount →
      Quoted tenorDays feeBps maxAmount ∧ Cleared sdk past borrower maxAmount) :
    (createLoanOfferBackend amountHuman borrower tenorDays feeBps).AsksAfter
      (Permitted sdk) past := by
  unfold createLoanOfferBackend
  split
  · trivial
  split
  · trivial
  split
  · trivial
  split
  · trivial
  · rename_i maxAmount hunits
    split
    · trivial
    · rcases h maxAmount hunits with ⟨hquoted, hcleared⟩
      exact .call_bind trivial fun now =>
        .call_bind ⟨hquoted, hcleared.mono (List.subset_append_left _ _)⟩ fun _ => trivial

/-- The units of a spelled amount that is within a limit are. -/
theorem units_le {v limit : ℚ} {n : Int} (h : v ≤ limit)
    (hlimit : limit * 10 ^ stellarTokenDecimals ≤ n) :
    ⌊v * 10 ^ stellarTokenDecimals⌋ ≤ n := by
  have hscaled : v * 10 ^ stellarTokenDecimals ≤ limit * 10 ^ stellarTokenDecimals := by gcongr
  exact Int.floor_le_iff.mpr ((hscaled.trans hlimit).trans_lt (lt_add_one _))

theorem offerTo_asks (hsdk : sdk.Documented) (dto : BorrowLoanDto)
    (htenor : dto.tenorDays ∈ [7, 14, 21]) {user : User}
    (hfound : ⟨.findUser borrower, .ok (some user)⟩ ∈ past) (hchecked : user.Checked sdk) :
    (offerTo sdk dto borrower user).AsksAfter (Permitted sdk) past := by
  refine assertNoBorrowCooldown_asks.bind fun _ asked hcooldown => ?_
  refine AsksAfter.bind ?_ fun limit asked' hlimit => .lift_bind fun requested hrequested => ?_
  · exact .caught_bind trivial fun read => by cases read <;> trivial
  split
  · trivial
  rename_i hwithin
  refine (getTieredPricingContext_asks user.id).bind fun tieredCtx asked'' _ =>
    .lift_bind fun feeBps hfee => ?_
  refine AsksAfter.bind (AsksAfter.settled (createLoanOfferBackend_asks fun maxAmount hunits => ?_))
    fun offer _ _ => ?_
  · rcases amountPattern_spells dto.validAmount with ⟨v, hspells⟩
    rw [AmountUnits.toUnits_spells hspells] at hunits
    cases hunits
    have hv : v ≤ limit := by
      rw [← parseAmountHuman_spells hsdk hspells hrequested]
      exact not_lt.mp hwithin
    rcases effectiveLimit_trace hlimit with ⟨hladder, read, hread, hunits⟩
    have hbelow : ⌊v * 10 ^ stellarTokenDecimals⌋ ≤ user.ladderLimit * 10 ^ 7 := by
      refine units_le (hv.trans hladder) ?_
      push_cast
      exact le_rfl
    have htop : (user.ladderLimit : Int) ≤ 25 := by exact_mod_cast getStepForScore_limit_le _
    refine ⟨getFeeBpsForTerm_quoted hfee htenor (hbelow.trans (by omega)),
      ⟨user, by simp [hfound], hchecked, hbelow⟩, ?_, ?_⟩
    · exact (assertNoBorrowCooldown_cooled hcooldown).mono fun x hx => by simp [hx]
    · refine ⟨read, by simp [hread], fun units hok hpos => units_le hv ?_⟩
      have hle := hunits units hok hpos
      rw [le_div_iff₀ (by positivity)] at hle
      exact hle
  · cases offer with
    | error error => trivial
    | ok offer => exact .caught_bind trivial fun _ => trivial

theorem borrow_asks (hsdk : sdk.Documented) (dto : BorrowLoanDto) :
    (borrow sdk dto).AsksAfter (Permitted sdk) [] := by
  unfold borrow
  split
  · trivial
  refine .lift_bind fun borrower _ => ?_
  split
  · trivial
  split
  · trivial
  rename_i htenor
  refine .call_bind trivial fun found => ?_
  cases found with
  | none => trivial
  | some user =>
      dsimp only
      split
      · trivial
      rename_i hphone
      refine .lift_bind fun _ hkyc =>
        offerTo_asks hsdk dto (not_not.mp htenor) (by simp) ⟨?_, ?_, fun hgate => ?_⟩
      · simpa using (not_or.mp hphone).1
      · exact (not_or.mp hphone).2
      · unfold assertKycGate at hkyc
        split at hkyc
        · cases hkyc
        · rename_i hpassed
          by_contra hnot
          exact hpassed ⟨hgate, hnot⟩

end Asks

/-! ## The loan manager -/

/-- Every offer is quoted, and every open loan is on such terms. -/
structure Priced (s : LoanManager.State) : Prop where
  offers : ∀ b offer, s.offer.get? b = some offer →
    Quoted offer.tenorDays offer.feeBps offer.maxAmount
  loans : ∀ b, (s.readLoan b).active = true →
    Quoted (s.readLoan b).tenorDays (s.readLoan b).feeBps (s.readLoan b).principal

theorem priced_construct (owner vault : Address) : Priced (LoanManager.construct owner vault) := by
  refine ⟨fun b offer h => ?_, fun b hactive => ?_⟩
  · simp [LoanManager.construct] at h
  · simp [LoanManager.construct, LoanManager.State.readLoan, LoanManager.Loan.zeroed] at hactive

/-- A call that offers only what is quoted keeps the prices. -/
theorem Priced.step {s t : Clocked LoanManager.State} {label : LoanManager.Label}
    (h : Priced s.state)
    (hsound : s.state.Sound s.now) (hstep : LoanManager.Step s label t)
    (hoffer : ∀ b tenorDays feeBps validUntil maxAmount,
      label.1.2 = .setLoanOffer b tenorDays feeBps validUntil maxAmount →
      Quoted tenorDays feeBps maxAmount) : Priced t.state := by
  rcases hstep.exec_ok with ⟨o, ho, hstate⟩
  rw [← hstate]
  refine ⟨fun b offer hget => ?_, fun b hactive => ?_⟩
  · rcases LoanManager.exec_offer ho b with ⟨tenorDays, feeBps, validUntil, maxAmount, hop, hset⟩ |
      ⟨-, hnone⟩ | ⟨-, -, hsame⟩
    · rw [hset] at hget
      cases hget
      exact hoffer b _ _ _ _ hop
    · rw [hnone] at hget
      cases hget
    · exact h.offers b offer (hsame ▸ hget)
  · cases hbefore : (s.state.readLoan b).active with
    | true =>
        have hcontinues := (LoanManager.exec_effect ho).continues hsound hbefore hactive
        rw [hcontinues.tenorDays, hcontinues.feeBps]
        exact (h.loans b hbefore).of_le hcontinues.principal_le
    | false =>
        by_cases hopens : label.1.2.Opens b
        · rcases hopens with ⟨principal, tenorDays, feeBps, hop⟩
          rw [hop] at ho
          simp only [LoanManager.exec, map_eq_ok] at ho
          rcases ho with ⟨o', ho, rfl⟩
          rcases LoanManager.openLoan_spec ho with
            ⟨-, hpos, -, -, -, ⟨offer, hget, -, htenor, hfee, hmax⟩, l, hl, hopened, -⟩
          have hquoted := h.offers b offer hget
          have htenorPos := (hsound.configured.offers b offer hget).1
          rw [Outcome.as_state, hopened, LoanManager.State.readLoan_writeLoan_self,
            (LoanManager.openedLoan_spec hpos (by omega) hl).2]
          rw [htenor, hfee] at hquoted
          exact hquoted.of_le hmax
        · rw [((LoanManager.exec_effect ho).idle hbefore hopens).1] at hactive
          cases hactive

/-! ## Requests under way -/

/-- The server's clock, the loan manager with that of the chain, and the users. -/
structure Market where
  now : Nat
  chain : Clocked LoanManager.State
  users : List User

/-- A call of the loan manager that goes through. -/
def Market.Calls (s : Market) (op : LoanManager.Op) (s' : Market) : Prop :=
  ∃ e r chain, LoanManager.Step s.chain ((e, op), r) chain ∧ s' = { s with chain := chain }

section World

variable (sdk : BorrowSdk)

def Market.Answers (s : Market) : (ask : Ask) → Answer ask → Prop
  | .findUser wallet, found => found = s.users.find? fun user => user.walletAddress = wallet
  | .readNextBorrowTime borrower, nextAt =>
      nextAt = s.chain.state.readNextBorrow (sdk.scAddress borrower)
  | .getChainBlockTimestamp, timestamp => timestamp = none ∨ timestamp = some s.chain.now
  | .now, now => now = s.now
  | .readCreditLimitOnChain borrower, limit =>
      ∃ e : Env, e.timestamp = s.chain.now ∧
        limit = LoanManager.creditLimit e s.chain.state (sdk.scAddress borrower)
  | .findRisk userId, found => found = s.users.find? fun user => user.id = userId
  | _, _ => True

def Market.Does (s : Market) : Ask → Market → Prop
  | .setLoanOffer borrower tenorDays feeBps validUntil maxAmount, s' =>
      ∃ (tenor fee : Word32) (until' : Word64),
      (tenor : Int) = tenorDays ∧ (fee : Int) = feeBps ∧ (until' : Nat) = validUntil ∧
        s.Calls (.setLoanOffer (sdk.scAddress borrower) tenor fee until' maxAmount) s'
  | .setPremiumConfig borrower lateRatePerSecWad, s' =>
      s.Calls (.setPremiumConfig (sdk.scAddress borrower) 0 lateRatePerSecWad) s'
  | _, s' => s' = s

/-- A call that throws had no effect, or it did and its answer was lost. -/
def Responds (s : Market) (x : Asked) (s' : Market) : Prop :=
  match x with
  | ⟨ask, .ok answer⟩ => s.Answers sdk ask answer ∧ s.Does sdk ask s'
  | ⟨ask, .error _⟩ => s' = s ∨ s.Does sdk ask s'

/-- What others do: calls of the loan manager, of which none writes an offer, and anything to
the tables. -/
inductive Outside (s : Market) : Market → Prop
  | chain {op : LoanManager.Op} {s' : Market} : (∀ b, ¬ op.Offers b) → s.Calls op s' → Outside s s'
  | tables {now : Nat} {users : List User} : s.now ≤ now →
      Outside s { s with now := now, users := users }

def service (ι : Type) : Service Market ι BorrowLoanDto Ask Answer HttpError Offer where
  program _ _ dto := borrow sdk dto
  respond _ := Responds sdk
  settle s _ _ _ := s
  outside := Outside

end World

abbrev Pool (ι : Type) : Type := ThreadPool Market ι BorrowLoanDto Ask Answer HttpError Offer

abbrev Event (ι : Type) : Type := ThreadEvent ι BorrowLoanDto Ask Answer HttpError Offer

section Requests

variable {ι : Type} [DecidableEq ι] {sdk : BorrowSdk} {s s' : Market}

/-- What holds of the chain and of the calls under way. -/
structure Market.InPolicy (s : Market) : Prop where
  sound : s.chain.state.Sound s.chain.now
  priced : Priced s.chain.state

theorem Market.InPolicy.calls {op : LoanManager.Op} (h : s.InPolicy) (hcall : s.Calls op s')
    (hoffer : ∀ b tenorDays feeBps validUntil maxAmount,
      op = .setLoanOffer b tenorDays feeBps validUntil maxAmount →
      Quoted tenorDays feeBps maxAmount) : s'.InPolicy := by
  rcases hcall with ⟨e, r, chain, hstep, rfl⟩
  exact ⟨hstep.sound h.sound, h.priced.step h.sound hstep hoffer⟩

theorem Market.InPolicy.does {ask : Ask} {past : List Asked} (h : s.InPolicy)
    (hpermitted : Permitted sdk past ask)
    (hdoes : s.Does sdk ask s') : s'.InPolicy := by
  cases ask with
  | setLoanOffer borrower tenorDays feeBps validUntil maxAmount =>
      rcases hdoes with ⟨tenor, fee, until', rfl, rfl, -, hcall⟩
      refine h.calls hcall fun b t f v m hop => ?_
      cases hop
      exact hpermitted.1
  | setPremiumConfig borrower rate =>
      refine h.calls hdoes fun b t f v m hop => ?_
      cases hop
  | _ =>
      cases hdoes
      exact h

theorem Market.InPolicy.responds {x : Asked} {past : List Asked} (h : s.InPolicy)
    (hpermitted : Permitted sdk past x.1)
    (hx : Responds sdk s x s') : s'.InPolicy := by
  rcases x with ⟨ask, error | answer⟩
  · rcases hx with rfl | hdoes
    · exact h
    · exact h.does hpermitted hdoes
  · exact h.does hpermitted hx.2

theorem Market.InPolicy.outside (h : s.InPolicy) (hout : Outside s s') : s'.InPolicy := by
  cases hout with
  | chain hop hcall => exact h.calls hcall fun b t f v m heq => absurd ⟨t, f, v, m, heq⟩ (hop b)
  | tables => exact ⟨h.sound, h.priced⟩

/-- Whatever requests, openings, payments and writes of others come between any two of its
awaits: all that is offered on the chain, and all that is lent, is on quoted terms; and a
request offers an amount only to a borrower whom it has cleared. -/
theorem offers_within_policy {owner vault : Address} {start now : Nat} {users : List User}
    {w : Pool ι} {events : List (Event ι)}
    (hsdk : sdk.Documented)
    (run : Run (service sdk ι).Step ⟨⟨now, ⟨start, LoanManager.construct owner vault⟩, users⟩,
      fun _ => none⟩ events w) :
    Priced w.shared.chain.state ∧ ∀ {k : Nat} {v v' : Pool ι} {i : ι} {x : Asked},
      StepAt (service sdk ι).Step ⟨⟨now, ⟨start, LoanManager.construct owner vault⟩, users⟩,
        fun _ => none⟩ events k v
        (.exchange i x) v' →
      ∀ borrower tenorDays feeBps validUntil maxAmount,
        x.1 = .setLoanOffer borrower tenorDays feeBps validUntil maxAmount →
        ∃ job, v.jobs i = some job ∧ Cleared sdk job.asked borrower maxAmount := by
  have hasks : ∀ (s : Market) (i : ι) dto,
      ((service sdk ι).program s i dto).AsksAfter (Permitted sdk) [] :=
    fun _ _ dto => borrow_asks hsdk dto
  have hpolicy : w.shared.InPolicy :=
    Service.shared_invariant hasks (fun h hpermitted hx => h.responds hpermitted hx) (fun h => h)
      (fun h hout => h.outside hout)
      run (fun _ => rfl) ⟨LoanManager.construct_sound owner vault start,
        priced_construct owner vault⟩
  refine ⟨hpolicy.priced, fun hat borrower tenorDays feeBps validUntil maxAmount hask => ?_⟩
  rcases Service.asked_permitted hasks (fun _ => rfl) hat with ⟨job, hjob, hpermitted⟩
  rw [hask] at hpermitted
  exact ⟨job, hjob, hpermitted.2⟩

end Requests

/-! ### A concrete request -/

def plainDecimal (text : Text) : Option ℚ :=
  match AmountUnits.splitPoint text with
  | (whole, frac) =>
      if whole ≠ [] ∧ whole.all Char.isDigit = true ∧ frac.all Char.isDigit = true then
        some (Decimal.value whole + Decimal.value frac / 10 ^ frac.length)
      else none

def plainSdk : BorrowSdk where
  decimal := plainDecimal
  scAddress := fun _ => ⟨3⟩
  cooldownMessage := fun _ => "BORROW_COOLDOWN"
  kycGateEnabled := true

theorem plainSdk_documented : plainSdk.Documented := by
  intro text v hspells
  rcases hspells.parts with ⟨whole, frac, hne, hwhole, hfrac, hsplit, rfl, -⟩
  simp only [plainSdk, plainDecimal, hsplit]
  exact if_pos ⟨hne, List.all_eq_true.mpr hwhole, List.all_eq_true.mpr hfrac⟩

/-- The server and the chain where every call goes through, but for the late rate. -/
def calmMarket (s : Market) : (ask : Ask) → Except HttpError (Answer ask) × Market
  | .findUser wallet => (.ok (s.users.find? fun user => user.walletAddress = wallet), s)
  | .readNextBorrowTime borrower =>
      (.ok (s.chain.state.readNextBorrow (plainSdk.scAddress borrower)), s)
  | .getChainBlockTimestamp => (.ok (some s.chain.now), s)
  | .now => (.ok s.now, s)
  | .readCreditLimitOnChain borrower =>
      (.ok (LoanManager.creditLimit (.signedBy ⟨1⟩ s.chain.now) s.chain.state
        (plainSdk.scAddress borrower)), s)
  | .countOnTime _ => (.ok 0, s)
  | .countLate _ => (.ok 0, s)
  | .sumRepaid _ => (.ok 0, s)
  | .findRisk userId => (.ok (s.users.find? fun user => user.id = userId), s)
  | .setLoanOffer borrower tenorDays feeBps validUntil maxAmount =>
      let op : LoanManager.Op :=
        .setLoanOffer (plainSdk.scAddress borrower) (Fin.ofNat _ tenorDays.toNat)
        (Fin.ofNat _ feeBps.toNat) (Fin.ofNat _ validUntil) maxAmount
      match LoanManager.exec (.signedBy ⟨1⟩ s.chain.now) s.chain.state op with
      | .ok o =>
          if (0 ≤ tenorDays ∧ tenorDays < 2 ^ 32) ∧ (0 ≤ feeBps ∧ feeBps < 2 ^ 32) ∧
            validUntil < 2 ^ 64 then
            (.ok 1, { s with chain := ⟨s.chain.now, o.state⟩ })
          else (.error (rejected ""), s)
      | .error _ => (.error (rejected ""), s)
  | .setPremiumConfig _ _ => (.error (rejected ""), s)

theorem calmMarket_responds (s : Market) (ask : Ask) :
    Responds plainSdk s ⟨ask, (calmMarket s ask).1⟩ (calmMarket s ask).2 := by
  cases ask with
  | setLoanOffer borrower tenorDays feeBps validUntil maxAmount =>
      simp only [calmMarket]
      split
      · rename_i o ho
        split
        · rename_i hwords
          refine ⟨trivial, Fin.ofNat _ tenorDays.toNat, Fin.ofNat _ feeBps.toNat,
            Fin.ofNat _ validUntil, ?_, ?_, ?_, ?_⟩
          · rw [Fin.val_ofNat, Nat.mod_eq_of_lt (by omega)]
            omega
          · rw [Fin.val_ofNat, Nat.mod_eq_of_lt (by omega)]
            omega
          · exact Nat.mod_eq_of_lt hwords.2.2
          · exact ⟨_, _, _, ⟨le_rfl, rfl, map_eq_ok.mpr ⟨o, ho, rfl⟩⟩, rfl⟩
        · exact .inl rfl
      · exact .inl rfl
  | setPremiumConfig => exact .inl rfl
  | readCreditLimitOnChain => exact ⟨⟨_, rfl, rfl⟩, rfl⟩
  | getChainBlockTimestamp => exact ⟨.inr rfl, rfl⟩
  | _ => exact ⟨by first | rfl | trivial, rfl⟩

def borrowerWallet : Text := "GBRPYHIL2CI3FNQ4BXLFMNDLFJUNPU2HY3ZMFSHONUCEOASW7QC7OX2H".toList

def verifiedUser : User where
  id := 1
  walletAddress := borrowerWallet
  phone := some "5491100000000".toList
  phoneVerifiedAt := some 0
  kycStatus := .approved
  score := some 4
  riskPDefault := none
  walletQuality := none
  hadDefaultEver := false

def firstMarket : Market := ⟨5000000, ⟨1000, LoanManager.construct ⟨1⟩ ⟨2⟩⟩, [verifiedUser]⟩

def firstRequest : BorrowLoanDto := ⟨"4.5".toList, borrowerWallet, 14, by decide +kernel⟩

/-- A request on its own. -/
def calmRun (s : Market) (dto : BorrowLoanDto) : List Asked × Except HttpError Offer × Market :=
  Exec.simulate calmMarket s (borrow plainSdk dto)

def calmEvents (s : Market) (dto : BorrowLoanDto) : List (Event Nat) :=
  .start 0 dto :: ((calmRun s dto).1.map (.exchange 0) ++ [.settle 0 (calmRun s dto).2.1])

theorem calmRun_run (s : Market) (dto : BorrowLoanDto) :
    Run (service plainSdk Nat).Step ⟨s, fun _ => none⟩
    (calmEvents s dto) ⟨(calmRun s dto).2.2, fun _ => none⟩ := by
  have hexec := Exec.of_simulate calmMarket_responds (borrow plainSdk dto) s
  exact Service.run_call (S := service plainSdk Nat) rfl hexec.trace hexec.run

theorem offers_within_policy_first :
    ((calmRun firstMarket firstRequest).2.2.chain.state.offer.get? ⟨3⟩).map
      LoanManager.LoanOffer.maxAmount = some 45000000 ∧
      Priced (calmRun firstMarket firstRequest).2.2.chain.state := by
  have hrun := calmRun_run firstMarket firstRequest
  generalize calmEvents firstMarket firstRequest = events at hrun
  refine ⟨by decide +kernel, ?_⟩
  generalize (calmRun firstMarket firstRequest).2.2 = last at hrun ⊢
  exact (offers_within_policy plainSdk_documented hrun).1

end Borrow

end Lendoor.Backend
