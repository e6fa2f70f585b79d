import Lendoor.Backend.CreditLine

/-! # The default penalty

`mark_default` zeroes a borrower's limit, and three jobs of the backend write limits
without a look at the default. The limit stays zero in the runs in which none of them is
poised to write it.
-/

namespace Lendoor.Backend

open Cctp (Text)
open Async (Trace Awaits AsksOnly Affords allSettled settled forEach total)

namespace CreditLine

variable {sdk : CreditSdk} {b : Address} {asked : List Asked} {wallet : Text}
  {score : Nat} {limit : Int}

/-! ## What leads to a write -/

/-- The renewals of `b` that are awaited. -/
def renewalCost (sdk : CreditSdk) (b : Address) : Ask → Nat
  | .giveCreditScoreAndLimit wallet _ _ => if sdk.scAddress wallet = b then 1 else 0
  | _ => 0

/-- The profiles of `b` that were read close to their end. -/
def renewalsDue (sdk : CreditSdk) (b : Address) (renewThreshold : Nat) : Asked → Nat
  | ⟨.readUserRisk wallet, .ok onChain⟩ =>
      if sdk.scAddress wallet = b ∧ expiring renewThreshold onChain = true then 1 else 0
  | _ => 0

/-- The last thing read is a profile of `b` off the ladder. -/
def ReadOffLadder (sdk : CreditSdk) (b : Address) (asked : List Asked) : Prop :=
  ∃ before userId onTimeLoans wallet onChain, asked = before ++
    [⟨.countOnTime userId, .ok onTimeLoans⟩, ⟨.readUserRisk wallet, .ok onChain⟩] ∧
      sdk.scAddress wallet = b ∧ offLadder onTimeLoans onChain = true

/-- After these exchanges the request goes on to write the profile of `b`: a `verify` past
its checks that has found no stored credit, or none on chain; a renewal that has read the
profile close to its end; a recalculation that has read it off the ladder. -/
inductive Poised (sdk : CreditSdk) (b : Address) : Request → List Asked → Prop
  | first {walletAddress wallet : Text} {platform : Option Text}
      {admitted : List Asked} {user : User} :
      normalizeWallet walletAddress = .ok wallet → sdk.scAddress wallet = b →
      Trace (admitUser sdk wallet (normalizePlatform sdk platform)) admitted (.ok user) →
      alreadyHasCredit user = false → Poised sdk b (.verify walletAddress platform) admitted
  | refresh {walletAddress wallet : Text} {platform : Option Text}
      {admitted : List Asked} {user : User}
      {onChainLimit : Int} :
      normalizeWallet walletAddress = .ok wallet → sdk.scAddress wallet = b →
      Trace (admitUser sdk wallet (normalizePlatform sdk platform)) admitted (.ok user) →
      alreadyHasCredit user = true → onChainLimit ≤ 0 →
      Poised sdk b (.verify walletAddress platform)
        (admitted ++ [⟨.readCreditLimitOnChain wallet, .ok onChainLimit⟩])
  | renewal {users : List User} {nowUnix : Nat} {asked : List Asked} :
      total (fun x => renewalCost sdk b x.1) asked <
        total (renewalsDue sdk b (nowUnix + 3 * 24 * 60 * 60)) asked →
      Poised sdk b .renewExpiredOffers
        (⟨.findVerifiedUsers, .ok users⟩ :: ⟨.now, .ok nowUnix⟩ :: asked)
  | recalculation {asked : List Asked} : ReadOffLadder sdk b asked →
      Poised sdk b .recalculateAllLimits asked

/-- A call that writes no profile. -/
def Unwritten : Ask → Prop
  | .giveCreditScoreAndLimit _ _ _ => False
  | _ => True

theorem setPlatform_asks (user : User) (platform : UserPlatform) :
    (setPlatform user platform).AsksOnly Unwritten :=
  .bind (.call trivial) fun _ => trivial

theorem fillPlatform_asks (user : User) (platformNorm : Option UserPlatform) :
    (fillPlatform user platformNorm).AsksOnly Unwritten := by
  cases platformNorm with
  | none => trivial
  | some platform =>
      simp only [fillPlatform]
      split
      · exact setPlatform_asks user platform
      · trivial

theorem assignPlatform_asks (user : User) (effectivePlatform : UserPlatform) :
    (assignPlatform user effectivePlatform).AsksOnly Unwritten := by
  unfold assignPlatform
  split
  · exact setPlatform_asks user effectivePlatform
  · trivial

theorem ensureSelfVerification_asks (user : User) :
    (ensureSelfVerificationForPlatform sdk user).AsksOnly Unwritten := by
  unfold ensureSelfVerificationForPlatform
  split
  · trivial
  · refine .bind (.call trivial) fun hasSelf => ?_
    split <;> trivial

theorem canAccessCredit_asks (user : User) (platform : UserPlatform) :
    (canAccessCredit user platform).AsksOnly Unwritten := by
  refine .bind (.call trivial) fun waitlistLimit => ?_
  split
  · trivial
  · exact .call trivial

theorem admitUser_asks (wallet : Text) (platformNorm : Option UserPlatform) :
    (admitUser sdk wallet platformNorm).AsksOnly Unwritten := by
  refine .bind (.call trivial) fun found => ?_
  split
  · trivial
  · split
    · trivial
    · split
      · trivial
      · refine .bind (fillPlatform_asks _ _) fun user =>
          .bind (assignPlatform_asks _ _) fun user => ?_
        split
        · trivial
        · refine .bind (ensureSelfVerification_asks user) fun _ => .bind (fillPlatform_asks _ _)
            fun user => .bind (canAccessCredit_asks _ _) fun allowed => ?_
          split <;> trivial

theorem verify_poised {walletAddress : Text} {platform : Option Text}
    (h : Awaits (verify sdk walletAddress platform) asked (.giveCreditScoreAndLimit
      wallet score limit))
    (hb : sdk.scAddress wallet = b) : Poised sdk b (.verify walletAddress platform) asked := by
  rcases Async.awaits_lift_bind.mp h with ⟨wallet', hwallet, hbody⟩
  rcases Async.awaits_bind.mp hbody with hadmit | ⟨user, admitted, rest, rfl, hadmit, hcredit⟩
  · exact absurd ((admitUser_asks _ _).awaits hadmit) id
  · split at hcredit
    · rename_i hhas
      rcases Async.awaits_call_bind.mp hcredit with ⟨-, hask⟩ | ⟨onChainLimit, rest, rfl, hread⟩
      · cases hask
      · split at hread
        · exact absurd hread Async.not_awaits_pure
        · rename_i hpositive
          rcases Async.awaits_caught_bind.mp hread with ⟨rfl, hask⟩ | ⟨result, rest, rfl, hgiven⟩
          · cases hask
            exact .refresh hwallet hb hadmit hhas (Int.not_lt.mp hpositive)
          · split at hgiven
            · exact absurd hgiven Async.not_awaits_throw
            · exact absurd hgiven Async.not_awaits_pure
    · rename_i hhas
      rcases Async.awaits_caught_bind.mp hcredit with ⟨rfl, hask⟩ | ⟨result, rest, rfl, hgiven⟩
      · cases hask
        rw [List.append_nil]
        exact .first hwallet hb hadmit (Bool.eq_false_iff.mpr hhas)
      · split at hgiven
        · exact absurd hgiven Async.not_awaits_throw
        · split at hgiven
          · exact absurd hgiven Async.not_awaits_throw
          · rcases Async.awaits_call_bind.mp hgiven with ⟨-, hask⟩ | ⟨_, rest, rfl, hupdated⟩
            · cases hask
            · rcases Async.awaits_call_bind.mp hupdated with ⟨-, hask⟩ | ⟨fresh, rest, rfl, hfound⟩
              · cases hask
              · split at hfound
                · exact absurd hfound Async.not_awaits_throw
                · exact absurd hfound Async.not_awaits_pure

theorem renewUser_affords (renewThreshold : Nat) (user : User) :
    (renewUser renewThreshold user).Affords (renewalsDue sdk b renewThreshold)
    (renewalCost sdk b) 0 := by
  unfold renewUser
  split
  · trivial
  · refine .caught_bind (Nat.zero_le _) fun read => ?_
    rcases read with error | onChain
    · trivial
    · dsimp only
      split
      · trivial
      · rename_i hexpiring
        split
        · trivial
        · refine .caught_bind ?_ fun _ => trivial
          simp [renewalCost, renewalsDue, Bool.not_eq_false _ ▸ hexpiring]

theorem renewBatches_affords (renewThreshold renewed : Nat) (batches : List (List User)) :
    (renewBatches renewThreshold renewed batches).Affords (renewalsDue sdk b renewThreshold)
      (renewalCost sdk b) 0 := by
  induction batches generalizing renewed with
  | nil => trivial
  | cons batch rest ih =>
      unfold renewBatches
      split
      · trivial
      · refine Affords.bind (m := 0) (.of_asksOnly (.call rfl)) fun order => ?_
        exact Affords.bind (m := 0) (.allSettled_map order batch fun user _ =>
          renewUser_affords renewThreshold user) fun results => ih _

theorem renewExpiredOffers_poised
    (h : Awaits renewExpiredOffers asked (.giveCreditScoreAndLimit wallet score limit))
    (hb : sdk.scAddress wallet = b) : Poised sdk b .renewExpiredOffers asked := by
  rcases Async.awaits_caught_bind.mp h with ⟨-, hask⟩ | ⟨found, rest, rfl, hfound⟩
  · cases hask
  · split at hfound
    · exact absurd hfound Async.not_awaits_pure
    · rename_i users
      split at hfound
      · exact absurd hfound Async.not_awaits_pure
      · rcases Async.awaits_call_bind.mp hfound with ⟨-, hask⟩ | ⟨nowUnix, rest, rfl, hbatches⟩
        · cases hask
        · refine .renewal ?_
          have haffords := @renewBatches_affords sdk b (nowUnix + 3 * 24 * 60 * 60) 0
            (users.toChunks batchSize)
          have hbudget := haffords.awaits hbatches
          have hcost : renewalCost sdk b (.giveCreditScoreAndLimit wallet score limit) = 1 :=
            if_pos hb
          rw [hcost, Nat.zero_add] at hbudget
          exact hbudget

theorem updateToStep_asks (onTimeLoans : Nat) (user : User) :
    (updateToStep onTimeLoans user).AsksOnly Unwritten := .call trivial

theorem syncRow_asks (onTimeLoans : Nat) (user : User) :
    (syncRow onTimeLoans user).AsksOnly Unwritten := by
  unfold syncRow
  split
  · trivial
  · exact updateToStep_asks onTimeLoans user

theorem recalcOnChain_reads {user : User}
    (h : Awaits (recalcOnChain user) asked (.giveCreditScoreAndLimit wallet score limit))
    (hb : sdk.scAddress wallet = b) : ReadOffLadder sdk b asked := by
  rcases Async.awaits_call_bind.mp h with ⟨-, hask⟩ | ⟨onTimeLoans, rest, rfl, hcount⟩
  · cases hask
  · rcases Async.awaits_call_bind.mp hcount with ⟨-, hask⟩ | ⟨onChain, rest, rfl, hread⟩
    · cases hask
    · split at hread
      · rename_i hoff
        rcases Async.awaits_call_bind.mp hread with ⟨rfl, hask⟩ | ⟨result, rest, rfl, hgiven⟩
        · cases hask
          exact ⟨[], user.id, onTimeLoans, user.walletAddress, onChain, rfl, hb, hoff⟩
        · split at hgiven
          · exact absurd hgiven Async.not_awaits_pure
          · rcases Async.awaits_bind.mp hgiven with hsync | ⟨_, before, after, rfl, -, hend⟩
            · exact absurd ((syncRow_asks _ _).awaits hsync) id
            · exact absurd hend Async.not_awaits_pure
      · split at hread
        · exact absurd hread Async.not_awaits_pure
        · rcases Async.awaits_bind.mp hread with hupdate | ⟨_, before, after, rfl, -, hend⟩
          · exact absurd ((updateToStep_asks _ _).awaits hupdate) id
          · exact absurd hend Async.not_awaits_pure

theorem ReadOffLadder.append_left (h : ReadOffLadder sdk b asked) (past : List Asked) :
    ReadOffLadder sdk b (past ++ asked) := by
  rcases h with ⟨before, userId, onTimeLoans, wallet, onChain, rfl, hb, hoff⟩
  exact ⟨past ++ before, userId, onTimeLoans, wallet, onChain, by simp, hb, hoff⟩

theorem recalcUser_reads {user : User}
    (h : Awaits (recalcUser user true) asked (.giveCreditScoreAndLimit wallet score limit))
    (hb : sdk.scAddress wallet = b) : ReadOffLadder sdk b asked := by
  unfold recalcUser at h
  split at h
  · exact absurd h Async.not_awaits_pure
  · rcases Async.awaits_bind.mp h with hsettled | ⟨_, before, after, rfl, -, hend⟩
    · exact recalcOnChain_reads (Async.awaits_settled hsettled) hb
    · exact absurd hend Async.not_awaits_pure

theorem recalcRow_asks (user : User) : (recalcRow user).AsksOnly Unwritten := by
  refine .bind (.call trivial) fun onTimeLoans => ?_
  split
  · trivial
  · exact .bind (updateToStep_asks onTimeLoans user) fun _ => trivial

theorem recalcBatch_asks (batch : List User) : (recalcBatch batch).AsksOnly Unwritten := by
  refine .bind (.call trivial) fun order =>
    .bind (.allSettled order fun p hp => ?_) fun _ => trivial
  rcases List.mem_map.mp hp with ⟨user, -, rfl⟩
  unfold recalcUser
  split
  · trivial
  · exact .bind (recalcRow_asks user).settled fun _ => trivial

theorem levelNeedsChainUpdate_asks (users : List User) :
    (levelNeedsChainUpdate users).AsksOnly Unwritten := by
  unfold levelNeedsChainUpdate
  split
  · trivial
  · exact .bind
      (AsksOnly.settled (.bind (.call trivial) fun _ => .bind (.call trivial) fun _ => trivial))
      fun _ => trivial

theorem recalcLevel_reads {users : List User}
    (h : Awaits (recalcLevel users) asked (.giveCreditScoreAndLimit wallet score limit))
    (hb : sdk.scAddress wallet = b) : ReadOffLadder sdk b asked := by
  rcases Async.awaits_bind.mp h with hcanary | ⟨chainUpdate, before, after, rfl, -, hlevel⟩
  · exact absurd ((levelNeedsChainUpdate_asks users).awaits hcanary) id
  · split at hlevel
    · rcases Async.awaits_forEach hlevel with ⟨user, -, first, last, rfl, huser⟩
      exact ((recalcUser_reads huser hb).append_left first).append_left before
    · rcases Async.awaits_forEach hlevel with ⟨batch, -, first, last, rfl, hbatch⟩
      exact absurd ((recalcBatch_asks batch).awaits hbatch) id

theorem recalculateAllLimits_poised
    (h : Awaits recalculateAllLimits asked (.giveCreditScoreAndLimit wallet score limit))
    (hb : sdk.scAddress wallet = b) : Poised sdk b .recalculateAllLimits asked := by
  rcases Async.awaits_caught_bind.mp h with ⟨-, hask⟩ | ⟨found, rest, rfl, hfound⟩
  · cases hask
  · split at hfound
    · exact absurd hfound Async.not_awaits_pure
    · rcases Async.awaits_forEach hfound with ⟨users, -, before, after, rfl, hlevel⟩
      exact .recalculation (((recalcLevel_reads hlevel hb).append_left before).append_left [_])

/-- A profile is written by a request that was poised to. -/
theorem Request.poised {request : Request}
    (h : Awaits (request.program sdk) asked (.giveCreditScoreAndLimit wallet score limit))
    (hb : sdk.scAddress wallet = b) : Poised sdk b request asked := by
  cases request with
  | verify walletAddress platform =>
      rcases Async.awaits_bind.mp h with hverify | ⟨_, before, after, rfl, -, hend⟩
      · exact verify_poised hverify hb
      · exact absurd hend Async.not_awaits_pure
  | renewExpiredOffers =>
      rcases Async.awaits_bind.mp h with hrenew | ⟨_, before, after, rfl, -, hend⟩
      · exact renewExpiredOffers_poised hrenew hb
      · exact absurd hend Async.not_awaits_pure
  | recalculateAllLimits =>
      rcases Async.awaits_bind.mp h with hrecalc | ⟨_, before, after, rfl, -, hend⟩
      · exact recalculateAllLimits_poised hrecalc hb
      · exact absurd hend Async.not_awaits_pure

/-! ## Runs -/

section Runs

variable {ι : Type}

/-- `mark_default(b)` went through, and nothing else happened. -/
def MarksDefault (b : Address) (u w : Pool ι) : Prop :=
  w.jobs = u.jobs ∧ ∃ e o, LoanManager.markDefault e u.shared.chain b = .ok o ∧
    w.shared = { u.shared with chain := o.state }

/-- No request is poised to write the profile of `b`. -/
def Calm (sdk : CreditSdk) (b : Address) (w : Pool ι) : Prop :=
  ∀ i job, w.jobs i = some job → ¬ Poised sdk b job.call job.asked

def ZeroLimit (b : Address) (s : CreditState) : Prop :=
  (LoanManager.getUserRisk s.chain b).limit = 0

theorem MarksDefault.zeroLimit {u w : Pool ι} (h : MarksDefault b u w) : ZeroLimit b w.shared := by
  rcases h with ⟨-, e, o, ho, hshared⟩
  rcases LoanManager.markDefault_spec ho with ⟨-, -, -, -, hstate⟩
  rw [ZeroLimit, hshared, hstate]
  exact LoanManager.zeroLimit_limit u.shared.chain b

theorem MarksDefault.defaulted {u w : Pool ι} (h : MarksDefault b u w) :
    LoanManager.isDefaulted w.shared.chain b = true := by
  rcases h with ⟨-, e, o, ho, hshared⟩
  rcases LoanManager.markDefault_spec ho with ⟨-, -, -, -, hstate⟩
  rw [hshared, hstate, LoanManager.isDefaulted, LoanManager.defaultedState_readLoan, if_pos rfl]

variable [DecidableEq ι]

/-- It is one of the steps that others take. -/
theorem MarksDefault.step {u w : Pool ι} (h : MarksDefault b u w) :
    (service sdk ι b).Step u .outside w := by
  rcases w with ⟨shared, jobs⟩
  rcases h with ⟨rfl, e, o, ho, rfl⟩
  have hexec : LoanManager.exec e u.shared.chain (.markDefault b) = .ok (o.as fun _ => .unit) := by
    rw [LoanManager.exec, ho]
    rfl
  exact .outside (.chain hexec (by simp))

/-- What is asked for writes the profile of `b` only by the gateway's call. -/
theorem ZeroLimit.does {s s' : CreditState} {ask : Ask} (h : ZeroLimit b s)
    (hdoes : s.Does sdk ask s')
    (hask : ∀ wallet score limit, ask = .giveCreditScoreAndLimit wallet score limit →
      sdk.scAddress wallet ≠ b) : ZeroLimit b s' := by
  unfold CreditState.Does at hdoes
  split at hdoes
  · rw [hdoes]
    exact h
  · rw [hdoes]
    exact h
  · rename_i wallet score limit
    rcases hdoes with ⟨-, -, -, e, validUntil, o, ho, rfl⟩
    simp only [LoanManager.setUserRisk, bind_eq_ok, pure_eq_ok] at ho
    rcases ho with ⟨_, -, _, -, rfl⟩
    have hne : b ≠ sdk.scAddress wallet := (hask wallet score limit rfl).symm
    rw [ZeroLimit, LoanManager.getUserRisk, Store.getD_set_of_ne _ hne]
    exact h
  · rw [hdoes]
    exact h

theorem ZeroLimit.responds {s s' : CreditState} {x : Asked} (h : ZeroLimit b s)
    (hx : Responds sdk s x s')
    (hask : ∀ wallet score limit, x.1 = .giveCreditScoreAndLimit wallet score limit →
      sdk.scAddress wallet ≠ b) : ZeroLimit b s' := by
  rcases x with ⟨ask, error | answer⟩
  · rcases hx with rfl | hdoes
    · exact h
    · exact h.does hdoes hask
  · exact h.does hx.2 hask

theorem ZeroLimit.outside {s s' : CreditState} (h : ZeroLimit b s) (hout : Outside b s s') :
    ZeroLimit b s' := by
  cases hout with
  | chain hexec hother => exact LoanManager.exec_keeps_zero_limit hexec hother h
  | tables => exact h

/-- Requests under way run their own programs. -/
def Programmed (sdk : CreditSdk) (w : Pool ι) : Prop :=
  ∀ i job, w.jobs i = some job → job.program = job.call.program sdk

theorem programmed_of_run {w₀ w : Pool ι} {events : List (Event ι)} (hidle : ∀ i, w₀.jobs i = none)
    (run : Run (service sdk ι b).Step w₀ events w) : Programmed sdk w := by
  intro i job hjob
  rcases Service.run_program run hidle i job hjob with ⟨s, hprogram⟩
  exact hprogram

theorem ZeroLimit.step {w w' : Pool ι} {event : Event ι} (h : ZeroLimit b w.shared)
    (hprogrammed : Programmed sdk w) (hcalm : Calm sdk b w)
    (hstep : (service sdk ι b).Step w event w') :
    ZeroLimit b w'.shared := by
  cases hstep with
  | start | settle => exact h
  | outside hout => exact h.outside hout
  | @exchange i job x s hjob hawaits hrespond =>
      refine h.responds hrespond fun wallet score limit hask hb => ?_
      rw [hask, hprogrammed i job hjob] at hawaits
      exact hcalm i job hjob (Request.poised hawaits hb)

/-- From a default on, the borrower's limit stays zero until the loan is settled, as long
as no request is poised to write it. -/
theorem default_zeroes_limit {w₀ u w w' : Pool ι} {past events : List (Event ι)}
    (hidle : ∀ i, w₀.jobs i = none) (before : Run (service sdk ι b).Step w₀ past u)
    (hdefault : MarksDefault b u w) (after : Run (service sdk ι b).Step w events w')
    (hopen : ∀ k v event v', StepAt (service sdk ι b).Step w events k v event v' →
      LoanManager.isDefaulted v'.shared.chain b = true)
    (hcalm : ∀ k v event v', StepAt (service sdk ι b).Step w events k v event v' →
      LoanManager.isDefaulted v.shared.chain b = true → Calm sdk b v) :
    (LoanManager.getUserRisk w'.shared.chain b).limit = 0 := by
  have hmarked := before.snoc (MarksDefault.step hdefault)
  have hsteps := after.with_steps (Q := fun v _ v' => Programmed sdk v ∧
    LoanManager.isDefaulted v'.shared.chain b = true ∧
      (LoanManager.isDefaulted v.shared.chain b = true → Calm sdk b v))
    fun k v event v' hat => ⟨programmed_of_run hidle (hmarked.append hat.before),
      hopen k v event v' hat, hcalm k v event v' hat⟩
  have hkept := hsteps.invariant
    (P := fun v => ZeroLimit b v.shared ∧ LoanManager.isDefaulted v.shared.chain b = true) ?_
    ⟨hdefault.zeroLimit, hdefault.defaulted⟩
  · exact hkept.1
  · intro v event v' hv hstep
    rcases hstep with ⟨htaken, hprogrammed, hstill, hcalm⟩
    exact ⟨hv.1.step hprogrammed (hcalm hv.2) htaken, hstill⟩

/-- What a request does to the chain leaves loans alone. -/
theorem step_loan {w w' : Pool ι} {event : Event ι} (hstep : (service sdk ι b).Step w event w')
    (hown : event ≠ .outside) : w'.shared.chain.loan = w.shared.chain.loan := by
  have hdoes : ∀ {ask : Ask} {s s' : CreditState}, s.Does sdk ask s' →
      s'.chain.loan = s.chain.loan := by
    intro ask s s' hdoes
    unfold CreditState.Does at hdoes
    split at hdoes
    · exact congrArg (fun s => s.chain.loan) hdoes
    · exact congrArg (fun s => s.chain.loan) hdoes
    · rcases hdoes with ⟨-, -, -, e, validUntil, o, ho, rfl⟩
      simp only [LoanManager.setUserRisk, bind_eq_ok, pure_eq_ok] at ho
      rcases ho with ⟨_, -, _, -, rfl⟩
      rfl
    · exact congrArg (fun s => s.chain.loan) hdoes
  cases hstep with
  | start | settle => rfl
  | outside => exact absurd rfl hown
  | @exchange i job x s hjob hawaits hrespond =>
      rcases x with ⟨ask, error | answer⟩
      · rcases hrespond with rfl | hlost
        · rfl
        · exact hdoes hlost
      · exact hdoes hrespond.2

/-- So a default stays one while requests run. -/
theorem still_defaulted {w : Pool ι} {events : List (Event ι)}
    (hown : ∀ event ∈ events, event ≠ .outside)
    (hdefaulted : LoanManager.isDefaulted w.shared.chain b = true) (k : Nat) (v : Pool ι)
    (event : Event ι) (v' : Pool ι) (hat : StepAt (service sdk ι b).Step w events k v event v') :
    LoanManager.isDefaulted v'.shared.chain b = true := by
  have hkept : v'.shared.chain.loan = w.shared.chain.loan := by
    have hevent := hown event (List.mem_of_getElem? hat.found)
    have hpast := hat.before.restrict (Q := fun event => event ≠ .outside) fun event hmem =>
      hown event (List.mem_of_mem_take hmem)
    refine (step_loan hat.taken hevent).trans ?_
    refine hpast.invariant (P := fun v => v.shared.chain.loan = w.shared.chain.loan) ?_ rfl
    intro v event v' hv hstep
    exact (step_loan hstep.1 hstep.2).trans hv
  rw [LoanManager.isDefaulted, LoanManager.State.readLoan, hkept]
  exact hdefaulted

end Runs

/-! ## A default that is lifted -/

def borrowerAccount : Text := 'G' :: (List.replicate 52 'A' ++ ['W', 'H', 'F'])

/-- The account is at address `3`, every other one at `4`. -/
def sampleSdk : CreditSdk where
  toLowerCase := id
  scAddress account := if account = borrowerAccount then ⟨3⟩ else ⟨4⟩

/-- The borrower's loan, up to the default. -/
def loanCalls : List LoanManager.Call :=
  [(.signedBy ⟨1⟩ 1000, .setUserRisk ⟨3⟩ 1 true 2593000 10000000),
    (.signedBy ⟨1⟩ 1000, .setLoanOffer ⟨3⟩ 7 500 2000 10000000),
    (.signedBy ⟨2⟩ 1000, .openLoan ⟨3⟩ 10000000 7 500)]

def borrower : User :=
  ⟨1, borrowerAccount, some "a@x.io".toList, some "dev".toList,
    some "webapp".toList, some 0, some 1, some 1000000000, 1⟩

/-- The state of the contract once the loan has been marked. -/
def marked? (s : LoanManager.State) : Option LoanManager.State :=
  (LoanManager.markDefault (.signedBy ⟨1⟩ 1988201) s ⟨3⟩).toOption.map Outcome.state

/-- The tables and the contract right after the default, with no request under way. -/
theorem sample_default : ∃ u w : Pool Nat, (∀ i, u.jobs i = none) ∧ MarksDefault ⟨3⟩ u w ∧
    w.shared.chain.owner = ⟨1⟩ ∧ w.shared.users = [borrower] ∧ w.shared.now = 1988201 ∧
    w.shared.riskView ⟨3⟩ = ⟨1, 2593000, 0⟩ := by
  have hcalls : ((Clocked.run? LoanManager.Call.time LoanManager.Call.exec
      ⟨1000, LoanManager.construct ⟨1⟩ ⟨2⟩⟩ loanCalls).bind fun s => (marked? s.state).map
        fun chain => (chain.owner, CreditState.riskView ⟨0, chain, [], fun _ => 0⟩ ⟨3⟩)) =
      some (⟨1⟩, ⟨1, 2593000, 0⟩) := by
    decide +kernel
  rcases Option.bind_eq_some_iff.mp hcalls with ⟨s, -, hs⟩
  rcases Option.map_eq_some_iff.mp hs with ⟨chain, hchain, hview⟩
  rcases Prod.mk.inj hview with ⟨howner, hrisk⟩
  rcases exists_ok_of_toOption_map hchain with ⟨o, hmark, rfl⟩
  exact ⟨⟨⟨1988201, s.state, [borrower], fun _ => 0⟩, fun _ => none⟩,
    ⟨⟨1988201, o.state, [borrower], fun _ => 0⟩, fun _ => none⟩, fun _ => rfl,
    ⟨rfl, _, o, hmark, rfl⟩, howner, rfl, rfl, hrisk⟩

theorem sample_call {w : Pool Nat} {request : Request} {out : Except HttpError (Option Verified)}
    {s' : CreditState} (hidle : w.jobs 0 = none)
    (htrace : Trace (request.program sampleSdk) asked out)
    (hchain : Run (Responds sampleSdk) w.shared asked s') :
    Run (service sampleSdk Nat ⟨3⟩).Step w
      (.start 0 request :: (asked.map (.exchange 0) ++ [.settle 0 out])) ⟨s', w.jobs⟩ :=
  Service.run_call hidle htrace hchain

/-- A renewal after the default, which finds the borrower's profile with time to run. -/
def renewing : List Asked :=
  [⟨.findVerifiedUsers, .ok [borrower]⟩, ⟨.now, .ok 1988201⟩, ⟨.schedule, .ok []⟩,
    ⟨.readUserRisk borrowerAccount, .ok (some ⟨1, 2593000, 0⟩)⟩]

/-- What that renewal has read does not lead to a write. -/
theorem not_poised_renewing {asked : List Asked} (hasked : ∀ x ∈ asked, x ∈ renewing) :
    ¬ Poised sampleSdk ⟨3⟩ .renewExpiredOffers asked := by
  rintro ⟨⟩
  rename_i users nowUnix asked hdue
  have hnow : nowUnix = 1988201 := by
    have hmem := hasked ⟨.now, .ok nowUnix⟩ (by simp)
    simp only [renewing, List.mem_cons, List.not_mem_nil, or_false] at hmem
    rcases hmem with hmem | hmem | hmem | hmem <;> cases hmem
    rfl
  subst hnow
  refine absurd (Async.total_eq_zero fun x hx => ?_)
    (Nat.ne_of_gt (Nat.lt_of_le_of_lt (Nat.zero_le _) hdue))
  have hmem := hasked x (List.mem_cons_of_mem _ (List.mem_cons_of_mem _ hx))
  simp only [renewing, List.mem_cons, List.not_mem_nil, or_false] at hmem
  rcases hmem with rfl | rfl | rfl | rfl <;> decide

theorem renewing_run {s : CreditState} (husers : s.users = [borrower]) (hnow : s.now = 1988201)
    (hview : s.riskView ⟨3⟩ = ⟨1, 2593000, 0⟩) : Run (Responds sampleSdk) s renewing s := by
  have hvalid : isValidStellarPublicKey borrowerAccount = true := by decide +kernel
  have hfind : Responds sampleSdk s ⟨.findVerifiedUsers, .ok [borrower]⟩ s := by
    refine ⟨?_, rfl⟩
    rw [CreditState.Answers, husers]
    rfl
  have hclock : Responds sampleSdk s ⟨.now, .ok 1988201⟩ s := ⟨hnow.symm, rfl⟩
  have horder : Responds sampleSdk s ⟨.schedule, .ok []⟩ s := ⟨trivial, rfl⟩
  have hread : Responds sampleSdk s ⟨.readUserRisk borrowerAccount, .ok (some ⟨1, 2593000, 0⟩)⟩ s :=
    ⟨⟨hvalid, .inr (congrArg some hview.symm)⟩, rfl⟩
  exact ((((Run.nil _).snoc hfind).snoc hclock).snoc horder).snoc hread

theorem default_zeroes_limit_renewal :
    ∃ u w w' : Pool Nat, MarksDefault ⟨3⟩ u w ∧
      Run (service sampleSdk Nat ⟨3⟩).Step w
        (.start 0 .renewExpiredOffers :: (renewing.map (.exchange 0) ++ [.settle 0 (.ok none)]))
          w' ∧
      (LoanManager.getUserRisk w'.shared.chain ⟨3⟩).limit = 0 := by
  rcases sample_default with ⟨u, w, hidle, hdefault, -, husers, hnow, hview⟩
  have hnone : ∀ i, w.jobs i = none := fun i => hdefault.1 ▸ hidle i
  have htrace : Trace (Request.renewExpiredOffers.program sampleSdk) renewing (.ok none) :=
    Async.trace_of_replay (by decide +kernel)
  have hrun := sample_call (hnone 0) htrace (renewing_run husers hnow hview)
  refine ⟨u, w, _, hdefault, hrun, ?_⟩
  refine default_zeroes_limit hidle (Run.nil u) hdefault hrun
    (still_defaulted (by simp [renewing]) hdefault.defaulted) fun k v event v' hat _ i job hjob =>
    ?_
  -- the renewal is the one call under way
  rcases Service.events_of_job hat.before hnone hjob with ⟨hstart, hexchanges⟩
  have hcall : job.call = .renewExpiredOffers := by
    have hmem := List.mem_of_mem_take hstart
    simp only [renewing, List.map_cons, List.map_nil, List.cons_append, List.nil_append,
      List.mem_cons, List.not_mem_nil, or_false, reduceCtorEq, ThreadEvent.start.injEq] at hmem
    exact hmem.2
  rw [hcall]
  refine not_poised_renewing fun x hx => ?_
  have hmem := List.mem_of_mem_take (hexchanges x hx)
  simp only [List.mem_cons, List.mem_append, List.mem_map, List.not_mem_nil, or_false, reduceCtorEq,
    false_or] at hmem
  rcases hmem with ⟨y, hy, heq⟩
  cases heq
  exact hy

/-- The exchanges of a `verify` for the borrower. -/
def refreshing : List Asked :=
  [⟨.findUser borrowerAccount, .ok (some borrower)⟩, ⟨.getUserUntilWaitlist .webapp, .ok 0⟩,
    ⟨.readCreditLimitOnChain borrowerAccount, .ok 0⟩,
    ⟨.giveCreditScoreAndLimit borrowerAccount 1 10000000, .ok 200⟩]

/-- A limit of zero is a credit limit of zero. -/
theorem ZeroLimit.creditLimit {s : CreditState} (h : ZeroLimit b s) (e : Env) :
    LoanManager.creditLimit e s.chain b = 0 := by
  unfold LoanManager.creditLimit
  split
  · rfl
  · rename_i risk hrisk
    have hlimit : risk.limit = 0 := by
      rw [ZeroLimit, LoanManager.getUserRisk, Store.getD, hrisk] at h
      exact h
    rw [hlimit]
    split
    · rfl
    · split <;> rfl

/-- A `verify` after the default reads the zero as an expired offer. -/
theorem default_limit_restored :
    ¬ ∀ (w₀ u w w' : Pool Nat) (past events : List (Event Nat)), (∀ i, w₀.jobs i = none) →
      Run (service sampleSdk Nat ⟨3⟩).Step w₀ past u → MarksDefault ⟨3⟩ u w →
      Run (service sampleSdk Nat ⟨3⟩).Step w events w' →
      (∀ k v event v', StepAt (service sampleSdk Nat ⟨3⟩).Step w events k v event v' →
        LoanManager.isDefaulted v'.shared.chain ⟨3⟩ = true) →
      (LoanManager.getUserRisk w'.shared.chain ⟨3⟩).limit = 0 := by
  intro h
  rcases sample_default with ⟨u, w, hidle, hdefault, howner, husers, -, -⟩
  have hnone : w.jobs 0 = none := hdefault.1 ▸ hidle 0
  have hvalid : isValidStellarPublicKey borrowerAccount = true := by decide +kernel
  have htrace : Trace (Request.program sampleSdk (.verify borrowerAccount none)) refreshing
      (.ok (some { alreadyHadCredit := true, refreshedOnChain := true, id := 1,
                   walletAddress := borrowerAccount, score := some 1, creditLimit :=
                     some 1000000000 })) :=
    Async.trace_of_replay (by decide +kernel)
  have hfind : Responds sampleSdk w.shared ⟨.findUser borrowerAccount,
      .ok (some borrower)⟩ w.shared := by
    refine ⟨?_, rfl⟩
    rw [CreditState.Answers, husers]
    rfl
  have hwaitlist : Responds sampleSdk w.shared ⟨.getUserUntilWaitlist .webapp, .ok 0⟩ w.shared :=
    ⟨trivial, rfl⟩
  have hread : Responds sampleSdk w.shared ⟨.readCreditLimitOnChain borrowerAccount, .ok 0⟩
      w.shared :=
    ⟨⟨hvalid, .signedBy ⟨1⟩ 0, (hdefault.zeroLimit.creditLimit _).symm⟩, rfl⟩
  have hset : LoanManager.setUserRisk (.signedBy ⟨1⟩ 1988202) w.shared.chain ⟨3⟩ 1
      true 4580202 10000000 =
      .ok ⟨{ w.shared.chain with
        risk := w.shared.chain.risk.set ⟨3⟩ ⟨1, true, 4580202, 1988202, 10000000⟩ },
        [.riskset ⟨3⟩ 10000000], ()⟩ := by
    have hauth : (Env.signedBy ⟨1⟩ 1988202).requireAuth w.shared.chain.owner = .ok () := by
      rw [howner]
      rfl
    rw [LoanManager.setUserRisk, hauth]
    rfl
  have hgive : Responds sampleSdk w.shared ⟨.giveCreditScoreAndLimit borrowerAccount 1 10000000,
      .ok 200⟩
      { w.shared with chain := { w.shared.chain with
        risk := w.shared.chain.risk.set ⟨3⟩ ⟨1, true, 4580202, 1988202, 10000000⟩ } } :=
    ⟨rfl, hvalid, by decide, by decide, _, _, _, hset, rfl⟩
  have hrun :=
    sample_call hnone htrace ((((Run.nil _).snoc hfind).snoc hwaitlist).snoc hread |>.snoc hgive)
  have hzero := h u u w _ [] _ hidle (Run.nil u) hdefault hrun
    (still_defaulted (by simp [refreshing]) hdefault.defaulted)
  simp [LoanManager.getUserRisk] at hzero

end CreditLine

end Lendoor.Backend
