import Lendoor.Backend.DefaultPenalty
import Lendoor.Core.Paging

/-! # One run of the ladder recalculation

What `recalculateAllLimits` leaves in the tables and on chain when no read and no write
fails: every row is at its step, and the profile on chain is where the canary of its level
was off the ladder, or where it already was.
-/

namespace Lendoor.Backend.CreditLine

open Cctp (Text)
open Async (call caught lift forEach settled allSettled Exchange Trace Shuffles)

variable {sdk : CreditSdk} {s s' t : CreditState} {asked : List Asked} {x : Asked}

/-! ## Calls that get through -/

/-- The call was answered, and a profile that was read was there. -/
def Smooth : Asked → Prop
  | ⟨.readUserRisk _, .ok found⟩ => found ≠ none
  | ⟨_, .ok _⟩ => True
  | ⟨_, .error _⟩ => False

theorem not_smooth {ask : Ask} {error : HttpError} : ¬Smooth ⟨ask, .error error⟩ := by
  cases ask <;> exact id

/-- What is known of an answered call: counts are those of the table, writes return 200. -/
def Seen (onTime : Nat → Nat) : Asked → Prop
  | ⟨.countOnTime userId, .ok n⟩ => n = onTime userId
  | ⟨.giveCreditScoreAndLimit _ _ _, .ok code⟩ => code = 200
  | _ => True

/-- The step a user's on-time loans earn. -/
def CreditState.step (s : CreditState) (id : Nat) : CreditLadderStep :=
  getStepForOnTimeLoans (s.onTime id)

/-- What is written is the step of whom it is written for. -/
def Right (s : CreditState) (users : List User) : Ask → Prop
  | .updateCredit id score limit _ => score = (s.step id).score ∧
      limit = toUnits (s.step id).limitUsdc
  | .giveCreditScoreAndLimit wallet score limit => ∃ user ∈ users, user.walletAddress ≠ [] ∧
      user.walletAddress = wallet ∧ score = (s.step user.id).score ∧
      limit = toUnits (s.step user.id).limitUsdc
  | .updatePlatform _ _ => False
  | _ => True

/-- The rows of this id are at the step. -/
def RowOn (s : CreditState) (id : Nat) : Prop :=
  ∀ row ∈ s.users, row.id = id → row.score = some (s.step id).score ∧
    row.creditLimit = some (100 * (toUnits (s.step id).limitUsdc : Int))

/-- The profile on chain is at the step. -/
def ChainOn (sdk : CreditSdk) (s : CreditState) (user : User) : Prop :=
  offLadder (s.onTime user.id) (some (s.riskView (sdk.scAddress user.walletAddress))) = false

instance : Decidable (ChainOn sdk s user) := inferInstanceAs (Decidable (_ = false))

/-- No two users share an id or an account. -/
structure Keyed (sdk : CreditSdk) (users : List User) : Prop where
  ids : ∀ u ∈ users, ∀ v ∈ users, u.id = v.id → u = v
  accounts : ∀ u ∈ users, ∀ v ∈ users, u.walletAddress ≠ [] → v.walletAddress ≠ [] →
    sdk.scAddress u.walletAddress = sdk.scAddress v.walletAddress → u = v

theorem Responds.seen (h : Responds sdk s x s') : Seen s.onTime x := by
  rcases x with ⟨ask, error | answer⟩
  · cases ask <;> trivial
  · cases ask with
    | countOnTime | giveCreditScoreAndLimit => exact h.1
    | _ => trivial

theorem CreditState.Does.onTime {ask : Ask} (h : s.Does sdk ask s') : s'.onTime = s.onTime := by
  unfold CreditState.Does at h
  split at h
  · rw [h]; rfl
  · rw [h]; rfl
  · rcases h with ⟨-, -, -, e, validUntil, o, -, rfl⟩
    rfl
  · rw [h]

theorem Responds.onTime (h : Responds sdk s x s') : s'.onTime = s.onTime := by
  rcases x with ⟨ask, error | answer⟩
  · rcases h with rfl | hdoes
    · rfl
    · exact hdoes.onTime
  · exact h.2.onTime

theorem Responds.step_eq (h : Responds sdk s x s') (id : Nat) : s'.step id = s.step id := by
  rw [CreditState.step, h.onTime, CreditState.step]

/-- What an answered call does to the rows: none, or the columns of one id. -/
theorem Responds.rows {users : List User} (h : Responds sdk s x s') (hsmooth : Smooth x)
    (hright : Right s users x.1) :
    (s'.users = s.users ∧ ∀ id score limit xp, x.1 ≠ .updateCredit id score limit xp) ∨
      ∃ id score limit xp, x.1 = .updateCredit id score limit xp ∧
        s'.users = s.users.map fun row => if row.id = id then
          { row with score := some score, creditLimit := some (100 * limit), xp := xp.getD row.xp }
            else row := by
  rcases x with ⟨ask, error | answer⟩
  · exact absurd hsmooth not_smooth
  · have hdoes := h.2
    cases ask with
    | updatePlatform => cases hright
    | updateCredit id score limit xp =>
        rw [show s' = _ from hdoes]
        exact .inr ⟨id, score, limit, xp, rfl, rfl⟩
    | giveCreditScoreAndLimit =>
        rcases hdoes with ⟨-, -, -, e, validUntil, o, -, rfl⟩
        exact .inl ⟨rfl, by simp⟩
    | _ =>
        rw [show s' = s from hdoes]
        exact .inl ⟨rfl, by simp⟩

/-- What an answered call does to a profile: nothing, or it writes it. -/
theorem Responds.profile (h : Responds sdk s x s') (hsmooth : Smooth x) (a : Address) :
    (s'.riskView a = s.riskView a ∧ ∀ wallet score limit,
        x.1 = .giveCreditScoreAndLimit wallet score limit → sdk.scAddress wallet ≠ a) ∨
      ∃ wallet score limit, x.1 = .giveCreditScoreAndLimit wallet score limit ∧
        sdk.scAddress wallet = a ∧ (s'.riskView a).score = score ∧
          (s'.riskView a).limit = limit := by
  rcases x with ⟨ask, error | answer⟩
  · exact absurd hsmooth not_smooth
  · have hdoes := h.2
    cases ask with
    | giveCreditScoreAndLimit wallet score limit =>
        rcases hdoes with ⟨-, -, -, e, validUntil, o, ho, rfl⟩
        simp only [LoanManager.setUserRisk, bind_eq_ok, pure_eq_ok] at ho
        rcases ho with ⟨_, -, _, -, rfl⟩
        by_cases ha : sdk.scAddress wallet = a
        · refine .inr ⟨wallet, score, limit, rfl, ha, ?_, ?_⟩ <;>
            simp [CreditState.riskView, LoanManager.getUserRisk, ha]
        · refine .inl ⟨?_, fun wallet' _ _ hask => by cases hask; exact ha⟩
          simp only [CreditState.riskView, LoanManager.getUserRisk,
            Store.getD_set_of_ne _ (Ne.symm ha)]
    | updatePlatform | updateCredit =>
        rw [show s' = _ from hdoes]
        exact .inl ⟨rfl, by simp⟩
    | _ =>
        rw [show s' = s from hdoes]
        exact .inl ⟨rfl, by simp⟩

/-- Rows at their step stay there under right writes. -/
theorem RowOn.responds {id : Nat} {users : List User} (h : RowOn s id) (hx : Responds sdk s x s')
    (hsmooth : Smooth x) (hright : Right s users x.1) : RowOn s' id := by
  unfold RowOn
  rw [hx.step_eq]
  rcases hx.rows hsmooth hright with ⟨hrows, -⟩ | ⟨id', score, limit, xp, hask, hrows⟩
  · rw [hrows]
    exact h
  · rw [hask] at hright
    intro row hrow hid
    rw [hrows] at hrow
    rcases List.mem_map.mp hrow with ⟨old, hold, rfl⟩
    split at hid
    · rename_i hsame
      rw [if_pos hsame]
      simp only at hid ⊢
      rw [hright.1, hright.2, ← hsame, hid]
      exact ⟨rfl, rfl⟩
    · rename_i hother
      rw [if_neg hother]
      exact h old hold hid

/-- The update of an id puts its rows at the step. -/
theorem Responds.rowOn {id score limit : Nat} {xp : Option Nat} {users : List User}
    (hx : Responds sdk s x s') (hsmooth : Smooth x) (hright : Right s users x.1)
    (hask : x.1 = .updateCredit id score limit xp) : RowOn s' id := by
  unfold RowOn
  rw [hx.step_eq]
  rcases hx.rows hsmooth hright with ⟨-, hnone⟩ | ⟨id', score', limit', xp', hask', hrows⟩
  · exact absurd hask (hnone _ _ _ _)
  · rw [hask] at hask'
    cases hask'
    rw [hask] at hright
    intro row hrow hid
    rw [hrows] at hrow
    rcases List.mem_map.mp hrow with ⟨old, hold, rfl⟩
    split at hid
    · rename_i hsame
      rw [if_pos hsame, hright.1, hright.2]
      exact ⟨rfl, rfl⟩
    · rename_i hother
      exact absurd hid hother

theorem chainOn_iff {user : User} : ChainOn sdk s user ↔
    (s.riskView (sdk.scAddress user.walletAddress)).score = (s.step user.id).score ∧
      (s.riskView (sdk.scAddress user.walletAddress)).limit =
        toUnits (s.step user.id).limitUsdc := by
  simp [ChainOn, offLadder, CreditState.step]

/-- A profile is left alone, or a right write puts it at the step. -/
theorem Responds.chain {users : List User} {user : User} (hkeyed : Keyed sdk users)
    (huser : user ∈ users)
    (hwallet : user.walletAddress ≠ []) (hx : Responds sdk s x s') (hsmooth : Smooth x)
    (hright : Right s users x.1) :
    (s'.riskView (sdk.scAddress user.walletAddress) =
      s.riskView (sdk.scAddress user.walletAddress) ∧
      ∀ score limit, x.1 ≠ .giveCreditScoreAndLimit user.walletAddress score limit) ∨
      (ChainOn sdk s' user ∧
        ∃ score limit, x.1 = .giveCreditScoreAndLimit user.walletAddress score limit) := by
  rcases hx.profile hsmooth (sdk.scAddress user.walletAddress) with
    ⟨hsame, hnone⟩ | ⟨wallet, score, limit, hask, haddress, hscore, hlimit⟩
  · exact .inl ⟨hsame, fun score limit hask => hnone _ _ _ hask rfl⟩
  · rw [hask] at hright
    rcases hright with ⟨owner, howner, hwallet', rfl, rfl, rfl⟩
    have hown := hkeyed.accounts owner howner user huser hwallet' hwallet haddress
    subst hown
    refine .inr ⟨chainOn_iff.mpr ?_, _, _, hask⟩
    rw [hx.step_eq]
    exact ⟨hscore, hlimit⟩

/-! ## Runs of calls that get through -/

theorem Right.congr {users : List User} {ask : Ask} (h : Right s users ask)
    (honTime : s'.onTime = s.onTime) :
    Right s' users ask := by
  have hstep : s'.step = s.step := by
    funext id
    rw [CreditState.step, honTime, CreditState.step]
  unfold Right at h ⊢
  rwa [hstep]

/-- A run of answered calls whose writes are right. -/
structure Answered (sdk : CreditSdk) (users : List User) (s : CreditState) (asked : List Asked)
    (t : CreditState) : Prop where
  run : Run (Responds sdk) s asked t
  smooth : ∀ x ∈ asked, Smooth x
  right : ∀ x ∈ asked, Right s users x.1

section Answered

variable {users : List User}

theorem onTime_of_run (run : Run (Responds sdk) s asked t) : t.onTime = s.onTime :=
  run.invariant (P := fun u => u.onTime = s.onTime) (fun _ _ _ hu hstep => hstep.onTime.trans hu)
    rfl

/-- What a right, answered call preserves holds after the run. -/
theorem Answered.invariant {P : CreditState → Prop} (h : Answered sdk users s asked t)
    (keep : ∀ u x v, x ∈ asked → P u → Responds sdk u x v → Smooth x → Right u users x.1 → P v)
    (start : P s) : P t := by
  have hrun := h.run.restrict (Q := fun x => x ∈ asked) fun _ hx => hx
  refine (hrun.invariant (P := fun u => u.onTime = s.onTime ∧ P u) ?_ ⟨rfl, start⟩).2
  rintro u x v ⟨honTime, hu⟩ ⟨hx, hmem⟩
  exact ⟨hx.onTime.trans honTime,
    keep u x v hmem hu hx (h.smooth x hmem) ((h.right x hmem).congr honTime)⟩

theorem Answered.onTime (h : Answered sdk users s asked t) :
    t.onTime = s.onTime := onTime_of_run h.run

theorem Answered.rowOn {id : Nat} (h : Answered sdk users s asked t) (hon : RowOn s id) :
    RowOn t id :=
  h.invariant (P := fun u => RowOn u id)
    (fun _ _ _ _ hu hx hsmooth hright => hu.responds hx hsmooth hright) hon

theorem Answered.ids (h : Answered sdk users s asked t) :
    t.users.map User.id = s.users.map User.id := by
  refine h.invariant (P := fun u => u.users.map User.id = s.users.map User.id) ?_ rfl
  intro u x v _ hu hx hsmooth hright
  rw [← hu]
  rcases hx.rows hsmooth hright with ⟨hrows, -⟩ | ⟨id, score, limit, xp, -, hrows⟩
  · rw [hrows]
  · rw [hrows, List.map_map]
    refine List.map_congr_left fun row _ => ?_
    simp only [Function.comp_apply]
    split <;> rfl

/-- A run up to one of its calls, the call, and the run after it. -/
theorem Answered.split {before after : List Asked}
    (h : Answered sdk users s (before ++ x :: after) t) :
    ∃ u v, Answered sdk users s before u ∧ Responds sdk u x v ∧ Smooth x ∧ Right u users x.1 ∧
      Answered sdk users v after t := by
  rcases h.run.append_inv with ⟨u, hbefore, hrest⟩
  rcases hrest.cons_inv with ⟨v, hx, hafter⟩
  have hu := onTime_of_run hbefore
  refine ⟨u, v,
    ⟨hbefore, fun y hy => h.smooth y (by simp [hy]), fun y hy => h.right y (by simp [hy])⟩,
    hx, h.smooth x (by simp), (h.right x (by simp)).congr hu, hafter,
    fun y hy => h.smooth y (by simp [hy]), fun y hy => ?_⟩
  exact (h.right y (by simp [hy])).congr (hx.onTime.trans hu)

/-- An id that was updated is at its step at the end. -/
theorem Answered.rowOn_of_update {id score limit : Nat} {xp : Option Nat}
    (h : Answered sdk users s asked t) (hx : x ∈ asked)
    (hask : x.1 = .updateCredit id score limit xp) :
    RowOn t id := by
  rcases List.append_of_mem hx with ⟨before, after, rfl⟩
  rcases h.split with ⟨u, v, -, hresponds, hsmooth, hright, hafter⟩
  exact hafter.rowOn (hresponds.rowOn hsmooth hright hask)

theorem Answered.append {asked' : List Asked} (h : Answered sdk users s asked t)
    (h' : Answered sdk users t asked' s') : Answered sdk users s (asked ++ asked') s' := by
  refine ⟨h.run.append h'.run, fun x hx => ?_, fun x hx => ?_⟩
  · exact (List.mem_append.mp hx).elim (h.smooth x) (h'.smooth x)
  · exact (List.mem_append.mp hx).elim (h.right x) fun hx => (h'.right x hx).congr h.onTime.symm

theorem Right.mono {all : List User} {ask : Ask} (h : Right s users ask)
    (hsub : ∀ user ∈ users, user ∈ all) : Right s all ask := by
  cases ask with
  | giveCreditScoreAndLimit =>
      rcases h with ⟨user, huser, hrest⟩
      exact ⟨user, hsub user huser, hrest⟩
  | _ => exact h

theorem Answered.widen {all : List User} (h : Answered sdk users s asked t)
    (hsub : ∀ user ∈ users, user ∈ all) : Answered sdk all s asked t :=
  ⟨h.run, h.smooth, fun x hx => (h.right x hx).mono hsub⟩

variable {user : User} (hkeyed : Keyed sdk users) (huser : user ∈ users)
  (hwallet : user.walletAddress ≠ [])

include hkeyed huser hwallet

theorem Answered.chainOn (h : Answered sdk users s asked t) (hon : ChainOn sdk s user) :
    ChainOn sdk t user := by
  refine h.invariant (P := fun u => ChainOn sdk u user) (fun u x v _ hu hx hsmooth hright => ?_) hon
  rcases hx.chain hkeyed huser hwallet hsmooth hright with ⟨hsame, -⟩ | ⟨hon, -⟩
  · rw [ChainOn, hx.onTime, hsame]
    exact hu
  · exact hon

theorem Answered.written {score : Nat} {limit : Int}
    (h : Answered sdk users s asked t) (hx : x ∈ asked)
    (hask : x.1 = .giveCreditScoreAndLimit user.walletAddress score limit) :
    ChainOn sdk t user := by
  rcases List.append_of_mem hx with ⟨before, after, rfl⟩
  rcases h.split with ⟨u, v, -, hresponds, hsmooth, hright, hafter⟩
  rcases hresponds.chain hkeyed huser hwallet hsmooth hright with ⟨-, hnone⟩ | ⟨hon, -⟩
  · exact absurd hask (hnone _ _)
  · exact hafter.chainOn hkeyed huser hwallet hon

theorem Answered.unwritten (h : Answered sdk users s asked t)
    (hnone : ∀ x ∈ asked,
      ∀ score limit, x.1 ≠ .giveCreditScoreAndLimit user.walletAddress score limit) :
    t.riskView (sdk.scAddress user.walletAddress) =
      s.riskView (sdk.scAddress user.walletAddress) := by
  refine h.invariant (P := fun u => u.riskView (sdk.scAddress user.walletAddress) =
    s.riskView (sdk.scAddress user.walletAddress)) (fun u x v hmem hu hx hsmooth hright => ?_) rfl
  rcases hx.chain hkeyed huser hwallet hsmooth hright with ⟨hsame, -⟩ | ⟨-, score, limit, hask⟩
  · exact hsame.trans hu
  · exact absurd hask (hnone x hmem _ _)

end Answered

/-! ## What the recalculation asks -/

/-- What is written for a user with so many on-time loans. -/
def RightFor (onTimeLoans : Nat) (user : User) : Ask → Prop
  | .updateCredit id score limit _ => id = user.id ∧
      score = (getStepForOnTimeLoans onTimeLoans).score ∧
      limit = toUnits (getStepForOnTimeLoans onTimeLoans).limitUsdc
  | .giveCreditScoreAndLimit wallet score limit => wallet = user.walletAddress ∧
      score = (getStepForOnTimeLoans onTimeLoans).score ∧
      limit = toUnits (getStepForOnTimeLoans onTimeLoans).limitUsdc
  | .updatePlatform _ _ => False
  | _ => True

variable {user : User} {users level : List User} {n : Nat}

theorem RightFor.right {ask : Ask} (h : RightFor (s.onTime user.id) user ask) (huser : user ∈ users)
    (hwallet : user.walletAddress ≠ []) : Right s users ask := by
  cases ask with
  | updateCredit id score limit xp =>
      rcases h with ⟨rfl, rfl, rfl⟩
      exact ⟨rfl, rfl⟩
  | giveCreditScoreAndLimit wallet score limit =>
      rcases h with ⟨rfl, rfl, rfl⟩
      exact ⟨user, huser, hwallet, rfl, rfl, rfl⟩
  | updatePlatform => cases h
  | _ => trivial

/-- The row of the user was updated. -/
def Updated (user : User) (asked : List Asked) : Prop :=
  ∃ x ∈ asked, ∃ score limit xp, x.1 = .updateCredit user.id score limit xp

/-- The profile of the user was written. -/
def Written (user : User) (asked : List Asked) : Prop :=
  ∃ x ∈ asked, ∃ score limit, x.1 = .giveCreditScoreAndLimit user.walletAddress score limit

theorem updateToStep_asks_right (n : Nat) (user : User) :
    (updateToStep n user).AsksOnly (RightFor n user) :=
  .call ⟨rfl, rfl, rfl⟩

/-- What `recalcUser` asks once it knows the on-time loans. -/
structure Recalculates (n : Nat) (user : User) (asked : List Asked) : Prop where
  right : ∀ x ∈ asked, RightFor n user x.1
  row : dbInSync n user = true ∨ Updated user asked

theorem updateToStep_recalculates {out : Except HttpError Unit}
    (h : Trace (updateToStep n user) asked out) :
    Recalculates n user asked := by
  refine ⟨fun x hx => (updateToStep_asks_right n user).of_mem_trace h x hx, .inr ?_⟩
  rw [updateToStep, Async.trace_call] at h
  exact ⟨_, h ▸ List.mem_singleton_self _, _, _, _, rfl⟩

theorem syncRow_recalculates {out : Except HttpError Unit} (h : Trace (syncRow n user) asked out) :
    Recalculates n user asked := by
  unfold syncRow at h
  split at h
  · rename_i hsync
    rw [(Async.trace_pure.mp h).1]
    exact ⟨by simp, .inl hsync⟩
  · exact updateToStep_recalculates h

theorem Recalculates.cons (h : Recalculates n user asked) (hx : RightFor n user x.1) :
    Recalculates n user (x :: asked) := by
  refine ⟨fun y hy => ?_, h.row.imp_right ?_⟩
  · rcases List.mem_cons.mp hy with rfl | hy
    · exact hx
    · exact h.right y hy
  · rintro ⟨y, hy, hask⟩
    exact ⟨y, by simp [hy], hask⟩

theorem recalcRow_recalculates {out : Except HttpError Recalculated}
    (h : Trace (recalcRow user) asked out)
    (hsmooth : ∀ x ∈ asked, Smooth x) : ∃ n rest, asked = ⟨.countOnTime user.id, .ok n⟩ :: rest ∧
      Recalculates n user rest := by
  rcases Async.trace_call_bind.mp h with ⟨error, rfl, -⟩ | ⟨n, rest, rfl, hcounted⟩
  · exact absurd (hsmooth _ List.mem_cons_self) not_smooth
  · refine ⟨n, rest, rfl, ?_⟩
    split at hcounted
    · rename_i hsync
      rw [(Async.trace_pure.mp hcounted).1]
      exact ⟨by simp, .inl hsync⟩
    · rcases Async.trace_bind_pure.mp hcounted with ⟨r, hupdate, -⟩
      exact updateToStep_recalculates hupdate

theorem recalcOnChain_recalculates {onTime : Nat → Nat} {out : Except HttpError Recalculated}
    (h : Trace (recalcOnChain user) asked out) (hsmooth : ∀ x ∈ asked, Smooth x)
    (hseen : ∀ x ∈ asked, Seen onTime x) : ∃ n found rest,
      asked = ⟨.countOnTime user.id, .ok n⟩ :: ⟨.readUserRisk user.walletAddress, .ok found⟩ ::
        rest ∧
        Recalculates n user rest ∧ (offLadder n found = true → Written user rest) := by
  rcases Async.trace_call_bind.mp h with ⟨error, rfl, -⟩ | ⟨n, rest, rfl, hcounted⟩
  · exact absurd (hsmooth _ List.mem_cons_self) not_smooth
  · rcases Async.trace_call_bind.mp hcounted with ⟨error, rfl, -⟩ | ⟨found, rest, rfl, hread⟩
    · exact absurd (hsmooth _ (List.mem_cons_of_mem _ List.mem_cons_self)) not_smooth
    · refine ⟨n, found, rest, rfl, ?_⟩
      split at hread
      · rcases Async.trace_call_bind.mp hread with ⟨error, rfl, -⟩ | ⟨code, rest, rfl, hgiven⟩
        · exact absurd
            (hsmooth _ (List.mem_cons_of_mem _ (List.mem_cons_of_mem _ List.mem_cons_self)))
            not_smooth
        · have hcode : code = 200 :=
            hseen _ (List.mem_cons_of_mem _ (List.mem_cons_of_mem _ List.mem_cons_self))
          rw [if_neg (by simpa using hcode)] at hgiven
          rcases Async.trace_bind_pure.mp hgiven with ⟨r, hsync, -⟩
          exact ⟨(syncRow_recalculates hsync).cons ⟨rfl, rfl, rfl⟩,
            fun _ => ⟨_, List.mem_cons_self, _, _, rfl⟩⟩
      · rename_i hon
        refine ⟨?_, fun hoff => absurd hoff hon⟩
        split at hread
        · rename_i hsync
          rw [(Async.trace_pure.mp hread).1]
          exact ⟨by simp, .inl hsync⟩
        · rcases Async.trace_bind_pure.mp hread with ⟨r, hupdate, -⟩
          exact updateToStep_recalculates hupdate

/-! ## One user -/

theorem seen_of_run (run : Run (Responds sdk) s asked t) : ∀ x ∈ asked, Seen s.onTime x := by
  intro x hx
  rcases List.append_of_mem hx with ⟨before, after, rfl⟩
  rcases run.append_inv with ⟨u, hbefore, hrest⟩
  rcases hrest.cons_inv with ⟨v, hresponds, -⟩
  rw [← onTime_of_run hbefore]
  exact hresponds.seen

/-- A count and a read find what is there, and leave it. -/
theorem counted_and_read {id : Nat} {wallet : Text} {found : Option RiskView}
    (run : Run (Responds sdk) s (⟨.countOnTime id, .ok n⟩ :: ⟨.readUserRisk wallet, .ok found⟩ ::
      asked) t)
    (hsmooth : ∀ x ∈ (⟨.countOnTime id, .ok n⟩ :: ⟨.readUserRisk wallet, .ok found⟩ ::
      asked : List Asked), Smooth x) :
    n = s.onTime id ∧ found = some (s.riskView (sdk.scAddress wallet)) ∧
      Run (Responds sdk) s asked t := by
  rcases run.cons_inv with ⟨u, ⟨hn, hu⟩, hrest⟩
  rcases hrest.cons_inv with ⟨v, ⟨⟨-, hfound⟩, hv⟩, hend⟩
  have hu : u = s := hu
  have hv : v = u := hv
  subst hu hv
  rcases hfound with rfl | hfound
  · exact absurd rfl (hsmooth _ (List.mem_cons_of_mem _ List.mem_cons_self))
  · exact ⟨hn, hfound, hend⟩

theorem recalcUser_inv {checkChain : Bool} {out : Except HttpError Recalculated}
    (h : Trace (recalcUser user checkChain) asked out) : (∃ r, out = .ok r) ∧
      (user.walletAddress = [] ∧ asked = [] ∨ user.walletAddress ≠ [] ∧
        ∃ r, Trace (if checkChain = true then recalcOnChain user else recalcRow user) asked r) := by
  unfold recalcUser at h
  split at h
  · rename_i hwallet
    rcases Async.trace_pure.mp h with ⟨rfl, rfl⟩
    exact ⟨⟨_, rfl⟩, .inl ⟨hwallet, rfl⟩⟩
  · rename_i hwallet
    rcases Async.trace_bind_pure.mp h with ⟨settled, hsettled, rfl⟩
    rcases Async.trace_settled.mp hsettled with ⟨r, rfl, htrace⟩
    exact ⟨⟨_, rfl⟩, .inr ⟨hwallet, r, htrace⟩⟩

section User

variable {checkChain : Bool} {out : Except HttpError Recalculated}

theorem recalcUser_recalculates {onTime : Nat → Nat}
    (h : Trace (recalcUser user checkChain) asked out)
    (hsmooth : ∀ x ∈ asked, Smooth x) (hseen : ∀ x ∈ asked, Seen onTime x)
    (hwallet : user.walletAddress ≠ []) : Recalculates (onTime user.id) user asked := by
  rcases (recalcUser_inv h).2 with ⟨hnone, -⟩ | ⟨-, r, htrace⟩
  · exact absurd hnone hwallet
  · cases checkChain with
    | true =>
        rcases recalcOnChain_recalculates htrace hsmooth hseen with ⟨n, found, rest, rfl, hrest, -⟩
        rw [← show n = onTime user.id from hseen _ List.mem_cons_self]
        exact (hrest.cons (x := ⟨.readUserRisk _, _⟩) trivial).cons trivial
    | false =>
        rcases recalcRow_recalculates htrace hsmooth with ⟨n, rest, rfl, hrest⟩
        rw [← show n = onTime user.id from hseen _ List.mem_cons_self]
        exact hrest.cons trivial

theorem recalcUser_right (h : Trace (recalcUser user checkChain) asked out)
    (hsmooth : ∀ x ∈ asked, Smooth x) (hseen : ∀ x ∈ asked, Seen s.onTime x)
    (huser : user ∈ users) :
    ∀ x ∈ asked, Right s users x.1 := by
  by_cases hwallet : user.walletAddress = []
  · rcases (recalcUser_inv h).2 with ⟨-, rfl⟩ | ⟨hsome, -⟩
    · simp
    · exact absurd hwallet hsome
  · exact fun x hx =>
      ((recalcUser_recalculates h hsmooth hseen hwallet).right x hx).right huser hwallet

/-- The check on chain leaves the profile at the step. -/
theorem recalcUser_chain (hkeyed : Keyed sdk users) (huser : user ∈ users)
    (hwallet : user.walletAddress ≠ [])
    (h : Exec (Responds sdk) s (recalcUser user true) asked out t)
    (hsmooth : ∀ x ∈ asked, Smooth x) : ChainOn sdk t user := by
  have hseen := seen_of_run h.run
  have hanswered : Answered sdk users s asked t :=
    ⟨h.run, hsmooth, recalcUser_right h.trace hsmooth hseen huser⟩
  rcases (recalcUser_inv h.trace).2 with ⟨hnone, -⟩ | ⟨-, r, htrace⟩
  · exact absurd hnone hwallet
  · rcases recalcOnChain_recalculates htrace hsmooth hseen with ⟨n, found, rest, rfl, -, hwritten⟩
    by_cases hoff : offLadder n found = true
    · rcases hwritten hoff with ⟨x, hx, score, limit, hask⟩
      exact hanswered.written hkeyed huser hwallet
        (List.mem_cons_of_mem _ (List.mem_cons_of_mem _ hx)) hask
    · refine hanswered.chainOn hkeyed huser hwallet ?_
      rcases counted_and_read h.run hsmooth with ⟨rfl, rfl, -⟩
      exact Bool.eq_false_iff.mpr hoff

end User

/-! ## One level -/

/-- The canary of a level is not at its step. -/
def canaryOff (sdk : CreditSdk) (s : CreditState) (level : List User) : Bool :=
  match level.find? fun user => user.walletAddress ≠ [] with
  | none => false
  | some canary =>
      offLadder (s.onTime canary.id) (some (s.riskView (sdk.scAddress canary.walletAddress)))

theorem levelNeedsChainUpdate_inv {out : Except HttpError Bool}
    (h : Exec (Responds sdk) s (levelNeedsChainUpdate level) asked out t)
    (hsmooth : ∀ x ∈ asked, Smooth x) : out = .ok (canaryOff sdk s level) ∧ t = s := by
  unfold levelNeedsChainUpdate at h
  split at h
  · rename_i hnone
    rcases Exec.pure_iff.mp h with ⟨-, rfl, rfl⟩
    rw [canaryOff, hnone]
    exact ⟨rfl, rfl⟩
  · rename_i canary hsome
    rw [canaryOff, hsome]
    rcases Async.trace_bind_pure.mp h.trace with ⟨r, hsettled, rfl⟩
    rcases Async.trace_settled.mp hsettled with ⟨r, rfl, htrace⟩
    rcases Async.trace_call_bind.mp htrace with ⟨error, rfl, -⟩ | ⟨n, rest, rfl, hcounted⟩
    · exact absurd (hsmooth _ List.mem_cons_self) not_smooth
    · rcases Async.trace_call_bind.mp hcounted with ⟨error, rfl, -⟩ | ⟨found, rest, rfl, hread⟩
      · exact absurd (hsmooth _ (List.mem_cons_of_mem _ List.mem_cons_self)) not_smooth
      · rcases Async.trace_pure.mp hread with ⟨rfl, rfl⟩
        rcases counted_and_read h.run hsmooth with ⟨rfl, rfl, hend⟩
        exact ⟨rfl, hend.nil_inv.symm⟩

theorem levelNeedsChainUpdate_right (level : List User) :
    (levelNeedsChainUpdate level).AsksOnly (Right s users) := by
  unfold levelNeedsChainUpdate
  split
  · trivial
  · exact .bind
      (Async.AsksOnly.settled
      (.bind (.call trivial) fun _ => .bind (.call trivial) fun _ => trivial))
      fun _ => trivial

theorem Updated.mono {sub : List Asked} (h : Updated user sub) (hsub : ∀ x ∈ sub, x ∈ asked) :
    Updated user asked := by
  rcases h with ⟨x, hx, hask⟩
  exact ⟨x, hsub x hx, hask⟩

section Batch

variable {batch : List User} {out : Except HttpError Unit}

theorem recalcBatch_inv (h : Trace (recalcBatch batch) asked out)
    (hsmooth : ∀ x ∈ asked, Smooth x) :
    out = .ok () ∧ ∃ order rest, asked = ⟨.schedule, .ok order⟩ :: rest ∧
      Shuffles rest (batch.map fun user => recalcUser user false) := by
  rcases Async.trace_call_bind.mp h with ⟨error, rfl, -⟩ | ⟨order, rest, rfl, hrest⟩
  · exact absurd (hsmooth _ List.mem_cons_self) not_smooth
  · rcases Async.trace_bind_pure.mp hrest with ⟨r, htrace, rfl⟩
    rcases Async.trace_allSettled htrace with ⟨results, rfl⟩
    exact ⟨rfl, order, rest, rfl, .allSettled order htrace⟩

theorem recalcBatch_right (h : Trace (recalcBatch batch) asked out)
    (hsmooth : ∀ x ∈ asked, Smooth x)
    (hseen : ∀ x ∈ asked, Seen s.onTime x) (hbatch : ∀ user ∈ batch, user ∈ users) :
    ∀ x ∈ asked, Right s users x.1 := by
  rcases (recalcBatch_inv h hsmooth).2 with ⟨order, rest, rfl, hshuffles⟩
  intro x hx
  rcases List.mem_cons.mp hx with rfl | hx
  · trivial
  · rcases hshuffles.all x hx with ⟨p, hp, sub, r, hsub, htrace, hmem⟩
    rcases List.mem_map.mp hp with ⟨user, huser, rfl⟩
    exact recalcUser_right htrace (fun y hy => hsmooth y (List.mem_cons_of_mem _ (hsub.subset hy)))
      (fun y hy => hseen y (List.mem_cons_of_mem _ (hsub.subset hy))) (hbatch user huser) x hmem

theorem recalcBatch_row {onTime : Nat → Nat} (h : Trace (recalcBatch batch) asked out)
    (hsmooth : ∀ x ∈ asked, Smooth x) (hseen : ∀ x ∈ asked, Seen onTime x) (huser : user ∈ batch)
    (hwallet : user.walletAddress ≠ []) :
    dbInSync (onTime user.id) user = true ∨ Updated user asked := by
  rcases (recalcBatch_inv h hsmooth).2 with ⟨order, rest, rfl, hshuffles⟩
  rcases hshuffles.each _ (List.mem_map_of_mem huser) with ⟨sub, r, hsub, htrace⟩
  have hmem : ∀ x ∈ sub, x ∈ (⟨.schedule, .ok order⟩ :: rest : List Asked) :=
    fun x hx => List.mem_cons_of_mem _ (hsub.subset hx)
  exact (recalcUser_recalculates htrace (fun x hx => hsmooth x (hmem x hx))
    (fun x hx => hseen x (hmem x hx)) hwallet).row.imp_right fun hupdated => hupdated.mono hmem

end Batch

/-- Every user with the check on chain, one after the other. -/
def fullCheck (users : List User) : Program Unit := forEach users fun user => recalcUser user true

/-- Only the rows, in batches. -/
def rowCheck (users : List User) : Program Unit := forEach (users.toChunks batchSize) recalcBatch

section Level

variable {out : Except HttpError Unit}

theorem fullCheck_right (h : Trace (fullCheck level) asked out) (hsmooth : ∀ x ∈ asked, Smooth x)
    (hseen : ∀ x ∈ asked, Seen s.onTime x) (hlevel : ∀ user ∈ level, user ∈ users) :
    ∀ x ∈ asked, Right s users x.1 := by
  intro x hx
  rcases Async.mem_trace_forEach h hx with ⟨user, huser, sub, r, hsub, htrace, hmem⟩
  exact recalcUser_right htrace (fun y hy => hsmooth y (hsub.subset hy))
    (fun y hy => hseen y (hsub.subset hy)) (hlevel user huser) x hmem

theorem rowCheck_right (h : Trace (rowCheck level) asked out) (hsmooth : ∀ x ∈ asked, Smooth x)
    (hseen : ∀ x ∈ asked, Seen s.onTime x) (hlevel : ∀ user ∈ level, user ∈ users) :
    ∀ x ∈ asked, Right s users x.1 := by
  intro x hx
  rcases Async.mem_trace_forEach h hx with ⟨batch, hbatch, sub, r, hsub, htrace, hmem⟩
  exact recalcBatch_right htrace (fun y hy => hsmooth y (hsub.subset hy))
    (fun y hy => hseen y (hsub.subset hy))
    (fun user huser => hlevel user (mem_toChunks.mpr ⟨batch, hbatch, huser⟩)) x hmem

theorem rowCheck_asks (level : List User) : (rowCheck level).AsksOnly Unwritten :=
  .forEach fun batch _ => recalcBatch_asks batch

/-- The full check puts every user at the step, in the tables and on chain. -/
theorem fullCheck_spec (hkeyed : Keyed sdk users) (hlevel : ∀ user ∈ level, user ∈ users)
    (h : Exec (Responds sdk) s (fullCheck level) asked out t) (hsmooth : ∀ x ∈ asked, Smooth x) :
    out = .ok () ∧ ∀ user ∈ level, user.walletAddress ≠ [] →
      (dbInSync (s.onTime user.id) user = true ∨ Updated user asked) ∧ ChainOn sdk t user := by
  have hseen := seen_of_run h.run
  rcases h.forEach_inv with ⟨user, huser, before, sub, error, u, rfl, hthrow⟩ | ⟨hout, heach⟩
  · rcases (recalcUser_inv hthrow.trace).1 with ⟨r, hr⟩
    cases hr
  · refine ⟨hout, fun user huser hwallet => ?_⟩
    rcases heach user huser with ⟨before, sub, after, u, v, r, rfl, hbefore, hbody, hafter⟩
    have hsub : ∀ x ∈ sub, x ∈ before ++ (sub ++ after) := fun x hx => by simp [hx]
    have hlast : ∀ x ∈ after, x ∈ before ++ (sub ++ after) := fun x hx => by simp [hx]
    have hv : v.onTime = s.onTime := (onTime_of_run hbody.run).trans (onTime_of_run hbefore)
    have hafter : Answered sdk users v after t := by
      refine ⟨hafter, fun x hx => hsmooth x (hlast x hx), fun x hx => ?_⟩
      exact (fullCheck_right h.trace hsmooth hseen hlevel x (hlast x hx)).congr hv
    constructor
    · exact (recalcUser_recalculates hbody.trace (fun x hx => hsmooth x (hsub x hx))
        (fun x hx => hseen x (hsub x hx)) hwallet).row.imp_right fun hupdated => hupdated.mono hsub
    · exact hafter.chainOn hkeyed (hlevel user huser) hwallet
        (recalcUser_chain hkeyed (hlevel user huser) hwallet hbody fun x hx =>
          hsmooth x (hsub x hx))

/-- The check of the rows asks for the updates that are missing. -/
theorem rowCheck_spec (h : Exec (Responds sdk) s (rowCheck level) asked out t)
    (hsmooth : ∀ x ∈ asked, Smooth x) : out = .ok () ∧ ∀ user ∈ level, user.walletAddress ≠ [] →
      dbInSync (s.onTime user.id) user = true ∨ Updated user asked := by
  have hseen := seen_of_run h.run
  rcases h.forEach_inv with ⟨batch, -, before, sub, error, u, rfl, hthrow⟩ | ⟨hout, heach⟩
  · cases (recalcBatch_inv hthrow.trace fun x hx => hsmooth x (by simp [hx])).1
  · refine ⟨hout, fun user huser hwallet => ?_⟩
    rcases mem_toChunks.mp huser with ⟨batch, hbatch, huser⟩
    rcases heach batch hbatch with ⟨before, sub, after, u, v, r, rfl, -, hbody, -⟩
    have hsub : ∀ x ∈ sub, x ∈ before ++ (sub ++ after) := fun x hx => by simp [hx]
    exact (recalcBatch_row hbody.trace (fun x hx => hsmooth x (hsub x hx))
      (fun x hx => hseen x (hsub x hx)) huser hwallet).imp_right fun hupdated => hupdated.mono hsub

theorem recalcLevel_right (h : Trace (recalcLevel level) asked out)
    (hsmooth : ∀ x ∈ asked, Smooth x)
    (hseen : ∀ x ∈ asked, Seen s.onTime x) (hlevel : ∀ user ∈ level, user ∈ users) :
    ∀ x ∈ asked, Right s users x.1 := by
  rcases Async.trace_bind.mp h with ⟨error, hcanary, -⟩ |
    ⟨chainUpdate, first, rest, rfl, hcanary, hrest⟩
  · exact fun x hx => (levelNeedsChainUpdate_right level).of_mem_trace hcanary x hx
  · intro x hx
    rcases List.mem_append.mp hx with hx | hx
    · exact (levelNeedsChainUpdate_right level).of_mem_trace hcanary x hx
    · have hsmooth : ∀ y ∈ rest, Smooth y := fun y hy => hsmooth y (by simp [hy])
      have hseen : ∀ y ∈ rest, Seen s.onTime y := fun y hy => hseen y (by simp [hy])
      split at hrest
      · exact fullCheck_right hrest hsmooth hseen hlevel x hx
      · exact rowCheck_right hrest hsmooth hseen hlevel x hx

/-- A level puts every row at the step, and every profile if its canary was off. -/
theorem recalcLevel_spec (hkeyed : Keyed sdk users) (hlevel : ∀ user ∈ level, user ∈ users)
    (h : Exec (Responds sdk) s (recalcLevel level) asked out t) (hsmooth : ∀ x ∈ asked, Smooth x) :
    out = .ok () ∧ Answered sdk level s asked t ∧ ∀ user ∈ level, user.walletAddress ≠ [] →
      (dbInSync (s.onTime user.id) user = true ∨ Updated user asked) ∧
        (ChainOn sdk t user ↔ canaryOff sdk s level = true ∨ ChainOn sdk s user) := by
  have hseen := seen_of_run h.run
  have hanswered : Answered sdk level s asked t :=
    ⟨h.run, hsmooth, recalcLevel_right h.trace hsmooth hseen fun _ hu => hu⟩
  have hwide : Answered sdk users s asked t :=
    ⟨h.run, hsmooth, recalcLevel_right h.trace hsmooth hseen hlevel⟩
  rcases h.bind_inv with ⟨error, hthrow, -⟩ | ⟨chainUpdate, u, first, rest, rfl, hfirst, hrest⟩
  · cases (levelNeedsChainUpdate_inv hthrow hsmooth).1
  · rcases levelNeedsChainUpdate_inv hfirst fun x hx => hsmooth x (by simp [hx]) with ⟨hout, rfl⟩
    cases hout
    have hsmooth : ∀ x ∈ rest, Smooth x := fun x hx => hsmooth x (by simp [hx])
    have hmem : ∀ x ∈ rest, x ∈ first ++ rest := fun x hx => by simp [hx]
    split at hrest
    · rename_i hoff
      rcases fullCheck_spec hkeyed hlevel hrest hsmooth with ⟨hout, hdone⟩
      refine ⟨hout, hanswered, fun user huser hwallet => ⟨?_, ?_⟩⟩
      · exact (hdone user huser hwallet).1.imp_right fun hupdated => hupdated.mono hmem
      · exact iff_of_true (hdone user huser hwallet).2 (.inl hoff)
    · rename_i hon
      rcases rowCheck_spec hrest hsmooth with ⟨hout, hdone⟩
      refine ⟨hout, hanswered, fun user huser hwallet => ⟨?_, ?_⟩⟩
      · exact (hdone user huser hwallet).imp_right fun hupdated => hupdated.mono hmem
      · have hsame :=
          hwide.unwritten hkeyed (hlevel user huser) hwallet fun x hx score limit hask => by
          rcases List.mem_append.mp hx with hx | hx
          · have hquiet := (levelNeedsChainUpdate_asks level).of_mem_trace hfirst.trace x hx
            rw [hask] at hquiet
            exact hquiet
          · have hquiet := (rowCheck_asks level).of_mem_trace hrest.trace x hx
            rw [hask] at hquiet
            exact hquiet
        rw [ChainOn, hwide.onTime, hsame, or_iff_right hon, ChainOn]

end Level

/-! ## The whole run -/

theorem canaryOff_congr (honTime : t.onTime = s.onTime)
    (hsame : ∀ user ∈ level, user.walletAddress ≠ [] →
    t.riskView (sdk.scAddress user.walletAddress) = s.riskView (sdk.scAddress user.walletAddress)) :
    canaryOff sdk t level = canaryOff sdk s level := by
  unfold canaryOff
  split
  · rfl
  · rename_i canary hcanary
    have hwallet := List.find?_some hcanary
    rw [honTime, hsame canary (List.mem_of_find?_eq_some hcanary) (by simpa using hwallet)]

/-- Over all levels: each does its own users, and no other profile changes. -/
theorem levels_spec {levels : List (List User)} {out : Except HttpError Unit}
    (hkeyed : Keyed sdk users)
    (hlevels : ∀ level ∈ levels, ∀ user ∈ level, user ∈ users)
    (hapart : levels.Pairwise fun level other => ∀ user ∈ level, user ∉ other)
    (h : Exec (Responds sdk) s (forEach levels recalcLevel) asked out t)
    (hsmooth : ∀ x ∈ asked, Smooth x) :
    Answered sdk users s asked t ∧
      (∀ user ∈ users, user.walletAddress ≠ [] → (∀ level ∈ levels, user ∉ level) →
        t.riskView (sdk.scAddress user.walletAddress) =
          s.riskView (sdk.scAddress user.walletAddress)) ∧
      ∀ level ∈ levels, ∀ user ∈ level, user.walletAddress ≠ [] →
        (dbInSync (s.onTime user.id) user = true ∨ Updated user asked) ∧
          (ChainOn sdk t user ↔ canaryOff sdk s level = true ∨ ChainOn sdk s user) := by
  induction levels generalizing s asked with
  | nil =>
      rcases Exec.pure_iff.mp h with ⟨rfl, -, rfl⟩
      exact ⟨⟨h.run, by simp, by simp⟩, fun _ _ _ _ => rfl, by simp⟩
  | cons level levels ih =>
      rcases List.forall_mem_cons.mp hlevels with ⟨hlevel, hlevels⟩
      rcases List.pairwise_cons.mp hapart with ⟨hapart, hrest⟩
      rcases h.bind_inv with ⟨error, hthrow, -⟩ | ⟨_, u, first, rest, rfl, hfirst, hothers⟩
      · cases (recalcLevel_spec hkeyed hlevel hthrow hsmooth).1
      · have hsmooth₁ : ∀ x ∈ first, Smooth x := fun x hx => hsmooth x (by simp [hx])
        have hsmooth₂ : ∀ x ∈ rest, Smooth x := fun x hx => hsmooth x (by simp [hx])
        rcases recalcLevel_spec hkeyed hlevel hfirst hsmooth₁ with ⟨-, hown, hdone⟩
        rcases ih hlevels hrest hothers hsmooth₂ with ⟨hafter, hsame, hothers⟩
        have hu : u.onTime = s.onTime := hown.onTime
        -- the first level writes the profiles of its own users only
        have hfirst : ∀ user ∈ users, user.walletAddress ≠ [] → user ∉ level →
            u.riskView (sdk.scAddress user.walletAddress) =
              s.riskView (sdk.scAddress user.walletAddress) := by
          intro user huser hwallet hnot
          refine (hown.widen hlevel).unwritten hkeyed huser hwallet fun x hx score limit hask =>
            hnot ?_
          have hright := hown.right x hx
          rw [hask] at hright
          rcases hright with ⟨owner, howner, hwallet', hown', -, -⟩
          rwa [← hkeyed.accounts owner (hlevel owner howner) user huser hwallet'
            hwallet (by rw [hown'])]
        refine ⟨(hown.widen hlevel).append hafter, fun user huser hwallet hnot => ?_, ?_⟩
        · rcases List.forall_mem_cons.mp hnot with ⟨hnot, hnots⟩
          exact (hsame user huser hwallet hnots).trans (hfirst user huser hwallet hnot)
        · intro other hother user huser hwallet
          rcases List.mem_cons.mp hother with rfl | hother
          · rcases hdone user huser hwallet with ⟨hrow, hchain⟩
            refine ⟨hrow.imp_right fun hupdated => hupdated.mono fun x hx => by simp [hx], ?_⟩
            rw [← hchain, ChainOn, hafter.onTime, hsame user (hlevel user huser) hwallet
              fun next hnext hmem => hapart next hnext user huser hmem, ChainOn]
          · have huser' := hlevels other hother
            have hkept : ∀ v ∈ other, v.walletAddress ≠ [] →
                u.riskView (sdk.scAddress v.walletAddress) =
                s.riskView (sdk.scAddress v.walletAddress) :=
              fun v hv hwallet => hfirst v (huser' v hv) hwallet fun hmem =>
                hapart other hother v hmem hv
            rcases hothers other hother user huser hwallet with ⟨hrow, hchain⟩
            rw [hu] at hrow
            refine ⟨hrow.imp_right fun hupdated => hupdated.mono fun x hx => by simp [hx], ?_⟩
            rw [hchain, canaryOff_congr hu hkept, ChainOn, hu, hkept user huser hwallet, ChainOn]

theorem climb_limit_pos {reached : CreditLadderStep → Bool} (best : CreditLadderStep)
    (steps : List CreditLadderStep) (hbest : 0 < best.limitUsdc)
    (hsteps : ∀ step ∈ steps, 0 < step.limitUsdc) :
    0 < (climb reached best steps).limitUsdc := by
  induction steps generalizing best with
  | nil => exact hbest
  | cons step rest ih =>
      rw [climb]
      split
      · exact ih step (hsteps step (by simp)) fun next hnext => hsteps next (by simp [hnext])
      · exact hbest

theorem limitUsdc_pos (onTimeLoans : Nat) : 0 < (getStepForOnTimeLoans onTimeLoans).limitUsdc :=
  climb_limit_pos _ _ (by decide) (by decide)

/-- A row that needs no update is at the step. -/
theorem rowOn_of_dbInSync (hkeyed : Keyed sdk s.users) (huser : user ∈ s.users)
    (hscore : user.score ≠ none)
    (hsync : dbInSync (s.onTime user.id) user = true) : RowOn s user.id := by
  intro row hrow hid
  have hsame := hkeyed.ids row hrow user huser hid
  subst hsame
  have hlimit := limitUsdc_pos (s.onTime row.id)
  simp only [dbInSync, Bool.and_eq_true, decide_eq_true_eq] at hsync
  rcases Option.ne_none_iff_exists'.mp hscore with ⟨score, hscore⟩
  rw [hscore] at hsync ⊢
  refine ⟨congrArg some hsync.1, ?_⟩
  cases hstored : row.creditLimit with
  | none =>
      rw [hstored, toUnits] at hsync
      have hzero := hsync.2
      simp only [Option.getD_none] at hzero
      omega
  | some limit =>
      rw [hstored] at hsync
      exact congrArg some hsync.2

/-- The user is at the step, in the tables and on chain. -/
def OnLadder (sdk : CreditSdk) (s : CreditState) (user : User) : Prop :=
  (∃ row ∈ s.users, row.id = user.id) ∧ RowOn s user.id ∧ ChainOn sdk s user

theorem Answered.row (hkeyed : Keyed sdk s.users) (huser : user ∈ s.users)
    (hscore : user.score ≠ none)
    (h : Answered sdk s.users s asked t)
    (hrow : dbInSync (s.onTime user.id) user = true ∨ Updated user asked) :
    (∃ row ∈ t.users, row.id = user.id) ∧ RowOn t user.id := by
  constructor
  · have hid : user.id ∈ t.users.map User.id := h.ids ▸ List.mem_map_of_mem huser
    rcases List.mem_map.mp hid with ⟨row, hrow, hid⟩
    exact ⟨row, hrow, hid⟩
  · rcases hrow with hsync | ⟨x, hx, score, limit, xp, hask⟩
    · exact h.rowOn (rowOn_of_dbInSync hkeyed huser hscore hsync)
    · exact h.rowOn_of_update hx hask

/-- The users of the recalculation: those with a score. -/
def verifiedUsers (s : CreditState) : List User := s.users.filter fun user => user.score.isSome

theorem mem_verifiedUsers : user ∈ verifiedUsers s ↔ user ∈ s.users ∧ user.score ≠ none := by
  simp [verifiedUsers, Option.isSome_iff_ne_none]

/-- With the check on chain for every user, every user ends at the step. -/
theorem fullCheck_onLadder {out : Except HttpError Unit} (hkeyed : Keyed sdk s.users)
    (h : Exec (Responds sdk) s (fullCheck (verifiedUsers s)) asked out t)
    (hsmooth : ∀ x ∈ asked, Smooth x) :
    ∀ user ∈ s.users, user.score ≠ none → user.walletAddress ≠ [] → OnLadder sdk t user := by
  intro user huser hscore hwallet
  have hverified : ∀ user ∈ verifiedUsers s, user ∈ s.users :=
    fun u hu => (mem_verifiedUsers.mp hu).1
  rcases (fullCheck_spec hkeyed hverified h hsmooth).2 user
    (mem_verifiedUsers.mpr ⟨huser, hscore⟩) hwallet with
    ⟨hrow, hchain⟩
  have hanswered : Answered sdk s.users s asked t :=
    ⟨h.run, hsmooth, fullCheck_right h.trace hsmooth (seen_of_run h.run) hverified⟩
  rcases hanswered.row hkeyed huser hscore hrow with ⟨hrow, hon⟩
  exact ⟨hrow, hon, hchain⟩

/-- The recalculation puts every user at the step exactly if each level whose canary is at
its step has no other user off it on chain. -/
theorem recalculateAllLimits_onLadder {out : Except HttpError Unit} (hkeyed : Keyed sdk s.users)
    (h : Exec (Responds sdk) s recalculateAllLimits asked out t) (hsmooth : ∀ x ∈ asked, Smooth x) :
    (∀ user ∈ s.users, user.score ≠ none → user.walletAddress ≠ [] → OnLadder sdk t user) ↔
      ∀ level ∈ groupByScore (verifiedUsers s), canaryOff sdk s level = true ∨
        ∀ user ∈ level, user.walletAddress ≠ [] → ChainOn sdk s user := by
  have hkey : ∀ level ∈ groupByScore (verifiedUsers s), ∀ user ∈ level,
      user ∈ s.users ∧ user.score ≠ none :=
    fun level hlevel user huser => mem_verifiedUsers.mp (mem_group hlevel huser)
  rcases h.caught_bind_inv with ⟨found, u, rest, rfl, hfound, hrest⟩
  cases found with
  | error => exact absurd (hsmooth _ List.mem_cons_self) not_smooth
  | ok found =>
      rcases hfound with ⟨hfound, hu⟩
      have hfound : found = verifiedUsers s := hfound
      have hu : u = s := hu
      subst hfound hu
      rcases levels_spec hkeyed (fun level hlevel user huser => (hkey level hlevel user huser).1)
        (pairwise_groups _ _) hrest (fun x hx => hsmooth x (List.mem_cons_of_mem _ hx)) with
        ⟨hanswered, -, hdone⟩
      constructor
      · intro hon level hlevel
        by_cases hoff : canaryOff sdk u level = true
        · exact .inl hoff
        · refine .inr fun user huser hwallet => ?_
          rcases hkey level hlevel user huser with ⟨huser', hscore⟩
          have hchain := (hon user huser' hscore hwallet).2.2
          exact ((hdone level hlevel user huser hwallet).2.mp hchain).resolve_left hoff
      · intro hlevels user huser hscore hwallet
        rcases exists_group (fun user : User => user.score.getD 1)
          (mem_verifiedUsers.mpr ⟨huser, hscore⟩) with ⟨level, hlevel, hmem⟩
        rcases hdone level hlevel user hmem hwallet with ⟨hrow, hchain⟩
        rcases hanswered.row hkeyed huser hscore hrow with ⟨hrow, hon⟩
        exact ⟨hrow, hon,
          hchain.mpr ((hlevels level hlevel).imp_right fun hall => hall user hmem hwallet)⟩

/-! ## Levels of two users -/

def promotedAccount : Text := 'G' :: (List.replicate 51 'A' ++ ['C', '6', 'P', 'V'])

/-- A user of the borrower's score who has repaid a loan on time since. -/
def promoted : User :=
  ⟨2, promotedAccount, some "b@x.io".toList, some "dev".toList,
    some "webapp".toList, some 0, some 1, some 1000000000, 1⟩

/-- Profiles of the bottom step, and tables with these users. -/
def sampleTables (users : List User) : CreditState where
  now := 0
  chain := { LoanManager.construct ⟨1⟩ ⟨2⟩ with
    risk :=
      (Store.empty.set ⟨3⟩ ⟨1, true, 2592000, 0, 10000000⟩).set ⟨4⟩ ⟨1, true,
        2592000, 0, 10000000⟩ }
  users := users
  onTime id := if id = 2 then 1 else 0

/-- The same with a loan on time for each of them. -/
def behindTables : CreditState := { sampleTables [borrower, promoted] with onTime := fun _ => 1 }

/-- The exchanges of a user on the bottom step who is moved to the second. -/
def movingUp (id : Nat) (wallet : Text) : List Asked :=
  [⟨.countOnTime id, .ok 1⟩, ⟨.readUserRisk wallet, .ok (some ⟨1, 2592000, 10000000⟩)⟩,
    ⟨.giveCreditScoreAndLimit wallet 2 30000000, .ok 200⟩,
    ⟨.updateCredit id 2 30000000 (some 11), .ok ()⟩]

/-- The user is on the second step, on chain and in its row. -/
def CreditState.movedUp (s : CreditState) (id : Nat) (wallet : Text) : CreditState :=
  { s with
    chain := { s.chain with
      risk := s.chain.risk.set (sampleSdk.scAddress wallet) ⟨2, true, 2592000, 0, 30000000⟩ }
    users := s.users.map fun user =>
      if user.id = id then
        { user with score := some 2, creditLimit := some 3000000000, xp := 11 }
      else user }

theorem movingUp_run {id : Nat} {wallet : Text} (hcount : s.onTime id = 1)
    (hvalid : isValidStellarPublicKey wallet = true) (howner : s.chain.owner = ⟨1⟩)
    (hview : s.riskView (sampleSdk.scAddress wallet) = ⟨1, 2592000, 10000000⟩) :
    Run (Responds sampleSdk) s (movingUp id wallet) (s.movedUp id wallet) := by
  have hreads : Responds sampleSdk s ⟨.countOnTime id, .ok 1⟩ s := ⟨hcount.symm, rfl⟩
  have hread : Responds sampleSdk s ⟨.readUserRisk wallet, .ok (some ⟨1, 2592000, 10000000⟩)⟩ s :=
    ⟨⟨hvalid, .inr (congrArg some hview.symm)⟩, rfl⟩
  have hset : ∃ o, LoanManager.setUserRisk (.signedBy ⟨1⟩ 0) s.chain (sampleSdk.scAddress wallet) 2
      true 2592000 30000000 = .ok o ∧
      { s with chain := o.state, users := (s.movedUp id wallet).users } =
        s.movedUp id wallet := by
    have hauth : (Env.signedBy ⟨1⟩ 0).requireAuth s.chain.owner = .ok () := by
      rw [howner]
      rfl
    rw [LoanManager.setUserRisk, hauth]
    exact ⟨_, rfl, rfl⟩
  rcases hset with ⟨o, ho, hstate⟩
  have hgive : Responds sampleSdk s ⟨.giveCreditScoreAndLimit wallet 2 30000000, .ok 200⟩
      { s with chain := o.state } := ⟨rfl, hvalid, by decide, by decide, _, _, o, ho, rfl⟩
  have hupdate : Responds sampleSdk { s with chain := o.state }
      ⟨.updateCredit id 2 30000000 (some 11), .ok ()⟩ (s.movedUp id wallet) :=
    ⟨trivial, hstate.symm⟩
  exact ((((Run.nil _).snoc hreads).snoc hread).snoc hgive).snoc hupdate

/-- The canary is off its step, so the user behind it moves on chain as well. -/
theorem recalculateAllLimits_onLadder_behind :
    canaryOff sampleSdk behindTables [borrower, promoted] = true ∧
      ¬ ChainOn sampleSdk behindTables promoted ∧
      ∀ user ∈ [borrower, promoted], OnLadder sampleSdk
        ((behindTables.movedUp 1 borrowerAccount).movedUp 2 promotedAccount) user := by
  have htrace : Trace recalculateAllLimits
      ([⟨.findVerifiedUsers, .ok [borrower, promoted]⟩, ⟨.countOnTime 1, .ok 1⟩,
        ⟨.readUserRisk borrowerAccount, .ok (some ⟨1, 2592000, 10000000⟩)⟩] ++
          movingUp 1 borrowerAccount ++ movingUp 2 promotedAccount) (.ok ()) :=
    Async.trace_of_replay (by decide +kernel)
  have hvalid : isValidStellarPublicKey borrowerAccount = true := by decide +kernel
  have hfind : Responds sampleSdk behindTables ⟨.findVerifiedUsers, .ok [borrower, promoted]⟩
      behindTables := ⟨rfl, rfl⟩
  have hcount : Responds sampleSdk behindTables ⟨.countOnTime 1, .ok 1⟩ behindTables := ⟨rfl, rfl⟩
  have hread : Responds sampleSdk behindTables
      ⟨.readUserRisk borrowerAccount, .ok (some ⟨1, 2592000, 10000000⟩)⟩ behindTables :=
    ⟨⟨hvalid, .inr rfl⟩, rfl⟩
  have hcanary : Run (Responds sampleSdk) behindTables (movingUp 1 borrowerAccount)
      (behindTables.movedUp 1 borrowerAccount) := movingUp_run rfl hvalid rfl rfl
  have hbehind : Run (Responds sampleSdk) (behindTables.movedUp 1 borrowerAccount)
      (movingUp 2 promotedAccount)
      ((behindTables.movedUp 1 borrowerAccount).movedUp 2 promotedAccount) :=
    movingUp_run rfl (by decide +kernel) rfl rfl
  have hrun := ((((Run.nil _).snoc hfind).snoc hcount).snoc hread).append hcanary |>.append hbehind
  have hkeyed : Keyed sampleSdk behindTables.users := ⟨by decide, by decide⟩
  have hoff : canaryOff sampleSdk behindTables [borrower, promoted] = true := by decide +kernel
  refine ⟨hoff, by decide, fun user huser => ?_⟩
  refine (recalculateAllLimits_onLadder hkeyed (.of_trace htrace hrun) ?_).mpr ?_ user huser ?_ ?_
  · simp [movingUp, Smooth]
  · intro level hlevel
    have hlevels : groupByScore (verifiedUsers behindTables) = [[borrower, promoted]] := by
      decide +kernel
    rw [hlevels, List.mem_singleton] at hlevel
    exact .inl (hlevel ▸ hoff)
  · revert user
    decide
  · revert user
    decide

/-- The exchanges of a level with the borrower as its canary, up to the borrower's own row. -/
def canaryInSync (users : List User) : List Asked :=
  [⟨.findVerifiedUsers, .ok users⟩, ⟨.countOnTime 1, .ok 0⟩,
    ⟨.readUserRisk borrowerAccount, .ok (some ⟨1, 2592000, 10000000⟩)⟩, ⟨.schedule, .ok []⟩,
    ⟨.countOnTime 1, .ok 0⟩]

theorem canaryInSync_run (users : List User)
    (hverified : users = verifiedUsers (sampleTables users)) :
    Run (Responds sampleSdk) (sampleTables users) (canaryInSync users) (sampleTables users) := by
  have hvalid : isValidStellarPublicKey borrowerAccount = true := by decide +kernel
  have hread : Responds sampleSdk (sampleTables users)
      ⟨.readUserRisk borrowerAccount, .ok (some ⟨1, 2592000, 10000000⟩)⟩ (sampleTables users) :=
    ⟨⟨hvalid, .inr rfl⟩, rfl⟩
  have hfind : Responds sampleSdk (sampleTables users) ⟨.findVerifiedUsers, .ok users⟩
      (sampleTables users) :=
    ⟨hverified, rfl⟩
  have hcount : Responds sampleSdk (sampleTables users) ⟨.countOnTime 1, .ok 0⟩
      (sampleTables users) := ⟨rfl, rfl⟩
  have horder : Responds sampleSdk (sampleTables users) ⟨.schedule, .ok []⟩ (sampleTables users) :=
    ⟨trivial, rfl⟩
  exact (((((Run.nil _).snoc hfind).snoc hcount).snoc hread).snoc horder).snoc hcount

/-- The canary is at its step, so only the row of the user who was promoted moves. -/
theorem recalculateAllLimits_stale :
    ¬ ∀ (sdk : CreditSdk) (s t : CreditState) (asked : List Asked) (out : Except HttpError Unit),
      Keyed sdk s.users → Exec (Responds sdk) s recalculateAllLimits asked out t →
        (∀ x ∈ asked, Smooth x) →
      ∀ user ∈ s.users, user.score ≠ none → user.walletAddress ≠ [] → OnLadder sdk t user := by
  intro h
  have htrace : Trace recalculateAllLimits (canaryInSync [borrower, promoted] ++
      [⟨.countOnTime 2, .ok 1⟩, ⟨.updateCredit 2 2 30000000 (some 11), .ok ()⟩]) (.ok ()) :=
    Async.trace_of_replay (by decide +kernel)
  have hcount : Responds sampleSdk (sampleTables [borrower, promoted]) ⟨.countOnTime 2, .ok 1⟩
      (sampleTables [borrower, promoted]) := ⟨rfl, rfl⟩
  have hupdate : Responds sampleSdk (sampleTables [borrower, promoted])
      ⟨.updateCredit 2 2 30000000 (some 11), .ok ()⟩ _ := ⟨trivial, rfl⟩
  have hrun :=
    (canaryInSync_run [borrower, promoted] rfl).append (((Run.nil _).snoc hcount).snoc hupdate)
  have hon := h sampleSdk _ _ _ _ ⟨by decide, by decide⟩ (.of_trace htrace hrun)
    (by simp [canaryInSync, Smooth]) promoted (by decide) (by decide) (by decide)
  exact absurd hon.2.2 (by decide)

end Lendoor.Backend.CreditLine
