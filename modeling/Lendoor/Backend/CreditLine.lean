import Lendoor.Core.Parallel
import Lendoor.Core.Service
import Lendoor.LoanManager.Effects
import Lendoor.Cctp.Transfer
import Lendoor.Backend.CreditPolicy
import Lendoor.Backend.Http

/-! # Credit lines

The calls that write a borrower's risk profile to the chain: `verify`, the renewal of
offers that expire and the recalculation of the ladder, against the tables and the loan
manager. Lower-casing and the decoding of accounts are parameters.
-/

namespace Lendoor.Backend

open Cctp (Text falsy)
open Async (call caught lift forEach settled allSettled Exchange)

namespace CreditLine

structure CreditSdk where
  toLowerCase : Text → Text
  scAddress : Text → Address

inductive UserPlatform
  | lemon
  | farcaster
  | webapp
  deriving DecidableEq, Repr

def UserPlatform.name : UserPlatform → Text
  | .lemon => "lemon".toList
  | .farcaster => "farcaster".toList
  | .webapp => "webapp".toList

/-- The columns of a user that the credit line reads and writes. `creditLimit` is a
decimal of two places, here in hundredths of a unit. -/
structure User where
  id : Nat
  walletAddress : Text
  email : Option Text
  workType : Option Text
  platform : Option Text
  termsAcceptedAt : Option Nat
  score : Option Nat
  creditLimit : Option Int
  xp : Nat
  deriving DecidableEq

/-- What a call awaits. `schedule` is the order in which calls side by side go on. -/
inductive Ask
  | now
  | schedule
  | findUser (wallet : Text)
  | findVerifiedUsers
  | countOnTime (userId : Nat)
  | updatePlatform (id : Nat) (platform : UserPlatform)
  | updateCredit (id score limit : Nat) (xp : Option Nat)
  | isUserSelfVerified (id : Nat)
  | getUserUntilWaitlist (platform : UserPlatform)
  | isEarlyUser (id : Nat) (platform : UserPlatform)
  | readCreditLimitOnChain (wallet : Text)
  | readUserRisk (wallet : Text)
  | giveCreditScoreAndLimit (wallet : Text) (score : Nat) (limit : Int)
  deriving DecidableEq

/-- What `readUserRisk` returns of a profile. -/
structure RiskView where
  score : Nat
  validUntil : Nat
  limit : Int
  deriving DecidableEq, Repr

@[reducible] def Answer : Ask → Type
  | .now => Nat
  | .schedule => List Nat
  | .findUser _ => Option User
  | .findVerifiedUsers => List User
  | .countOnTime _ => Nat
  | .updatePlatform _ _ => Unit
  | .updateCredit _ _ _ _ => Unit
  | .isUserSelfVerified _ => Bool
  | .getUserUntilWaitlist _ => Int
  | .isEarlyUser _ _ => Bool
  | .readCreditLimitOnChain _ => Int
  | .readUserRisk _ => Option RiskView
  | .giveCreditScoreAndLimit _ _ _ => Nat

abbrev Program := Async Ask Answer HttpError

abbrev Asked := Exchange Ask Answer HttpError

def notFound (message : String) : HttpError := ⟨.notFound, message⟩

def forbidden (message : String) : HttpError := ⟨.forbidden, message⟩

/-! ## `verify` -/

structure Verified where
  alreadyHadCredit : Bool := false
  refreshedOnChain : Bool := false
  id : Nat
  walletAddress : Text
  score : Option Nat
  creditLimit : Option Int
  deriving DecidableEq

variable (sdk : CreditSdk)

def normalizePlatform (p : Option Text) : Option UserPlatform :=
  if falsy p = true then none
  else
    let v := sdk.toLowerCase (trim (p.getD []))
    [UserPlatform.lemon, .farcaster, .webapp].find? fun platform => platform.name = v

/-- Write the platform, in the row and in memory. -/
def setPlatform (user : User) (platform : UserPlatform) : Program User := do
  let _ ← call (Ask.updatePlatform user.id platform)
  pure { user with platform := some platform.name }

/-- The request's platform goes to a user without one. -/
def fillPlatform (user : User) : Option UserPlatform → Program User
  | some platform => if falsy user.platform = true then setPlatform user platform else pure user
  | none => pure user

/-- The platform is written where it is another one. -/
def assignPlatform (user : User) (effectivePlatform : UserPlatform) : Program User :=
  if user.platform ≠ some effectivePlatform.name then setPlatform user effectivePlatform
  else pure user

/-- Only users of the one platform need the check. -/
def ensureSelfVerificationForPlatform (user : User) : Program Unit :=
  if sdk.toLowerCase (user.platform.getD []) ≠ UserPlatform.farcaster.name then pure ()
  else do
    let hasSelf : Bool ← call (Ask.isUserSelfVerified user.id)
    if hasSelf = true then pure ()
    else .throw ⟨.preconditionRequired, "Identity verification required"⟩

def canAccessCredit (user : User) (platform : UserPlatform) : Program Bool := do
  let waitlistLimit : Int ← call (Ask.getUserUntilWaitlist platform)
  if waitlistLimit ≤ 0 then pure true else call (Ask.isEarlyUser user.id platform)

/-- What `verify` checks before it looks at the credit line. -/
def admitUser (wallet : Text) (platformNorm : Option UserPlatform) : Program User := do
  let found : Option User ← call (Ask.findUser wallet)
  match found with
  | none => .throw (notFound
      "User not found. Completá el registro y verificación antes de pedir crédito.")
  | some user =>
      if falsy user.email = true then .throw (forbidden
        "Necesitás verificar tu email antes de habilitar tu línea de crédito.")
      else if falsy user.workType = true then .throw (forbidden
        "Contanos en qué trabajás antes de habilitar tu línea de crédito.")
      else do
        let user ← fillPlatform user platformNorm
        let effectivePlatform := ((normalizePlatform sdk user.platform).or platformNorm).getD .lemon
        let user ← assignPlatform user effectivePlatform
        if user.termsAcceptedAt = none ∧ effectivePlatform ≠ .farcaster then .throw (forbidden
          "Tenés que aceptar los Términos y Condiciones antes de habilitar tu crédito.")
        else do
          ensureSelfVerificationForPlatform sdk user
          let user ← fillPlatform user platformNorm
          let allowed ← canAccessCredit user effectivePlatform
          if allowed = true then pure user else .throw (forbidden "Early access cupo completo")

/-- A stored limit and a score from one up. -/
def alreadyHasCredit (user : User) : Bool :=
  user.creditLimit.any (fun limit => 0 < limit) && user.score.any fun score => 1 ≤ score

/-- A limit of zero on chain is read as an expired offer. -/
def refreshCredit (wallet : Text) (user : User) : Program Verified := do
  let onChainLimit : Int ← call (Ask.readCreditLimitOnChain wallet)
  let answer : Verified :=
    { alreadyHadCredit := true, id := user.id, walletAddress := user.walletAddress,
                             score := user.score, creditLimit := user.creditLimit }
  if 0 < onChainLimit then pure answer
  else do
    let scoreNum := user.score.getD 1
    let adjustedLimitUnits := toUnits (getStepForScore scoreNum).limitUsdc
    let result : Except HttpError Nat ←
      caught (Ask.giveCreditScoreAndLimit wallet scoreNum adjustedLimitUnits)
    match result with
    | .error _ => .throw ⟨.badRequest, "Failed to refresh on-chain credit line"⟩
    | .ok _ => pure { answer with refreshedOnChain := true }

def firstCredit (wallet : Text) (user : User) : Program Verified := do
  let result : Except HttpError Nat ←
    caught (Ask.giveCreditScoreAndLimit wallet 1 defaultCreditLimit)
  match result with
  | .error _ => .throw ⟨.badRequest, "Failed to set on-chain credit line"⟩
  | .ok code =>
      if code ≠ 200 then .throw ⟨.badRequest, "Setting credit line failed"⟩
      else do
        let _ ← call (Ask.updateCredit user.id 1 defaultCreditLimit none)
        let fresh : Option User ← call (Ask.findUser wallet)
        match fresh with
        | none => .throw ⟨.badRequest, "Identity verification failed"⟩
        | some fresh => pure { id := fresh.id, walletAddress := fresh.walletAddress,
                               score := fresh.score, creditLimit := fresh.creditLimit }

def verify (walletAddress : Text) (platform : Option Text) : Program Verified := do
  let wallet ← lift (normalizeWallet walletAddress)
  let user ← admitUser sdk wallet (normalizePlatform sdk platform)
  if alreadyHasCredit user = true then refreshCredit wallet user else firstCredit wallet user

/-! ## `renewExpiredOffers` -/

def batchSize : Nat := 5

def maxRenewals : Nat := 25

/-- Three days before the offer ends, unless it never does. -/
def expiring (renewThreshold : Nat) (onChain : Option RiskView) : Bool :=
  let validUntil := (onChain.map RiskView.validUntil).getD 0
  validUntil ≠ 0 && validUntil ≤ renewThreshold

/-- `BigInt(limit)` of the stored limit, or of the default one where none is stored. -/
def renewalLimit (user : User) : Option Int :=
  match user.creditLimit with
  | none => some defaultCreditLimit
  | some limit =>
      if limit = 0 then some defaultCreditLimit
      else if limit % 100 = 0 then some (limit / 100) else none

/-- The callback of the batch: whether the offer was renewed. -/
def renewUser (renewThreshold : Nat) (user : User) : Program Bool :=
  if user.walletAddress = [] then pure false
  else do
    let read : Except HttpError (Option RiskView) ← caught (Ask.readUserRisk user.walletAddress)
    match read with
    | .error _ => pure false
    | .ok onChain =>
        if expiring renewThreshold onChain = false then pure false
        else match renewalLimit user with
          | none => pure false
          | some limit => do
              let result : Except HttpError Nat ←
                caught (Ask.giveCreditScoreAndLimit user.walletAddress (user.score.getD 1) limit)
              pure result.isOk

/-- The loop over the batches. The callbacks of a batch all start before one of them has
renewed anything. -/
def renewBatches (renewThreshold : Nat) : Nat → List (List User) → Program Unit
  | _, [] => pure ()
  | renewed, batch :: rest =>
      if maxRenewals ≤ renewed then pure ()
      else do
        let order : List Nat ← call Ask.schedule
        let results ← allSettled order (batch.map (renewUser renewThreshold))
        renewBatches renewThreshold (renewed + results.countP fun r => r.toOption = some true) rest

def renewExpiredOffers : Program Unit := do
  let found : Except HttpError (List User) ← caught Ask.findVerifiedUsers
  match found with
  | .error _ => pure ()
  | .ok verifiedUsers =>
      if verifiedUsers = [] then pure ()
      else do
        let nowUnix : Nat ← call Ask.now
        renewBatches (nowUnix + 3 * 24 * 60 * 60) 0 (verifiedUsers.toChunks batchSize)

/-! ## `recalculateAllLimits` -/

/-- The profile on chain is not the step of the ladder. -/
def offLadder (onTimeLoans : Nat) (onChain : Option RiskView) : Bool :=
  let step := getStepForOnTimeLoans onTimeLoans
  (onChain.map RiskView.score).getD 0 ≠ step.score ||
    (onChain.map RiskView.limit).getD 0 ≠ (toUnits step.limitUsdc : Int)

def dbInSync (onTimeLoans : Nat) (user : User) : Bool :=
  let step := getStepForOnTimeLoans onTimeLoans
  user.score.getD 1 = step.score && user.creditLimit.getD 0 = 100 * (toUnits step.limitUsdc : Int)

inductive Recalculated
  | chain
  | db
  | skip
  | error
  deriving DecidableEq, Repr

/-- `userRepo.update` with the step of the ladder. -/
def updateToStep (onTimeLoans : Nat) (user : User) : Program Unit :=
  let step := getStepForOnTimeLoans onTimeLoans
  call (Ask.updateCredit user.id step.score (toUnits step.limitUsdc)
    (if user.xp < step.xpBase then some step.xpBase else none))

/-- A row that is not in sync is updated. -/
def syncRow (onTimeLoans : Nat) (user : User) : Program Unit :=
  if dbInSync onTimeLoans user = true then pure () else updateToStep onTimeLoans user

/-- The `try` block of `recalcUser` where the chain is checked. -/
def recalcOnChain (user : User) : Program Recalculated := do
  let onTimeLoans : Nat ← call (Ask.countOnTime user.id)
  let step := getStepForOnTimeLoans onTimeLoans
  let onChain : Option RiskView ← call (Ask.readUserRisk user.walletAddress)
  if offLadder onTimeLoans onChain = true then do
    let result : Nat ← call (Ask.giveCreditScoreAndLimit user.walletAddress step.score
      (toUnits step.limitUsdc))
    if result ≠ 200 then pure .error
    else do
      syncRow onTimeLoans user
      pure .chain
  else if dbInSync onTimeLoans user = true then pure .skip
  else do
    updateToStep onTimeLoans user
    pure .db

/-- The `try` block of `recalcUser` where only the row is checked. -/
def recalcRow (user : User) : Program Recalculated := do
  let onTimeLoans : Nat ← call (Ask.countOnTime user.id)
  if dbInSync onTimeLoans user = true then pure .skip
  else do
    updateToStep onTimeLoans user
    pure .db

def recalcUser (user : User) (checkChain : Bool) : Program Recalculated :=
  if user.walletAddress = [] then pure .skip
  else do
    let result ← settled (if checkChain = true then recalcOnChain user else recalcRow user)
    pure (result.toOption.getD .error)

/-- The one user of the level that is looked up on chain. -/
def canaryMismatch (canary : User) : Program Bool := do
  let canaryOnTime : Nat ← call (Ask.countOnTime canary.id)
  let onChain : Option RiskView ← call (Ask.readUserRisk canary.walletAddress)
  pure (offLadder canaryOnTime onChain)

def levelNeedsChainUpdate (users : List User) : Program Bool :=
  match users.find? fun user => user.walletAddress ≠ [] with
  | none => pure false
  | some canary => do
      let mismatch ← settled (canaryMismatch canary)
      pure (mismatch.toOption.getD true)

def recalcBatch (batch : List User) : Program Unit := do
  let order : List Nat ← call Ask.schedule
  let _ ← allSettled order (batch.map fun user => recalcUser user false)
  pure ()

def recalcLevel (users : List User) : Program Unit := do
  let chainUpdate ← levelNeedsChainUpdate users
  if chainUpdate = true then forEach users fun user => recalcUser user true
  else forEach (users.toChunks batchSize) recalcBatch

/-- The users by their stored score, in the order in which the scores appear. -/
def groupByScore (users : List User) : List (List User) :=
  ((users.map fun user => user.score.getD 1).eraseDups).map fun level =>
    users.filter fun user => user.score.getD 1 = level

def recalculateAllLimits : Program Unit := do
  let found : Except HttpError (List User) ← caught Ask.findVerifiedUsers
  match found with
  | .error _ => pure ()
  | .ok verifiedUsers => forEach (groupByScore verifiedUsers) recalcLevel

/-! ## Calls under way -/

/-- The clock of the server, the loan manager and the tables, of loans only how many each
user repaid on time. -/
structure CreditState where
  now : Nat
  chain : LoanManager.State
  users : List User
  onTime : Nat → Nat

def CreditState.riskView (s : CreditState) (a : Address) : RiskView :=
  let risk := LoanManager.getUserRisk s.chain a
  ⟨risk.score, risk.validUntil, risk.limit⟩

/-- What a call may answer. A read of the chain may come back empty. -/
def CreditState.Answers (s : CreditState) : (ask : Ask) → Answer ask → Prop
  | .now, now => now = s.now
  | .findUser wallet, found => found = s.users.find? fun user => user.walletAddress = wallet
  | .findVerifiedUsers, found => found = s.users.filter fun user => user.score.isSome
  | .countOnTime userId, n => n = s.onTime userId
  | .readCreditLimitOnChain wallet, limit => isValidStellarPublicKey wallet = true ∧
      ∃ e, limit = LoanManager.creditLimit e s.chain (sdk.scAddress wallet)
  | .readUserRisk wallet, found => isValidStellarPublicKey wallet = true ∧
      (found = none ∨ found = some (s.riskView (sdk.scAddress wallet)))
  | .giveCreditScoreAndLimit _ _ _, code => code = 200
  | _, _ => True

/-- `update({ id }, ..)` -/
def CreditState.updateUser (s : CreditState) (id : Nat) (patch : User → User) : CreditState :=
  { s with users := s.users.map fun user => if user.id = id then patch user else user }

/-- What a call does once it is through. A profile is written by `set_user_risk`, with the
KYC flag set and some time to run. -/
def CreditState.Does (s : CreditState) : Ask → CreditState → Prop
  | .updatePlatform id platform, s' =>
      s' = s.updateUser id fun user => { user with platform := some platform.name }
  | .updateCredit id score limit xp, s' => s' = s.updateUser id fun user =>
      { user with score := some score, creditLimit := some (100 * limit), xp := xp.getD user.xp }
  | .giveCreditScoreAndLimit wallet score limit, s' =>
      isValidStellarPublicKey wallet = true ∧ 1 ≤ score ∧ score ≤ 1000 ∧ ∃ e validUntil o,
        LoanManager.setUserRisk e s.chain (sdk.scAddress wallet) score true validUntil limit =
        .ok o ∧
          s' = { s with chain := o.state }
  | _, s' => s' = s

/-- A call that throws had no effect, or it did and its answer was lost. -/
def Responds (s : CreditState) (x : Asked) (s' : CreditState) : Prop :=
  match x with
  | ⟨ask, .ok answer⟩ => s.Answers sdk ask answer ∧ s.Does sdk ask s'
  | ⟨ask, .error _⟩ => s' = s ∨ s.Does sdk ask s'

inductive Request
  | verify (walletAddress : Text) (platform : Option Text)
  | renewExpiredOffers
  | recalculateAllLimits
  deriving DecidableEq

def Request.program : Request → Program (Option Verified)
  | .verify walletAddress platform => do
      let verified ← CreditLine.verify sdk walletAddress platform
      pure (some verified)
  | .renewExpiredOffers => do
      CreditLine.renewExpiredOffers
      pure none
  | .recalculateAllLimits => do
      CreditLine.recalculateAllLimits
      pure none

/-- What others do: calls of the loan manager, of which none writes the profile of `b`,
and anything to the tables. -/
inductive Outside (b : Address) (s : CreditState) : CreditState → Prop
  | chain {e : Env} {op : LoanManager.Op} {o : Outcome LoanManager.State LoanManager.Ret} :
      LoanManager.exec e s.chain op = .ok o →
      (∀ score kycOk validUntil limit, op ≠ .setUserRisk b score kycOk validUntil limit) →
      Outside b s { s with chain := o.state }
  | tables {now : Nat} {users : List User} {onTime : Nat → Nat} : s.now ≤ now →
      Outside b s { s with now := now, users := users, onTime := onTime }

def service (ι : Type) (b : Address) :
    Service CreditState ι Request Ask Answer HttpError (Option Verified) where
  program _ _ request := request.program sdk
  respond _ := Responds sdk
  settle s _ _ _ := s
  outside := Outside b

abbrev Pool (ι : Type) : Type :=
  ThreadPool CreditState ι Request Ask Answer HttpError (Option Verified)

abbrev Event (ι : Type) : Type := ThreadEvent ι Request Ask Answer HttpError (Option Verified)

end CreditLine

end Lendoor.Backend
