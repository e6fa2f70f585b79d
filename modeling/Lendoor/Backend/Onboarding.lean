import Lendoor.Core.Exec
import Lendoor.Cctp.Transfer
import Lendoor.Backend.Http

/-! # Onboarding

The calls that register an email and verify it by a code: `acceptTerms`, `verifyEmail`,
`joinWaitlist`, `resendOtp` and `verifyOtp`, against the tables of users and of users not
verified yet. Lower-casing and the digest of a code are parameters.
-/

namespace Lendoor.Backend

open Cctp (Text falsy)
open Async (call caught lift Exchange)

namespace Onboarding

structure OnboardingSdk where
  toLowerCase : Text → Text
  hashOtp : Text → Text

/-- The columns of a user that onboarding reads and writes. -/
structure User where
  walletAddress : Text
  email : Option Text
  platform : Option Text
  workType : Option Text
  termsAcceptedAt : Option Nat
  waitlistJoinedAt : Option Nat
  deriving DecidableEq

/-- A user not verified yet, beside the wallet. -/
structure NotVerifiedUser where
  email : Option Text := none
  platform : Option Text := none
  otpCode : Option Text := none
  otpExpiresAt : Option Nat := none
  otpAttemptCount : Nat := 0
  lastOtpSentAt : Option Nat := none
  waitlistJoinedAt : Option Nat := none
  termsAcceptedAt : Option Nat := none
  deriving DecidableEq

structure UserPatch where
  email : Option Text := none
  platform : Option Text := none
  workType : Option Text := none
  termsAcceptedAt : Option Nat := none
  waitlistJoinedAt : Option Nat := none
  deriving DecidableEq

def UserPatch.apply (p : UserPatch) (user : User) : User :=
  { user with
    email := p.email.or user.email
    platform := p.platform.or user.platform
    workType := p.workType.or user.workType
    termsAcceptedAt := p.termsAcceptedAt.or user.termsAcceptedAt
    waitlistJoinedAt := p.waitlistJoinedAt.or user.waitlistJoinedAt }

/-- What a call awaits, the clock and the random source included. `findByEmail` answers the
wallet of the row. `sendMail` hands a code to the mailer, or to the log where there is
none. `syncUser` and `createUser` are the transactions that also delete the pending row. -/
inductive Ask
  | newDate
  | randomInt
  | findUser (wallet : Text)
  | findByEmail (email : Text)
  | updateUser (wallet : Text) (patch : UserPatch)
  | findPending (wallet : Text)
  | savePending (wallet : Text) (row : NotVerifiedUser)
  | syncUser (wallet : Text) (patch : UserPatch)
  | createUser (user : User)
  | countUsers (platform : Option Text)
  | isEarlyUser (wallet : Text)
  | sendMail (recipient code : Text)
  | linkAnalytics (wallet : Text)
  | getStepByWallet (wallet : Text) (platform : Option Text)
  deriving DecidableEq

@[reducible] def Answer : Ask → Type
  | .newDate => Nat
  | .randomInt => Nat
  | .findUser _ => Option User
  | .findByEmail _ => Option Text
  | .updateUser _ _ => Unit
  | .findPending _ => Option NotVerifiedUser
  | .savePending _ _ => Unit
  | .syncUser _ _ => Unit
  | .createUser _ => Unit
  | .countUsers _ => Nat
  | .isEarlyUser _ => Bool
  | .sendMail _ _ => Unit
  | .linkAnalytics _ => Unit
  | .getStepByWallet _ _ => Text

abbrev Program := Async Ask Answer HttpError

abbrev Asked := Exchange Ask Answer HttpError

inductive Outcome
  | step (s : Text)
  | otp (walletAddress : Text) (otpExpiresAt : Option Nat)
  deriving DecidableEq

def badRequest (message : String) : HttpError := ⟨.badRequest, message⟩

variable (sdk : OnboardingSdk)

/-- `trim().toLowerCase()` -/
def normalizeEmail (email : Text) : Text := sdk.toLowerCase (trim email)

def normalizePlatform (p : Option Text) : Option Text :=
  if falsy p = true then none
  else
    let v := sdk.toLowerCase (trim (p.getD []))
    if v = "lemon".toList ∨ v = "farcaster".toList ∨ v = "webapp".toList then some v else none

/-- The platform to write into a row that has none. -/
def platformUpdate (stored platformNorm : Option Text) : Option Text :=
  if falsy stored = true then platformNorm else none

/-- The value, or the time it is asked for. -/
def orNow : Option Nat → Program Nat
  | some t => pure t
  | none => call Ask.newDate

def getStep (wallet : Text) (platform : Option Text) : Program Outcome := do
  let s : Text ← call (Ask.getStepByWallet wallet platform)
  pure (.step s)

def ensureEmailIsFreeForWallet (normalizedEmail wallet : Text) : Program Unit :=
  if normalizedEmail = [] then .throw (badRequest "Email is required")
  else do
    let existingUser : Option Text ← call (Ask.findByEmail normalizedEmail)
    match existingUser with
    | none => pure ()
    | some owner =>
        if owner ≠ wallet then .throw (badRequest "Email already used by another account")
        else pure ()

/-- A code went out less than a minute ago. -/
def throttled (pending : NotVerifiedUser) (now : Nat) : Bool :=
  pending.lastOtpSentAt.any fun sentAt => now < sentAt + 60000

/-- A row with a new code. -/
def withCode (pending : NotVerifiedUser) (code : Text) (now : Nat) : NotVerifiedUser :=
  { pending with
    otpCode := some (sdk.hashOtp code)
    otpExpiresAt := some (now + 10 * 60 * 1000)
    otpAttemptCount := 0
    lastOtpSentAt := some now }

/-- Send a code to the pending address. It returns the row it saved. -/
def issueOtpForPending (wallet : Text) (pending : NotVerifiedUser) : Program NotVerifiedUser :=
  if falsy pending.email = true then .throw (badRequest "User has no email")
  else do
    let now : Nat ← call Ask.newDate
    if throttled pending now = true then
      .throw (badRequest "Esperá unos segundos antes de pedir otro código")
    else do
      let n : Nat ← call Ask.randomInt
      let code := (toString n).toList
      let _ ← call (Ask.savePending wallet (withCode sdk pending code now))
      let _ ← caught (Ask.sendMail (pending.email.getD []) code)
      pure (withCode sdk pending code now)

def acceptTerms (walletAddress : Text) (platform : Option Text) : Program Outcome := do
  let wallet ← lift (normalizeWallet walletAddress)
  let platformNorm := normalizePlatform sdk platform
  let now : Nat ← call Ask.newDate
  let user : Option User ← call (Ask.findUser wallet)
  match user with
  | some user => do
      let _ ← call (Ask.updateUser wallet
        { termsAcceptedAt := if user.termsAcceptedAt = none then some now else none
          platform := platformUpdate user.platform platformNorm })
      getStep wallet none
  | none => do
      let pending : Option NotVerifiedUser ← call (Ask.findPending wallet)
      let row := match pending with
        | none => { platform := platformNorm, termsAcceptedAt := some now }
        | some pending =>
            { pending with
              termsAcceptedAt := pending.termsAcceptedAt.or (some now)
              platform := (platformUpdate pending.platform platformNorm).or pending.platform }
      let _ ← call (Ask.savePending wallet row)
      getStep wallet none

/-- The pending row of a wallet with an address. -/
def readdress (pending : Option NotVerifiedUser) (email : Text) (platformNorm : Option Text) :
    NotVerifiedUser :=
  match pending with
  | none => { email := some email, platform := platformNorm }
  | some pending =>
      { pending with
        email := some email
        platform := (platformUpdate pending.platform platformNorm).or pending.platform }

/-- Save the pending row and send its code. -/
def register (wallet : Text) (row : NotVerifiedUser) : Program NotVerifiedUser := do
  let _ ← call (Ask.savePending wallet row)
  issueOtpForPending sdk wallet row

/-- A user who is there already gets the address. -/
def updateEmail (wallet email : Text) (platformNorm : Option Text) : Option User → Program Unit
  | none => pure ()
  | some user =>
      call (Ask.updateUser wallet
        { email := some email, platform := platformUpdate user.platform platformNorm })

def verifyEmail (walletAddress email : Text) (platform : Option Text) : Program Outcome := do
  let wallet ← lift (normalizeWallet walletAddress)
  let normalizedEmail := normalizeEmail sdk email
  let platformNorm := normalizePlatform sdk platform
  ensureEmailIsFreeForWallet normalizedEmail wallet
  let user : Option User ← call (Ask.findUser wallet)
  updateEmail wallet normalizedEmail platformNorm user
  let pending : Option NotVerifiedUser ← call (Ask.findPending wallet)
  let _ ← register sdk wallet (readdress pending normalizedEmail platformNorm)
  getStep wallet none

/-- When a user joins the waitlist now. -/
def joinTime (early : Bool) (user : User) : Program (Option Nat) :=
  if early = false ∧ user.waitlistJoinedAt = none then some <$> call Ask.newDate else pure none

/-- The update of a user who joins the waitlist, and when they joined. -/
def joinUser (wallet email : Text) (platformNorm : Option Text) : Option User → Program (Option Nat)
  | none => pure none
  | some user => do
      let early : Bool ← call (Ask.isEarlyUser wallet)
      let joined ← joinTime early user
      let _ ← call (Ask.updateUser wallet
        { email := some email
          waitlistJoinedAt := joined
          platform := platformUpdate user.platform platformNorm })
      pure (joined.or user.waitlistJoinedAt)

def joinWaitlist (walletAddress email : Text) (platform : Option Text) : Program Outcome := do
  let wallet ← lift (normalizeWallet walletAddress)
  let normalizedEmail := normalizeEmail sdk email
  let platformNorm := normalizePlatform sdk platform
  ensureEmailIsFreeForWallet normalizedEmail wallet
  let user : Option User ← call (Ask.findUser wallet)
  let joinedAt ← joinUser wallet normalizedEmail platformNorm user
  let pending : Option NotVerifiedUser ← call (Ask.findPending wallet)
  let waitlistJoinedAt ← orNow ((pending.bind NotVerifiedUser.waitlistJoinedAt).or joinedAt)
  let _ ← register sdk wallet { readdress pending normalizedEmail platformNorm with
    waitlistJoinedAt := some waitlistJoinedAt }
  getStep wallet none

/-- What a verified pending row writes into the user. -/
def verifiedPatch (pending : NotVerifiedUser) (existing : User) (email workType : Text)
    (platformNorm : Option Text) : UserPatch :=
  { email := some email
    workType := some workType
    platform := platformUpdate existing.platform platformNorm
    termsAcceptedAt :=
      if existing.termsAcceptedAt = none then pending.termsAcceptedAt else none }

/-- There is no limit of slots. -/
def getUserUntilWaitlist : Nat := 0

/-- When a new user joined the waitlist. An early one did not. -/
def newUserJoined (pending : NotVerifiedUser) (currentUsers : Nat) : Program (Option Nat) :=
  if 0 < getUserUntilWaitlist ∧ currentUsers + 1 ≤ getUserUntilWaitlist then pure none
  else some <$> orNow pending.waitlistJoinedAt

/-- The end of a verification whose code was right. -/
def verified (wallet : Text) (pending : NotVerifiedUser) (workType : Text)
    (requestPlatform : Option Text) : Program Outcome := do
  let normalizedEmail := normalizeEmail sdk (pending.email.getD [])
  ensureEmailIsFreeForWallet normalizedEmail wallet
  let platformNorm := (normalizePlatform sdk pending.platform).or requestPlatform
  let existing : Option User ← call (Ask.findUser wallet)
  match existing with
  | some user => do
      let _ ←
        call
        (Ask.syncUser wallet (verifiedPatch pending user normalizedEmail workType platformNorm))
      getStep wallet ((normalizePlatform sdk user.platform).or platformNorm)
  | none => do
      let currentUsers : Nat ← call (Ask.countUsers platformNorm)
      let joined ← newUserJoined pending currentUsers
      let _ ← call (Ask.createUser ⟨wallet, some normalizedEmail, platformNorm, some workType,
        pending.termsAcceptedAt, joined⟩)
      let _ ← caught (Ask.linkAnalytics wallet)
      getStep wallet platformNorm

def verifyOtp (walletAddress code workType : Text) (platform : Option Text) : Program Outcome := do
  let wallet ← lift (normalizeWallet walletAddress)
  let trimmedCode := trim code
  let workTypeClean := trim workType
  if trimmedCode = [] then .throw (badRequest "Code is required")
  else if workTypeClean = [] then .throw (badRequest "workType is required")
  else do
    let requestPlatform := normalizePlatform sdk platform
    let found : Option NotVerifiedUser ← call (Ask.findPending wallet)
    match found.filter fun pending => !falsy pending.email with
    | none => do
        let existing : Option User ← call (Ask.findUser wallet)
        match existing with
        | none => .throw (badRequest "Invalid user")
        | some user => do
            let _ ← call (Ask.updateUser wallet
              { workType := some workTypeClean,
                platform := platformUpdate user.platform requestPlatform })
            getStep wallet ((normalizePlatform sdk user.platform).or requestPlatform)
    | some pending =>
        match pending.otpExpiresAt with
        | none => .throw (badRequest "No active code, request a new one")
        | some expiresAt =>
            if falsy pending.otpCode = true then
              .throw (badRequest "No active code, request a new one")
            else do
              let now : Nat ← call Ask.newDate
              if expiresAt < now then .throw (badRequest "Code expired")
              else if 5 ≤ pending.otpAttemptCount then
                .throw (badRequest "Too many failed attempts, request a new code")
              else if pending.otpCode ≠ some (sdk.hashOtp trimmedCode) then do
                let _ ← call (Ask.savePending wallet
                  { pending with otpAttemptCount := pending.otpAttemptCount + 1 })
                .throw (badRequest "Invalid code")
              else verified sdk wallet pending workTypeClean requestPlatform

/-- A new address is saved before its code is sent. -/
def resendTo (wallet email : Text) (pending : Option NotVerifiedUser) :
    Program (Option NotVerifiedUser) :=
  if email = [] then pure pending
  else do
    ensureEmailIsFreeForWallet email wallet
    let row := readdress pending email none
    let _ ← call (Ask.savePending wallet row)
    pure (some row)

def resendOtp (walletAddress : Text) (email : Option Text) : Program Outcome := do
  let wallet ← lift (normalizeWallet walletAddress)
  let normalizedEmail := (email.map (normalizeEmail sdk)).getD []
  let existing : Option User ← call (Ask.findUser wallet)
  match existing with
  | some _ => getStep wallet none
  | none => do
      let pending : Option NotVerifiedUser ← call (Ask.findPending wallet)
      let pending ← resendTo wallet normalizedEmail pending
      match pending.filter fun pending => !falsy pending.email with
      | none => .throw (badRequest "Invalid user")
      | some pending => do
          let issued ← issueOtpForPending sdk wallet pending
          pure (.otp wallet issued.otpExpiresAt)

/-! ## The tables -/

/-- The clock and the two tables; users have one row per wallet and per email. -/
structure OnboardingState where
  now : Nat
  users : List User
  pending : Text → Option NotVerifiedUser

def OnboardingState.userOf (s : OnboardingState) (wallet : Text) : Option User :=
  s.users.find? fun user => user.walletAddress = wallet

/-- No other wallet has the email. -/
def OnboardingState.emailFree (s : OnboardingState) (email : Option Text) (wallet : Text) : Bool :=
  s.users.all fun user => user.walletAddress = wallet || user.email.isNone || user.email ≠ email

/-- The update of a wallet's row. -/
def patchUsers (users : List User) (wallet : Text) (patch : UserPatch) : List User :=
  users.map fun user => if user.walletAddress = wallet then patch.apply user else user

/-- What a call does once it is through. -/
def OnboardingState.effect (s : OnboardingState) : Ask → OnboardingState
  | .updateUser wallet patch => { s with users := patchUsers s.users wallet patch }
  | .savePending wallet row => { s with pending := Function.update s.pending wallet (some row) }
  | .syncUser wallet patch =>
      { s with
        users := patchUsers s.users wallet patch
        pending := Function.update s.pending wallet none }
  | .createUser user =>
      { s with
        users := s.users ++ [user]
        pending := Function.update s.pending user.walletAddress none }
  | _ => s

/-- What a call may answer. Emails and wallets are unique among users. -/
def OnboardingState.answers (s : OnboardingState) : (ask : Ask) → Answer ask → Bool
  | .newDate, now => now = s.now
  | .randomInt, n => 100000 ≤ n ∧ n < 1000000
  | .findUser wallet, found => found = s.userOf wallet
  | .findByEmail email, found =>
      found = (s.users.find? fun user => user.email = some email).map User.walletAddress
  | .updateUser wallet patch, _ => s.emailFree patch.email wallet
  | .findPending wallet, found => found = s.pending wallet
  | .syncUser wallet patch, _ => s.emailFree patch.email wallet
  | .createUser user, _ =>
      (s.userOf user.walletAddress).isNone && s.emailFree user.email user.walletAddress
  | _, _ => true

/-- The clock and the random source do not throw. -/
def fallible : Ask → Bool
  | .newDate => false
  | .randomInt => false
  | _ => true

/-- A call that throws had no effect. -/
def Responds (s : OnboardingState) (x : Asked) (s' : OnboardingState) : Prop :=
  match x with
  | ⟨ask, .ok answer⟩ => s.answers ask answer = true ∧ s' = s.effect ask
  | ⟨ask, .error _⟩ => fallible ask = true ∧ s' = s

/-! ## Sequences of calls -/

inductive Request
  | acceptTerms (walletAddress : Text) (platform : Option Text)
  | verifyEmail (walletAddress email : Text) (platform : Option Text)
  | joinWaitlist (walletAddress email : Text) (platform : Option Text)
  | verifyOtp (walletAddress code workType : Text) (platform : Option Text)
  | resendOtp (walletAddress : Text) (email : Option Text)
  deriving DecidableEq

def Request.program : Request → Program Outcome
  | .acceptTerms walletAddress platform => Onboarding.acceptTerms sdk walletAddress platform
  | .verifyEmail walletAddress email platform =>
      Onboarding.verifyEmail sdk walletAddress email platform
  | .joinWaitlist walletAddress email platform =>
      Onboarding.joinWaitlist sdk walletAddress email platform
  | .verifyOtp walletAddress code workType platform =>
      Onboarding.verifyOtp sdk walletAddress code workType platform
  | .resendOtp walletAddress email => Onboarding.resendOtp sdk walletAddress email

/-- A call, with what it exchanged and how it ended, or the time between two calls. -/
inductive Event
  | tick (ms : Nat)
  | call (request : Request) (asked : List Asked) (out : Except HttpError Outcome)

inductive Step : OnboardingState → Event → OnboardingState → Prop
  | tick (s : OnboardingState) (ms : Nat) : Step s (.tick ms) { s with now := s.now + ms }
  | call {s s' : OnboardingState} {request : Request} {asked : List Asked}
      {out : Except HttpError Outcome} : Exec Responds s (request.program sdk) asked out s' →
      Step s (.call request asked out) s'

end Onboarding

end Lendoor.Backend
