import Lendoor.Core.Attempts
import Lendoor.Backend.Onboarding

/-! # Companion sessions

`start` sends a code to an email and `session` trades it for an opaque token, against the
table of sessions, one row per email. A row is read, changed in memory and saved as a
whole.
-/

namespace Lendoor.Backend

open Cctp (Text falsy)
open Async (call lift Exchange Trace Awaits)

namespace WalletLink

open Onboarding (OnboardingSdk normalizeEmail)

/-- The columns of a session beside the email. -/
structure WalletLinkSession where
  userId : Option Nat
  otpCodeHash : Option Text
  otpExpiresAt : Option Nat
  otpAttemptCount : Nat
  lastOtpSentAt : Option Nat
  token : Option Text
  tokenExpiresAt : Option Nat
  deriving DecidableEq

/-- What a request awaits, the clock and the random source included. `findUsers` answers
the ids of the users with the email. -/
inductive Ask
  | newDate
  | randomInt
  | findUsers (email : Text)
  | findUser (id : Nat)
  | findSession (email : Text)
  | insertSession (email : Text) (row : WalletLinkSession)
  | saveSession (email : Text) (row : WalletLinkSession)
  deriving DecidableEq

/-- `findUser` answers the wallet of the user. -/
@[reducible] def Answer : Ask → Type
  | .newDate => Nat
  | .randomInt => Nat
  | .findUsers _ => List Nat
  | .findUser _ => Option Text
  | .findSession _ => Option WalletLinkSession
  | .insertSession _ _ => Unit
  | .saveSession _ _ => Unit

abbrev Program := Async Ask Answer HttpError

abbrev Asked := Exchange Ask Answer HttpError

inductive Outcome
  | started (otpExpiresAt : Option Nat)
  | session (linkSession : Text) (userId : Nat) (email : Text) (lendoorAddress : Option Text)
  deriving DecidableEq

/-- Something, an at sign, and something with a dot inside; no spaces. -/
def isEmail (s : Text) : Bool :=
  match s.span (· ≠ '@') with
  | (name, '@' :: domain) =>
      !name.isEmpty && s.all (!isJsSpace ·) && !domain.contains '@' &&
        ((domain.drop 1).dropLast).contains '.'
  | _ => false

def otpTtlMs : Nat := 10 * 60 * 1000

def otpThrottleMs : Nat := 60 * 1000

def otpMaxAttempts : Nat := 5

def sessionTtlMs : Nat := 15 * 60 * 1000

/-- A code went out less than a minute ago. -/
def throttled (session : Option WalletLinkSession) (now : Nat) : Bool :=
  (session.bind WalletLinkSession.lastOtpSentAt).any fun sentAt => now < sentAt + otpThrottleMs

variable (sdk : OnboardingSdk)

/-- A row with a new code, for a user. -/
def issued (userId : Nat) (code : Text) (now : Nat) : WalletLinkSession where
  userId := some userId
  otpCodeHash := some (sdk.hashOtp code)
  otpExpiresAt := some (now + otpTtlMs)
  otpAttemptCount := 0
  lastOtpSentAt := some now
  token := none
  tokenExpiresAt := none

/-- `save` of an entity that was read, or of one that was created. -/
def save (email : Text) (row : WalletLinkSession) : Option WalletLinkSession → Program Unit
  | none => call (Ask.insertSession email row)
  | some _ => call (Ask.saveSession email row)

def start (emailRaw : Text) : Program Outcome :=
  if isEmail (normalizeEmail sdk emailRaw) = false then .throw ⟨.badRequest, "Invalid email"⟩
  else do
    let matching : List Nat ← call (Ask.findUsers (normalizeEmail sdk emailRaw))
    match matching with
    | [userId] => do
        let session : Option WalletLinkSession ←
          call (Ask.findSession (normalizeEmail sdk emailRaw))
        let now : Nat ← call Ask.newDate
        if throttled session now = true then
          .throw ⟨.badRequest, "Esperá unos segundos antes de pedir otro código"⟩
        else do
          let n : Nat ← call Ask.randomInt
          let code := (toString n).toList
          save (normalizeEmail sdk emailRaw) (issued sdk userId code now) session
          pure (.started (some (now + otpTtlMs)))
    | _ => pure (.started none)

def fail : HttpError := ⟨.unauthorized, "Invalid or expired code"⟩

/-- A row with one wrong attempt more. -/
def failed (session : WalletLinkSession) : WalletLinkSession :=
  { session with otpAttemptCount := session.otpAttemptCount + 1 }

/-- A row with a token, and its code used up. -/
def granted (session : WalletLinkSession) (token : Text) (now : Nat) : WalletLinkSession :=
  { session with
    token := some token
    tokenExpiresAt := some (now + sessionTtlMs)
    otpCodeHash := none
    otpExpiresAt := none
    otpAttemptCount := 0 }

/-- `token` is the random token that is drawn if the code is right. -/
def session (emailRaw code token : Text) : Program Outcome := do
  let found : Option WalletLinkSession ← call (Ask.findSession (normalizeEmail sdk emailRaw))
  match found with
  | none => .throw fail
  | some session =>
      match session.otpExpiresAt, session.userId with
      | some expiresAt, some userId =>
          if falsy session.otpCodeHash = true then .throw fail
          else do
            let now : Nat ← call Ask.newDate
            if expiresAt < now then .throw fail
            else if otpMaxAttempts ≤ session.otpAttemptCount then
              .throw ⟨.unauthorized, "Too many attempts, request a new code"⟩
            else if session.otpCodeHash ≠ some (sdk.hashOtp (trim code)) then do
              let _ ← call (Ask.saveSession (normalizeEmail sdk emailRaw) (failed session))
              .throw fail
            else do
              let _ ←
                call (Ask.saveSession (normalizeEmail sdk emailRaw) (granted session token now))
              let wallet : Option Text ← call (Ask.findUser userId)
              pure (.session token userId (normalizeEmail sdk emailRaw) wallet)
      | _, _ => .throw fail

inductive Request
  | start (emailRaw : Text)
  | session (emailRaw code token : Text)
  deriving DecidableEq

def Request.program : Request → Program Outcome
  | .start emailRaw => WalletLink.start sdk emailRaw
  | .session emailRaw code token => WalletLink.session sdk emailRaw code token

/-! ## The table -/

/-- The clock and the sessions by email. -/
structure LinkState where
  now : Nat
  sessions : Text → Option WalletLinkSession

def LinkState.save (s : LinkState) (email : Text) (row : WalletLinkSession) : LinkState :=
  { s with sessions := Function.update s.sessions email (some row) }

/-- What a call does once it is through. -/
def LinkState.effect (s : LinkState) : Ask → LinkState
  | .insertSession email row => s.save email row
  | .saveSession email row => s.save email row
  | _ => s

/-- What a call may answer. Emails are unique among sessions; users are not looked at. -/
def LinkState.answers (s : LinkState) : (ask : Ask) → Answer ask → Bool
  | .newDate, now => now = s.now
  | .randomInt, n => 100000 ≤ n ∧ n < 1000000
  | .findSession email, found => found = s.sessions email
  | .insertSession email _, _ => (s.sessions email).isNone
  | _, _ => true

/-- The clock and the random source do not throw. -/
def fallible : Ask → Bool
  | .newDate => false
  | .randomInt => false
  | _ => true

/-- Reads and saves are atomic: a call that throws had no effect. -/
def Responds (s : LinkState) (x : Asked) (s' : LinkState) : Prop :=
  match x with
  | ⟨ask, .ok answer⟩ => s.answers ask answer = true ∧ s' = s.effect ask
  | ⟨ask, .error _⟩ => fallible ask = true ∧ s' = s

/-- The hourly job takes expired tokens away. -/
def LinkState.cleanup (s : LinkState) : LinkState :=
  { s with
    sessions := fun email => (s.sessions email).map fun row =>
      if row.tokenExpiresAt.any (· < s.now) then { row with token := none, tokenExpiresAt := none }
      else row }

/-- Requests under way, while time goes by and the job runs. -/
def service (ι : Type) : Service LinkState ι Request Ask Answer HttpError Outcome where
  program _ _ request := request.program sdk
  respond _ := Responds
  settle s _ _ _ := s
  outside s s' := s' = s.cleanup ∨ ∃ ms, s' = { s with now := s.now + ms }

abbrev LinkJob : Type := Job Request Ask Answer HttpError Outcome

abbrev Pool (ι : Type) : Type := ThreadPool LinkState ι Request Ask Answer HttpError Outcome

abbrev Event (ι : Type) : Type := ThreadEvent ι Request Ask Answer HttpError Outcome

end WalletLink

end Lendoor.Backend
