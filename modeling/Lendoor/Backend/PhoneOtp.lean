import Lendoor.Core.Service
import Lendoor.Cctp.Transfer
import Lendoor.Backend.Http

/-! # Phone verification

Codes that go out to a phone and are checked against the user's row: `verifyPhone`,
`resendPhoneOtp`, `updatePhone` and `verifyPhoneOtp` requests, which overlap at every
await. A row holds one code and not the number it went to.
-/

namespace Lendoor.Backend

open Cctp (Text falsy)
open Async (call caught lift Exchange)

namespace PhoneOtp

/-- The columns of a user that the two services read and write. -/
structure User where
  walletAddress : Text
  phone : Option Text := none
  phoneVerifiedAt : Option Nat := none
  phoneOtpCode : Option Text := none
  phoneOtpExpiresAt : Option Nat := none
  lastPhoneOtpSentAt : Option Nat := none
  deriving DecidableEq

/-- What a request awaits, the clock and the random source included. `findByPhone` answers
the wallet of the row. The row of a user is updated by its wallet or its id. -/
inductive Ask
  | dateNow
  | random
  | findUser (wallet : Text)
  | findByPhone (phone : Text)
  | storeCode (wallet code : Text) (expiresAt : Nat)
  | clearCode (wallet : Text)
  | storeSentAt (wallet : Text) (sentAt : Nat)
  | storePhone (wallet phone : Text) (verifiedAt : Nat)
  | sendTemplate (recipient code : Text)
  | sendText (recipient body : Text)
  deriving DecidableEq

@[reducible] def Answer : Ask → Type
  | .dateNow => Nat
  | .random => Nat
  | .findUser _ => Option User
  | .findByPhone _ => Option Text
  | .storeCode _ _ _ => Unit
  | .clearCode _ => Unit
  | .storeSentAt _ _ => Unit
  | .storePhone _ _ _ => Unit
  | .sendTemplate _ _ => Unit
  | .sendText _ _ => Unit

/-- An exception of the API, or an error of the database or the messenger. -/
inductive Thrown
  | http (error : HttpError)
  | driver (code : Option String)
  deriving DecidableEq

abbrev Program := Async Ask Answer Thrown

abbrev Asked := Exchange Ask Answer Thrown

def thrown (exception : HttpException) (message : String) : Thrown := .http ⟨exception, message⟩

/-- The wallet of an address. -/
def walletOf (walletAddress : Text) : Except Thrown Text :=
  (normalizeWallet walletAddress).mapError .http

def findUserOrThrow (wallet : Text) : Program User := do
  let user : Option User ← call (Ask.findUser wallet)
  match user with
  | none => .throw (thrown .notFound "User not found")
  | some user => pure user

/-- No other wallet has the number. -/
def ensurePhoneIsFreeForWallet (phone wallet : Text) : Program Unit := do
  let existing : Option Text ← call (Ask.findByPhone phone)
  match existing with
  | none => pure ()
  | some owner =>
      if owner ≠ wallet then
        .throw (thrown .conflict "Este número ya está registrado con otra cuenta")
      else pure ()

/-- A code went out less than a minute ago. -/
def assertPhoneOtpThrottle (user : User) : Program Unit :=
  match user.lastPhoneOtpSentAt with
  | none => pure ()
  | some sentAt => do
      let now : Nat ← call Ask.dateNow
      if now < sentAt + 60000 then
        .throw (thrown .badRequest "Esperá al menos 1 minuto antes de pedir otro código")
      else pure ()

/-- The message without a template. -/
def otpBody (code : Text) : Text :=
  "Tu código de verificación Lendoor es: ".toList ++ code ++ "\n\nExpira en 10 minutos.".toList

/-- Six digits. -/
def codeOf (n : Nat) : Text := (toString n).toList

section Programs

-- whether the keys of the messenger are set
variable (kapso : Bool)

/-- Store a new code, and send it by the template or else as a text. -/
def sendVerification (phone walletAddress : Text) : Program Unit := do
  let wallet ← lift (walletOf walletAddress)
  let n : Nat ← call Ask.random
  let now : Nat ← call Ask.dateNow
  let _ ← call (Ask.storeCode wallet (codeOf n) (now + 10 * 60000))
  if kapso = true then do
    let template ← caught (Ask.sendTemplate phone (codeOf n))
    match template with
    | .ok _ => pure ()
    | .error _ => do
        let _ ← caught (Ask.sendText phone (otpBody (codeOf n)))
        pure ()
  else pure ()

/-- Compare a code with the stored one, and take it away. The number is not looked at. -/
def checkVerification (_phone code walletAddress : Text) : Program Bool := do
  let wallet ← lift (walletOf walletAddress)
  let user : Option User ← call (Ask.findUser wallet)
  match user with
  | none => pure false
  | some user =>
      match user.phoneOtpExpiresAt with
      | none => pure false
      | some expiresAt =>
          if falsy user.phoneOtpCode = true then pure false
          else do
            let now : Nat ← call Ask.dateNow
            if expiresAt < now then pure false
            else if user.phoneOtpCode = some code then do
              let _ ← call (Ask.clearCode wallet)
              pure true
            else pure false

/-- Send a code to a number that is free. -/
def beginVerification (walletAddress phone : Text) : Program Unit := do
  let wallet ← lift (walletOf walletAddress)
  let user ← findUserOrThrow wallet
  ensurePhoneIsFreeForWallet phone wallet
  assertPhoneOtpThrottle user
  sendVerification kapso phone wallet
  let now : Nat ← call Ask.dateNow
  call (Ask.storeSentAt wallet now)

def verifyPhone (walletAddress phone : Text) : Program Unit :=
  beginVerification kapso walletAddress phone

def resendPhoneOtp (walletAddress phone : Text) : Program Unit :=
  verifyPhone kapso walletAddress phone

def updatePhone (walletAddress phone : Text) : Program Unit :=
  beginVerification kapso walletAddress phone

/-- The number is stored once the code was right. -/
def verifyPhoneOtp (walletAddress phone code : Text) : Program Unit := do
  let wallet ← lift (walletOf walletAddress)
  let _ ← findUserOrThrow wallet
  ensurePhoneIsFreeForWallet phone wallet
  let approved ← checkVerification phone code wallet
  if approved = false then .throw (thrown .badRequest "Código inválido o expirado")
  else do
    let now : Nat ← call Ask.dateNow
    let updated ← caught (Ask.storePhone wallet phone now)
    match updated with
    | .ok _ => pure ()
    | .error error =>
        if error = .driver (some "23505") then
          .throw (thrown .conflict "Este teléfono ya fue verificado por otro usuario")
        else .throw error

inductive Request
  | verifyPhone (walletAddress phone : Text)
  | resendPhoneOtp (walletAddress phone : Text)
  | updatePhone (walletAddress phone : Text)
  | verifyPhoneOtp (walletAddress phone code : Text)
  deriving DecidableEq

def Request.program : Request → Program Unit
  | .verifyPhone walletAddress phone => PhoneOtp.verifyPhone kapso walletAddress phone
  | .resendPhoneOtp walletAddress phone => PhoneOtp.resendPhoneOtp kapso walletAddress phone
  | .updatePhone walletAddress phone => PhoneOtp.updatePhone kapso walletAddress phone
  | .verifyPhoneOtp walletAddress phone code => PhoneOtp.verifyPhoneOtp walletAddress phone code

end Programs

def Request.walletAddress : Request → Text
  | .verifyPhone walletAddress _ => walletAddress
  | .resendPhoneOtp walletAddress _ => walletAddress
  | .updatePhone walletAddress _ => walletAddress
  | .verifyPhoneOtp walletAddress _ _ => walletAddress

def Request.phone : Request → Text
  | .verifyPhone _ phone => phone
  | .resendPhoneOtp _ phone => phone
  | .updatePhone _ phone => phone
  | .verifyPhoneOtp _ phone _ => phone

/-! ## The table and the messages -/

/-- A message that went out. A template shows its code. -/
structure Message where
  recipient : Text
  body : Text
  sentAt : Nat
  deriving DecidableEq

def Message.Carries (m : Message) (phone code : Text) : Prop :=
  m.recipient = phone ∧ (m.body = code ∨ m.body = otpBody code)

/-- Where the code of a wallet comes from: the request that stored it, and the message by
which that request sent it. -/
structure Issue (ι : Type) where
  issuer : ι
  code : Text
  expiresAt : Nat
  storedAt : Nat
  message : Option Message
  deriving DecidableEq

/-- The clock and the users, and the history of codes and messages, which no request
reads. -/
structure PhoneState (ι : Type) where
  now : Nat
  users : List User
  issue : Text → Option (Issue ι)
  sent : List Message

section Effects

variable {ι : Type} [DecidableEq ι]

def PhoneState.userOf (s : PhoneState ι) (wallet : Text) : Option User :=
  s.users.find? fun user => user.walletAddress = wallet

/-- The update of a wallet's row. -/
def PhoneState.update (s : PhoneState ι) (wallet : Text) (patch : User → User) : PhoneState ι :=
  { s with
    users := s.users.map fun user => if user.walletAddress = wallet then patch user else user }

/-- No other wallet has the number. -/
def PhoneState.phoneFree (s : PhoneState ι) (phone wallet : Text) : Bool :=
  s.users.all fun user => user.walletAddress = wallet || user.phone ≠ some phone

/-- A request stores a code. -/
def PhoneState.issueCode (s : PhoneState ι) (i : ι) (wallet code : Text) (expiresAt : Nat) :
    PhoneState ι :=
  { s.update wallet fun user =>
      { user with phoneOtpCode := some code, phoneOtpExpiresAt := some expiresAt } with
    issue := Function.update s.issue wallet (some ⟨i, code, expiresAt, s.now, none⟩) }

/-- A request's message goes out, with the code that the request stored. -/
def PhoneState.send (s : PhoneState ι) (i : ι) (recipient body : Text) : PhoneState ι :=
  { s with
    sent := s.sent ++ [⟨recipient, body, s.now⟩]
    issue := fun wallet => (s.issue wallet).map fun issue =>
      if issue.issuer = i then { issue with message := some ⟨recipient, body, s.now⟩ } else issue }

/-- What a call of a request does once it is through. -/
def PhoneState.effect (s : PhoneState ι) (i : ι) : Ask → PhoneState ι
  | .storeCode wallet code expiresAt => s.issueCode i wallet code expiresAt
  | .clearCode wallet =>
      s.update wallet fun user => { user with phoneOtpCode := none, phoneOtpExpiresAt := none }
  | .storeSentAt wallet sentAt => s.update wallet fun user =>
      { user with lastPhoneOtpSentAt := some sentAt }
  | .storePhone wallet phone verifiedAt =>
      s.update wallet fun user =>
        { user with phone := some phone, phoneVerifiedAt := some verifiedAt }
  | .sendTemplate recipient code => s.send i recipient code
  | .sendText recipient body => s.send i recipient body
  | _ => s

/-- What a call may answer. Numbers are unique among users. -/
def PhoneState.answers (s : PhoneState ι) : (ask : Ask) → Answer ask → Bool
  | .dateNow, now => now = s.now
  | .random, n => 100000 ≤ n ∧ n < 1000000
  | .findUser wallet, found => found = s.userOf wallet
  | .findByPhone phone, found =>
      found = (s.users.find? fun user => user.phone = some phone).map User.walletAddress
  | .storePhone wallet phone _, _ => s.phoneFree phone wallet
  | _, _ => true

/-- The clock and the random source do not throw. -/
def fallible : Ask → Bool
  | .dateNow => false
  | .random => false
  | _ => true

/-- A call that throws had no effect, or it had one and the answer was lost. -/
def Responds (i : ι) (s : PhoneState ι) (x : Asked) (s' : PhoneState ι) : Prop :=
  match x with
  | ⟨ask, .ok answer⟩ => s.answers ask answer = true ∧ s' = s.effect i ask
  | ⟨ask, .error _⟩ =>
      fallible ask = true ∧ (s' = s ∨ ∃ answer, s.answers ask answer = true ∧ s' = s.effect i ask)

/-- Requests under way, each with a thread of its own, while time goes by. -/
def service (kapso : Bool) (request : ι → Request) :
    Service (PhoneState ι) ι Unit Ask Answer Thrown Unit where
  program _ i _ := (request i).program kapso
  respond := Responds
  settle s _ _ _ := s
  outside s s' := ∃ ms, s' = { s with now := s.now + ms }

abbrev Pool (ι : Type) : Type := ThreadPool (PhoneState ι) ι Unit Ask Answer Thrown Unit

abbrev Event (ι : Type) : Type := ThreadEvent ι Unit Ask Answer Thrown Unit

end Effects

end PhoneOtp

end Lendoor.Backend
