import Lendoor.Backend.Auth
import Lendoor.Backend.WalletLink
import Lendoor.Core.History
import Lendoor.Core.IsoDate

/-! # Linked wallets

A companion session signs for an external wallet. `nonce` writes the message to sign, and
`verify` takes the signature, spends the nonce and links the wallet to the user of the
session. Both read the user off the bearer token, which `start` and `session` hand out.
-/

namespace Lendoor.Backend

open Cctp (Text isHexDigit)
open Async (call caught lift Exchange)

namespace LinkedWallets

open Onboarding (OnboardingSdk)
open WalletLink (WalletLinkSession LinkState)

/-- The recovery of a signer beside the primitives of the sign-in. -/
structure LinkSdk extends OnboardingSdk where
  recoverMessageAddress : Text → Text → Option Text

structure WalletLinkNonce where
  id : Nat
  userId : Nat
  address : Text
  nonce : Text
  message : Text
  used : Bool
  expiresAt : Nat
  deriving DecidableEq

structure LinkedExternalWallet where
  userId : Nat
  address : Text
  chainId : Int
  verifiedAt : Nat
  source : Text
  verificationMethod : Text
  message : Text
  signature : Text
  deriving DecidableEq

/-- What a request awaits; the sign-in has its own calls. An absent message is no condition
on a nonce. -/
inductive Ask
  | companion (ask : WalletLink.Ask)
  | randomBytes
  | findByToken (token : Text)
  | insertNonce (userId : Nat) (address nonce message : Text) (expiresAt : Nat)
  | findNonce (userId : Nat) (address : Text) (message : Option Text)
  | recoverMessageAddress (message : Option Text) (signature : Text)
  | consumeNonce (id : Nat)
  | findLinked (address : Text)
  | insertLinked (row : LinkedExternalWallet)
  deriving DecidableEq

/-- `findByToken` answers the email of the session with its row, `consumeNonce` whether it
changed one. -/
@[reducible] def Answer : Ask → Type
  | .companion ask => WalletLink.Answer ask
  | .randomBytes => Text
  | .findByToken _ => Option (Text × WalletLinkSession)
  | .insertNonce _ _ _ _ _ => Unit
  | .findNonce _ _ _ => Option WalletLinkNonce
  | .recoverMessageAddress _ _ => Text
  | .consumeNonce _ => Bool
  | .findLinked _ => Option LinkedExternalWallet
  | .insertLinked _ => Unit

abbrev Program := Async Ask Answer HttpError

abbrev Asked := Exchange Ask Answer HttpError

inductive Outcome
  | companion (out : WalletLink.Outcome)
  | nonce (nonce message : Text) (expiresAt : Nat)
  | linked (address : Text) (verifiedAt : Nat)
  deriving DecidableEq

def nonceTtlMs : Nat := 5 * 60 * 1000

def newDate : Program Nat := call (Ask.companion .newDate)

/-! ## The bearer token -/

/-- The token of an `Authorization` header. -/
def bearerToken : Option Text → Except HttpError Text
  | none => .error ⟨.unauthorized, "Missing link session"⟩
  | some authHeader =>
      if "Bearer ".toList.isPrefixOf authHeader = false then
        .error ⟨.unauthorized, "Missing link session"⟩
      else
        let token := trim (authHeader.drop "Bearer ".length)
        if token.isEmpty = true then .error ⟨.unauthorized, "Empty link session"⟩ else .ok token

def validateLinkSession (token : Text) : Program Nat := do
  let found : Option (Text × WalletLinkSession) ← call (Ask.findByToken token)
  match found with
  | none => .throw ⟨.unauthorized, "Invalid link session"⟩
  | some (_, session) =>
      match session.userId, session.tokenExpiresAt with
      | some userId, some tokenExpiresAt => do
          let now : Nat ← newDate
          if tokenExpiresAt < now then .throw ⟨.unauthorized, "Link session expired"⟩
          else pure userId
      | _, _ => .throw ⟨.unauthorized, "Invalid link session"⟩

/-- `WalletLinkScopeGuard` -/
def canActivate (authHeader : Option Text) : Program Nat := do
  let token ← lift (bearerToken authHeader)
  validateLinkSession token

/-! ## The nonce -/

def isLowerHexDigit (c : Char) : Bool := ('0' ≤ c && c ≤ '9') || ('a' ≤ c && c ≤ 'f')

def requireAddress (addressRaw : Option Text) : Except HttpError Text :=
  let a := Auth.toLowerCase (trim (addressRaw.getD []))
  if "0x".toList.isPrefixOf a = true ∧ a.length = 42 ∧
    (a.drop 2).all isLowerHexDigit = true then .ok a
  else .error ⟨.badRequest, "Invalid address"⟩

/-- The message to sign. -/
def linkMessage (address chainId nonce : Text) (issuedAt : Nat) : Text :=
  "By signing, you are proving you own this wallet and linking it to your Lendoor account. ".toList ++
    "This does not initiate a transaction or cost any fees.\n\nDomain: link.lendoor.xyz\nWallet: ".toList ++
    address ++ "\nChain ID: ".toList ++ chainId ++ "\nNonce: ".toList ++ nonce ++
    "\nIssued At: ".toList ++
    IsoDate.toISOString issuedAt

/-- The chain id is taken as the request has it. -/
def createNonce (userId : Nat) (addressRaw : Option Text) (chainId : Text) : Program Outcome := do
  let address ← lift (requireAddress addressRaw)
  let nonce : Text ← call Ask.randomBytes
  let issuedAt : Nat ← newDate
  let message := linkMessage address chainId nonce issuedAt
  let _ ← call (Ask.insertNonce userId address nonce message (issuedAt + nonceTtlMs))
  pure (.nonce nonce message (issuedAt + nonceTtlMs))

/-! ## The signature -/

/-- A signature by one key. -/
def isEcdsa : Option Text → Bool
  | none => false
  | some signature => "0x".toList.isPrefixOf signature && signature.length == 132

def linkedRow (userId : Nat) (address : Text) (chainId : Int) (verifiedAt : Nat)
    (message signature : Text) :
    LinkedExternalWallet where
  userId := userId
  address := address
  chainId := chainId
  verifiedAt := verifiedAt
  source := "companion_web".toList
  verificationMethod := "ecdsa_companion".toList
  message := message
  signature := signature

/-- From the spent nonce on. -/
def linkWallet (userId : Nat) (address : Text) (chainId : Int) (message signature : Text) :
    Program Outcome := do
  let existing : Option LinkedExternalWallet ← call (Ask.findLinked address)
  match existing with
  | some row =>
      if row.userId ≠ userId then .throw ⟨.conflict, "Wallet already linked to another account"⟩
      else do
        let _ ← newDate
        pure (.linked address row.verifiedAt)
  | none => do
      let verifiedAt : Nat ← newDate
      let _ ←
        call (Ask.insertLinked (linkedRow userId address chainId verifiedAt message signature))
      pure (.linked address verifiedAt)

/-- From the live nonce on. -/
def spendNonce (userId : Nat) (address : Text) (chainId : Int)
    (message : Option Text) (signature : Text)
    (nonceRow : WalletLinkNonce) : Program Outcome := do
  let recovered : Except HttpError Text ← caught (Ask.recoverMessageAddress message signature)
  match recovered with
  | .error _ => .throw ⟨.badRequest, "Invalid signature"⟩
  | .ok signer =>
      if Auth.toLowerCase signer ≠ address then
        .throw ⟨.badRequest, "Signature does not match wallet"⟩
      else do
        let affected : Bool ← call (Ask.consumeNonce nonceRow.id)
        if affected = false then .throw ⟨.badRequest, "Nonce already used"⟩
        else linkWallet userId address chainId (message.getD []) signature

def verify (userId : Nat) (addressRaw : Option Text) (chainId : Int)
    (message signature : Option Text) :
    Program Outcome := do
  let address ← lift (requireAddress addressRaw)
  if isEcdsa signature = false then .throw ⟨.badRequest, "Unsupported signature (v1 = ECDSA only)"⟩
  else do
    let found : Option WalletLinkNonce ← call (Ask.findNonce userId address message)
    match found with
    | none => .throw ⟨.badRequest, "Nonce not found or already used"⟩
    | some nonceRow => do
        let now : Nat ← newDate
        if nonceRow.expiresAt < now then .throw ⟨.badRequest, "Nonce expired"⟩
        else spendNonce userId address chainId message (signature.getD []) nonceRow

/-! ## Requests -/

inductive Request
  | companion (request : WalletLink.Request)
  | nonce (authHeader addressRaw : Option Text) (chainId : Text)
  | verify (authHeader addressRaw : Option Text) (chainId : Int) (message signature : Option Text)
  deriving DecidableEq

variable (sdk : LinkSdk)

/-- A sign-in, among the calls of the whole. -/
def signIn (request : WalletLink.Request) : Program Outcome := do
  let out ← (request.program sdk.toOnboardingSdk).within Ask.companion
  pure (.companion out)

def Request.program : Request → Program Outcome
  | .companion request => signIn sdk request
  | .nonce authHeader addressRaw chainId => do
      let userId ← canActivate authHeader
      createNonce userId addressRaw chainId
  | .verify authHeader addressRaw chainId message signature => do
      let userId ← canActivate authHeader
      LinkedWallets.verify userId addressRaw chainId message signature

/-! ## The tables -/

/-- The sessions with the clock, the nonces and the linked wallets. -/
structure LinkTables where
  companion : LinkState
  nonces : List WalletLinkNonce
  nextNonceId : Nat
  wallets : List LinkedExternalWallet

/-- The nonces that a look-up may answer. -/
def WalletLinkNonce.Matches (row : WalletLinkNonce) (userId : Nat) (address : Text)
    (message : Option Text) : Prop :=
  row.userId = userId ∧ row.address = address ∧ (∀ m, message = some m → row.message = m) ∧
    row.used = false

/-- `UPDATE … SET used = true WHERE id = … AND used = false` -/
def WalletLinkNonce.consume (id : Nat) (row : WalletLinkNonce) : WalletLinkNonce :=
  if row.id = id then { row with used := true } else row

/-- What a call may answer. Nonces are unique, and so are the addresses of linked wallets. A
message that is not there has no signer. -/
def LinkTables.Answers (s : LinkTables) : (ask : Ask) → Answer ask → Prop
  | .companion ask, answer => s.companion.answers ask answer = true
  | .randomBytes, nonce => nonce.length = 32 ∧ ∀ c ∈ nonce, isLowerHexDigit c = true
  | .findByToken token, none => ∀ email row, s.companion.sessions email = some row →
      row.token ≠ some token
  | .findByToken token, some (email, row) => s.companion.sessions email = some row ∧
      row.token = some token
  | .insertNonce _ _ nonce _ _, _ => ∀ row ∈ s.nonces, row.nonce ≠ nonce
  | .findNonce userId address message, none => ∀ row ∈ s.nonces, ¬row.Matches userId address message
  | .findNonce userId address message, some row => row ∈ s.nonces ∧
      row.Matches userId address message
  | .recoverMessageAddress message signature, signer =>
      ∃ m, message = some m ∧ sdk.recoverMessageAddress m signature = some signer
  | .consumeNonce id, affected => affected = s.nonces.any fun row => row.id = id ∧ row.used = false
  | .findLinked address, found => found = s.wallets.find? fun row => row.address = address
  | .insertLinked row, _ => ∀ other ∈ s.wallets, other.address ≠ row.address

/-- What a call does once it is through. -/
def LinkTables.effect (s : LinkTables) : Ask → LinkTables
  | .companion ask => { s with companion := s.companion.effect ask }
  | .insertNonce userId address nonce message expiresAt =>
      { s with
        nonces := s.nonces ++ [⟨s.nextNonceId, userId, address, nonce, message, false, expiresAt⟩]
        nextNonceId := s.nextNonceId + 1 }
  | .consumeNonce id => { s with nonces := s.nonces.map (WalletLinkNonce.consume id) }
  | .insertLinked row => { s with wallets := s.wallets ++ [row] }
  | _ => s

/-- The clock and the random source do not throw. -/
def fallible : Ask → Bool
  | .companion ask => WalletLink.fallible ask
  | .randomBytes => false
  | _ => true

/-- Reads and writes are atomic: a call that throws had no effect. -/
def Responds (s : LinkTables) (x : Asked) (s' : LinkTables) : Prop :=
  match x with
  | ⟨ask, .ok answer⟩ => s.Answers sdk ask answer ∧ s' = s.effect ask
  | ⟨ask, .error _⟩ => fallible ask = true ∧ s' = s

/-- Time goes by, and the hourly job takes expired nonces and tokens away, by the clock that
it read as it started. -/
inductive Outside : LinkTables → LinkTables → Prop
  | clock (s : LinkTables) (ms : Nat) :
      Outside s { s with companion := { s.companion with now := s.companion.now + ms } }
  | sweepNonces (s : LinkTables) (now : Nat) : now ≤ s.companion.now →
      Outside s { s with nonces := s.nonces.filter fun row => ¬row.expiresAt < now }
  | sweepTokens (s : LinkTables) (now : Nat) : now ≤ s.companion.now →
      Outside s { s with companion :=
        { s.companion with sessions :=
          ({ s.companion with now := now } : LinkState).cleanup.sessions } }

def service (ι : Type) : Service LinkTables ι Request Ask Answer HttpError Outcome where
  program _ _ request := request.program sdk
  respond _ := Responds sdk
  settle s _ _ _ := s
  outside := Outside

abbrev LinkJob : Type := Job Request Ask Answer HttpError Outcome

abbrev Pool (ι : Type) : Type := ThreadPool LinkTables ι Request Ask Answer HttpError Outcome

abbrev Event (ι : Type) : Type := ThreadEvent ι Request Ask Answer HttpError Outcome

end LinkedWallets

end Lendoor.Backend
