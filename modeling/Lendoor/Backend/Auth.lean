import Lendoor.Core.Service
import Lendoor.Cctp.Transfer
import Lendoor.Backend.Http
import Mathlib.Data.List.Infix

/-! # Authentication

Logins by a signed nonce, and the access tokens they issue: `verifySiweAndIssueToken`,
`verifyStellarAndIssueToken`, `refreshToken` and `validateToken` against the nonce and
token tables and the cache. Signature schemes and text codecs are parameters.
-/

namespace Lendoor.Backend

open Cctp (Text Bytes falsy)
open Async (call caught lift Exchange)

namespace Auth

structure SiweMessage where
  address : Option Text
  nonce : Option Text
  chainId : Option Nat
  domain : Option Text
  issuedAt : Option Nat

/-- The parser of sign-in messages, the platform's text codecs, and the digest. -/
structure AuthSdk where
  parseSiweMessage : Text → Option SiweMessage
  utf8 : Text → Bytes
  decodeUtf8 : Bytes → Text
  base64 : Text → Bytes
  sha256 : Bytes → Bytes

/-- The columns of a nonce beside the nonce itself. -/
structure SiweNonce where
  used : Bool
  expiresAt : Nat
  deriving DecidableEq

/-- The columns of a token beside the token itself. -/
structure AccessToken where
  walletAddress : Text
  revokedAt : Option Nat
  expiresAt : Option Nat
  deriving DecidableEq

/-- What a request awaits, the clock and the random source included. `findNonce` looks
for an unused nonce that expires after `now`. Rows go by their unique nonce or token. -/
inductive Ask
  | newDate
  | randomBytes (count : Nat)
  | findNonce (nonce : Text) (now : Nat)
  | findAnyNonce (nonce : Text)
  | saveNonce (nonce : Text) (row : SiweNonce)
  | getReplay (nonce address : Text)
  | setReplay (nonce address : Text) (ttl : Nat)
  | verifySiweMessage (chainId : Nat) (message signature : Text) (address : Option Text)
  | recoverMessageAddress (message signature : Text)
  | verifyMessage (chainId : Nat) (address : Option Text) (message signature : Text)
  | verifyEd25519 (signature hash key : Bytes)
  | findToken (token : Text)
  | saveToken (token : Text) (row : AccessToken)
  | revokeToken (token : Text) (revokedAt : Nat)
  | getEntry (token : Text)
  | setEntry (token walletAddress : Text) (ttl : Nat)
  | delEntry (token : Text)
  deriving DecidableEq

/-- A conditional update answers how many rows it touched; an entry is its wallet. -/
@[reducible] def Answer : Ask → Type
  | .newDate => Nat
  | .randomBytes _ => Text
  | .findNonce _ _ => Option SiweNonce
  | .findAnyNonce _ => Option SiweNonce
  | .saveNonce _ _ => Unit
  | .getReplay _ _ => Bool
  | .setReplay _ _ _ => Unit
  | .verifySiweMessage _ _ _ _ => Bool
  | .recoverMessageAddress _ _ => Text
  | .verifyMessage _ _ _ _ => Bool
  | .verifyEd25519 _ _ _ => Bool
  | .findToken _ => Option AccessToken
  | .saveToken _ _ => Unit
  | .revokeToken _ _ => Nat
  | .getEntry _ => Option Text
  | .setEntry _ _ _ => Unit
  | .delEntry _ => Unit

abbrev Program := Async Ask Answer HttpError

abbrev Asked := Exchange Ask Answer HttpError

structure Session where
  wallet : Text
  accessToken : Text
  deriving DecidableEq

def unauthorized (message : String) : HttpError := ⟨.unauthorized, message⟩

/-- A token of one hour for a wallet. -/
def createAccessToken (wallet : Text) : Program Text := do
  let token : Text ← call (Ask.randomBytes 24)
  let now : Nat ← call Ask.newDate
  let walletAddress ← lift (normalizeWallet wallet)
  let _ ← call (Ask.saveToken token ⟨walletAddress, none, some (now + 60 * 60 * 1000)⟩)
  pure token

/-! ## Logins -/

/-- The unused check, the verification of the signed message, the marking as used and the
token, as both logins by nonce run them. -/
def loginWithNonce (nonce : Text) (now : Nat) (verify : Program Bool) (invalidSignature : String)
    (wallet : Text) : Program Session := do
  let stored : Option SiweNonce ← call (Ask.findNonce nonce now)
  match stored with
  | none => .throw (unauthorized "Invalid or expired nonce")
  | some stored =>
      let isValid ← verify
      if isValid = false then .throw (unauthorized invalidSignature)
      else do
        let _ ← call (Ask.saveNonce nonce { stored with used := true })
        let accessToken ← createAccessToken wallet
        pure ⟨wallet, accessToken⟩

structure LoginInput where
  wallet : Text
  signature : Text
  message : Text
  nonce : Text
  deriving DecidableEq

variable (sdk : AuthSdk)

/-- The signed text has to name the nonce. What throws is an invalid signature. -/
def verifyStellar (input : LoginInput) (wallet : Text) : Program Bool := do
  let messageBytes := sdk.utf8 input.message
  let signatureBytes := sdk.base64 input.signature
  if ¬ input.nonce <:+: sdk.decodeUtf8 messageBytes then
    .throw (unauthorized "Signed message nonce mismatch")
  else
    let sep53MessageHash := sdk.sha256 (sdk.utf8 "Stellar Signed Message:\n".toList ++ messageBytes)
    match decodeStellarPublicKey wallet with
    | .error _ => pure false
    | .ok key => do
        let r ← caught (Ask.verifyEd25519 signatureBytes sep53MessageHash key)
        pure (r.toOption.getD false)

def verifyStellarAndIssueToken (input : LoginInput) : Program Session := do
  let wallet ← lift (normalizeWallet input.wallet)
  let now : Nat ← call Ask.newDate
  loginWithNonce input.nonce now (verifyStellar sdk input wallet) "Invalid Stellar signature" wallet

def toLowerCase (s : Text) : Text := s.map Char.toLower

def isLemonDomain (domain : Text) : Bool :=
  let d := toLowerCase domain
  (".lemoncash.com.ar".toList).isSuffixOf d || d == "lemoncash.com.ar".toList ||
    (".lemon.me".toList).isSuffixOf d || d == "lemon.me".toList

/-- `getChainConfig`, of which the requests see the chain. -/
def chainConfigId (chainId : Nat) : Nat := if chainId = 42220 then 42220 else 8453

def isHex (signature : Text) : Bool := ['0', 'x'].isPrefixOf signature

/-- A message from a smart wallet is accepted for five minutes. -/
def messageExpired (parsed : SiweMessage) (now : Nat) : Bool :=
  match parsed.issuedAt with
  | none => true
  | some issuedAt => 5 * 60 * 1000 < now - issuedAt

/-- The verification with its fallbacks: plain recovery for a signature of 65 bytes, and
smart wallets for the trusted domain. -/
def verifySiwe (input : LoginInput) (parsed : SiweMessage) (now : Nat) : Program Bool := do
  let address := parsed.address.map toLowerCase
  let chainId := chainConfigId (parsed.chainId.getD 0)
  let direct ← caught (Ask.verifySiweMessage chainId input.message input.signature address)
  if direct.toOption.getD false = true then pure true
  else if isHex input.signature = true ∧ input.signature.length = 132 then do
    let recovered ← caught (Ask.recoverMessageAddress input.message input.signature)
    pure (recovered.toOption.any fun recovered => some (toLowerCase recovered) = address)
  else if isHex input.signature = true ∧ 132 < input.signature.length ∧
      isLemonDomain (parsed.domain.getD []) = true then
    if messageExpired parsed now = true then .throw (unauthorized "Message expired")
    else do
      let valid ← caught (Ask.verifyMessage chainId address input.message input.signature)
      pure (valid.toOption.getD false)
  else pure false

/-- Mark the nonce's row as used if it is there. What throws is logged. -/
def markLemonNonce (nonce : Text) : Program Unit := do
  let found ← caught (Ask.findAnyNonce nonce)
  match found.toOption.join with
  | none => pure ()
  | some lemonNonce =>
      if lemonNonce.used = false then do
        let _ ← caught (Ask.saveNonce nonce { lemonNonce with used := true })
        pure ()
      else pure ()

/-- The trusted domain: a replay key in the cache instead of the nonce's row. -/
def verifyLemon (input : LoginInput) (parsed : SiweMessage) (nonce : Text) (now : Nat) :
    Program Session :=
  match parsed.address.map toLowerCase with
  | none => .throw ⟨.rejected, "Cannot read properties of undefined (reading 'toLowerCase')"⟩
  | some address => do
      let alreadyUsed : Bool ← call (Ask.getReplay nonce address)
      if alreadyUsed = true then .throw (unauthorized "Nonce already used")
      else do
        let isValid ← verifySiwe input parsed now
        if isValid = false then .throw (unauthorized "Invalid SIWE signature")
        else do
          markLemonNonce nonce
          let _ ← call (Ask.setReplay nonce address (10 * 60 * 1000))
          let accessToken ← createAccessToken address
          pure ⟨address, accessToken⟩

def verifySiweAndIssueToken (input : LoginInput) : Program Session := do
  let now : Nat ← call Ask.newDate
  match sdk.parseSiweMessage input.message with
  | none => .throw (unauthorized "Invalid SIWE message")
  | some parsed =>
      if falsy parsed.nonce = true then .throw (unauthorized "Missing nonce in SIWE message")
      else
        let nonce := parsed.nonce.getD []
        if isLemonDomain (parsed.domain.getD []) = true then verifyLemon input parsed nonce now
        else
          loginWithNonce nonce now (verifySiwe input parsed now) "Invalid SIWE signature"
            ((parsed.address.map toLowerCase).getD [])

/-! ## Tokens -/

/-- Revoke a token, up to 15 minutes past its expiry, and issue the next one. -/
def refreshToken (currentToken : Text) : Program Session := do
  let record : Option AccessToken ← call (Ask.findToken currentToken)
  match record with
  | none => .throw (unauthorized "Invalid token")
  | some record =>
      if record.revokedAt.isSome then .throw (unauthorized "Token revoked")
      else do
        let now : Nat ← call Ask.newDate
        if (record.expiresAt.any fun expiresAt => expiresAt + 15 * 60 * 1000 < now) = true then
          .throw (unauthorized "Token expired beyond refresh window")
        else do
          let revokedAt : Nat ← call Ask.newDate
          let affected : Nat ← call (Ask.revokeToken currentToken revokedAt)
          if affected = 0 then .throw (unauthorized "Token already revoked")
          else do
            let _ ← call (Ask.delEntry currentToken)
            let newToken ← createAccessToken record.walletAddress
            pure ⟨record.walletAddress, newToken⟩

/-- The guard of every authenticated request. It answers the wallet. -/
def validateToken (token : Text) : Program Text := do
  let now : Nat ← call Ask.newDate
  let cached : Option Text ← call (Ask.getEntry token)
  match cached with
  | some walletAddress => pure walletAddress
  | none => do
      let record : Option AccessToken ← call (Ask.findToken token)
      match record with
      | none => .throw (unauthorized "Invalid or expired token")
      | some record =>
          if (record.expiresAt.any fun expiresAt => expiresAt < now) = true then
            .throw (unauthorized "Invalid or expired token")
          else if record.revokedAt.isSome then .throw (unauthorized "Invalid or expired token")
          else do
            let remainingMs := (record.expiresAt.map fun expiresAt => expiresAt - now).getD 10000
            let cacheTtlMs := min remainingMs 10000
            let _ ← call (Ask.setEntry token record.walletAddress cacheTtlMs)
            pure record.walletAddress

/-! ## Requests under way -/

inductive Request
  | verifyStellar (input : LoginInput)
  | verifySiwe (input : LoginInput)
  | refreshToken (currentToken : Text)
  | validateToken (token : Text)
  deriving DecidableEq

inductive Outcome
  | session (s : Session)
  | wallet (walletAddress : Text)
  deriving DecidableEq

def Request.program : Request → Program Outcome
  | .verifyStellar input => do
      let s ← verifyStellarAndIssueToken sdk input
      pure (.session s)
  | .verifySiwe input => do
      let s ← verifySiweAndIssueToken sdk input
      pure (.session s)
  | .refreshToken currentToken => do
      let s ← Auth.refreshToken currentToken
      pure (.session s)
  | .validateToken token => do
      let w ← Auth.validateToken token
      pure (.wallet w)

/-- An entry that is not to be dropped has no `dropsAfter`. -/
structure CacheEntry where
  walletAddress : Text
  dropsAfter : Option Nat
  deriving DecidableEq

/-- The clock, the tables and the cache, with the tokens whose entry a refresh has
evicted and the requests that have returned. -/
structure AuthState where
  now : Nat
  nonces : Text → Option SiweNonce
  tokens : Text → Option AccessToken
  cache : Text → Option CacheEntry
  evicted : List Text
  returned : List Request

/-- What the cache holds of a token now. -/
def AuthState.liveEntry (s : AuthState) (token : Text) : Option Text :=
  ((s.cache token).filter fun entry => entry.dropsAfter.all fun t => s.now ≤ t).map
    CacheEntry.walletAddress

/-- What `findNonce` answers. -/
def AuthState.freshNonce (s : AuthState) (nonce : Text) (now : Nat) : Option SiweNonce :=
  (s.nonces nonce).filter fun row => !row.used && decide (now < row.expiresAt)

/-- The row of a token, if it is there and not revoked. -/
def AuthState.unrevoked (s : AuthState) (token : Text) : Option AccessToken :=
  (s.tokens token).filter fun row => row.revokedAt.isNone

/-- What a call does once it is through. Tokens are unique, a revocation is conditional,
and a lifetime of zero is kept by the cache. -/
def AuthState.effect (s : AuthState) : Ask → AuthState
  | .saveNonce nonce row => { s with nonces := Function.update s.nonces nonce (some row) }
  | .saveToken token row =>
      if s.tokens token = none then { s with tokens := Function.update s.tokens token (some row) }
      else s
  | .revokeToken token revokedAt =>
      match s.unrevoked token with
      | some row =>
          let revoked := { row with revokedAt := some revokedAt }
          { s with tokens := Function.update s.tokens token (some revoked) }
      | none => s
  | .setEntry token walletAddress ttl =>
      let dropsAfter := if ttl = 0 then none else some (s.now + ttl)
      { s with cache := Function.update s.cache token (some ⟨walletAddress, dropsAfter⟩) }
  | .delEntry token =>
      { s with cache := Function.update s.cache token none, evicted := token :: s.evicted }
  | _ => s

/-- What a call may answer. Signatures, replay keys and random bytes are anything. -/
def AuthState.answers (s : AuthState) : (ask : Ask) → Answer ask → Bool
  | .newDate, now => now = s.now
  | .findNonce nonce now, found => found = s.freshNonce nonce now
  | .findAnyNonce nonce, found => found = s.nonces nonce
  | .findToken token, found => found = s.tokens token
  | .saveToken token _, _ => s.tokens token = none
  | .revokeToken token _, affected => affected = if (s.unrevoked token).isSome then 1 else 0
  | .getEntry token, found => found = none ∨ found = s.liveEntry token
  | _, _ => true

/-- A call that throws had no effect, or it did and its answer was lost. -/
def Responds (s : AuthState) (x : Asked) (s' : AuthState) : Prop :=
  match x with
  | ⟨ask, .ok answer⟩ => s.answers ask answer = true ∧ s' = s.effect ask
  | ⟨ask, .error _⟩ => s' = s ∨ s' = s.effect ask

theorem Responds.cases {s s' : AuthState} {x : Asked} (h : Responds s x s') :
    s' = s ∨ s' = s.effect x.1 := by
  rcases x with ⟨ask, answer | answer⟩
  · exact h
  · exact .inr h.2

/-- Outside the requests time passes and nonces are issued. -/
inductive Outside : AuthState → AuthState → Prop
  | tick (s : AuthState) (ms : Nat) : Outside s { s with now := s.now + ms }
  | issue (s : AuthState) (nonce : Text) (row : SiweNonce) : s.nonces nonce = none →
      Outside s { s with nonces := Function.update s.nonces nonce (some row) }

def service (ι : Type) : Service AuthState ι Request Ask Answer HttpError Outcome where
  program _ _ request := request.program sdk
  respond _ := Responds
  settle s _ request out :=
    match out with
    | .ok _ => { s with returned := request :: s.returned }
    | .error _ => s
  outside := Outside

abbrev Pool (ι : Type) : Type := ThreadPool AuthState ι Request Ask Answer HttpError Outcome

abbrev Event (ι : Type) : Type := ThreadEvent ι Request Ask Answer HttpError Outcome

/-- The exchanges that nothing rejects, as a function. -/
def effect? (s : AuthState) : Asked → Option AuthState
  | ⟨ask, .ok answer⟩ => if s.answers ask answer = true then some (s.effect ask) else none
  | ⟨_, .error _⟩ => none

theorem effect?_responds {s s' : AuthState} {x : Asked} (h : effect? s x = some s') :
    Responds s x s' := by
  rcases x with ⟨ask, error | answer⟩
  · cases h
  · rcases Option.ite_none_right_eq_some.mp h with ⟨hanswers, heq⟩
    cases heq
    exact ⟨hanswers, rfl⟩

theorem effect?_unique {s t u : AuthState} {x : Asked} (h : effect? s x = some t)
    (hresponds : Responds s x u) : u = t := by
  rcases x with ⟨ask, error | answer⟩
  · cases h
  · rcases Option.ite_none_right_eq_some.mp h with ⟨-, heq⟩
    cases heq
    exact hresponds.2

end Auth

end Lendoor.Backend
