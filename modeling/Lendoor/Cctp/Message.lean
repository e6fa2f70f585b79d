import Lendoor.Core.Checked

/-! # CCTP messages

The V2 message layout, the forwarder's hook data and the delivery plan, as the
backend parses and checks them. Texts are lists of characters and byte strings are
lists of bytes. What comes from the Stellar SDK and from the platform's text decoder
is a parameter.
-/

namespace Lendoor.Cctp

abbrev Text := List Char

abbrev Bytes := List UInt8

/-- The error classes that leave the delivery code. `rejected` is what an awaited call
rejects with and `sdk` what the SDK throws. -/
inductive ErrorKind
  | cctpMessageError
  | rangeError
  | illegalCctpTransition
  | error
  | sdk
  | rejected
  deriving DecidableEq, Repr

structure JsError where
  kind : ErrorKind
  message : String
  deriving DecidableEq, Repr

def cctpMessageError (message : String) : JsError := ⟨.cctpMessageError, message⟩

/-- Strkey validation and decoding of the SDK, what its conversions to contract values
throw, and `TextDecoder`. -/
structure Sdk where
  isValidEd25519PublicKey : Text → Bool
  isValidContract : Text → Bool
  isValidMed25519PublicKey : Text → Bool
  decodeContract : Text → Bytes
  addressFault : Text → Option String
  i128Fault : Int → String
  decodeText : Bytes → Text

/-! ## Hexadecimal -/

def isHexDigit (c : Char) : Bool :=
  ('0' ≤ c && c ≤ '9') || ('a' ≤ c && c ≤ 'f') || ('A' ≤ c && c ≤ 'F')

def hexValue (c : Char) : Nat :=
  if 'a' ≤ c then c.toNat - 87 else if 'A' ≤ c then c.toNat - 55 else c.toNat - 48

/-- `Buffer.from(clean, 'hex')` of digits in pairs. -/
def decodeHex : Text → Bytes
  | hi :: lo :: rest => UInt8.ofNat (16 * hexValue hi + hexValue lo) :: decodeHex rest
  | _ => []

/-- `hex.startsWith('0x') ? hex.slice(2) : hex` -/
def stripPrefix : Text → Text
  | '0' :: 'x' :: rest => rest
  | hex => hex

def hexToBytes (hex : Text) : Except JsError Bytes :=
  let clean := stripPrefix hex
  if clean.length % 2 ≠ 0 ∨ clean.all isHexDigit = false then
    .error (cctpMessageError "message is not valid hex")
  else .ok (decodeHex clean)

/-- Lowercase digits, as `toString('hex')` writes them. -/
def hexDigit (n : Nat) : Char := if n < 10 then Char.ofNat (48 + n) else Char.ofNat (87 + n)

def encodeHex (bytes : Bytes) : Text :=
  bytes.flatMap fun b => [hexDigit (b.toNat / 16), hexDigit (b.toNat % 16)]

def bytesToHex (bytes : Bytes) : Text := '0' :: 'x' :: encodeHex bytes

theorem hexDigit_spec : ∀ n < 16, isHexDigit (hexDigit n) = true ∧ hexValue (hexDigit n) = n := by
  decide

theorem encodeHex_cons (b : UInt8) (bytes : Bytes) :
    encodeHex (b :: bytes) = hexDigit (b.toNat / 16) ::
      hexDigit (b.toNat % 16) :: encodeHex bytes :=
  rfl

theorem encodeHex_spec (bytes : Bytes) :
    (encodeHex bytes).length % 2 = 0 ∧ (encodeHex bytes).all isHexDigit = true ∧
      decodeHex (encodeHex bytes) = bytes := by
  induction bytes with
  | nil => exact ⟨rfl, rfl, rfl⟩
  | cons b bytes ih =>
      rcases ih with ⟨hlen, hall, hdecode⟩
      have hb := b.toNat_lt
      rcases hexDigit_spec (b.toNat / 16) (by omega) with ⟨hhi, hhi'⟩
      rcases hexDigit_spec (b.toNat % 16) (by omega) with ⟨hlo, hlo'⟩
      rw [encodeHex_cons]
      refine ⟨?_, ?_, ?_⟩
      · simp only [List.length_cons]
        omega
      · simp only [List.all_cons, hhi, hlo, hall, Bool.and_self]
      · rw [decodeHex, hhi', hlo', hdecode, Nat.div_add_mod, UInt8.ofNat_toNat]

/-- The text `bytesToHex` writes is read back. -/
theorem hexToBytes_bytesToHex (bytes : Bytes) : hexToBytes (bytesToHex bytes) = .ok bytes := by
  rcases encodeHex_spec bytes with ⟨hlen, hall, hdecode⟩
  have hclean : stripPrefix (bytesToHex bytes) = encodeHex bytes := rfl
  simp only [hexToBytes, hclean, hlen, hall, hdecode]
  rfl

theorem bytesToHex_injective {a b : Bytes} (h : bytesToHex a = bytesToHex b) : a = b := by
  have hread := congrArg hexToBytes h
  rw [hexToBytes_bytesToHex, hexToBytes_bytesToHex] at hread
  exact Except.ok.inj hread

/-! ## The message -/

/-- `bytes[i] ?? 0` -/
def byteAt (bytes : Bytes) (i : Nat) : Nat := (bytes[i]?.getD 0).toNat

def u32 (bytes : Bytes) (offset : Nat) : Nat :=
  byteAt bytes offset <<< 24 ||| byteAt bytes (offset + 1) <<< 16 |||
    byteAt bytes (offset + 2) <<< 8 ||| byteAt bytes (offset + 3)

def u256 (bytes : Bytes) (offset : Nat) : Nat :=
  (List.range 32).foldl (fun value i => value <<< 8 ||| byteAt bytes (offset + i)) 0

/-- `bytes.slice(from, to)` -/
def slice (bytes : Bytes) (start stop : Nat) : Bytes := (bytes.take stop).drop start

structure CctpMessageHeader where
  version : Nat
  sourceDomain : Nat
  destinationDomain : Nat
  nonce : Text
  sender : Bytes
  recipient : Bytes
  destinationCaller : Bytes
  minFinalityThreshold : Nat
  finalityThresholdExecuted : Nat
  deriving DecidableEq, Repr

/-- Amounts in six-decimal units. -/
structure CctpBurnBody where
  version : Nat
  burnToken : Bytes
  mintRecipient : Bytes
  amount : Nat
  messageSender : Bytes
  maxFee : Nat
  feeExecuted : Nat
  expirationBlock : Nat
  hookData : Bytes
  deriving DecidableEq, Repr

def headerBytes : Nat := 148

def bodyFixedBytes : Nat := 228

def parseCctpBurnBody (body : Bytes) : Except JsError CctpBurnBody :=
  if body.length < bodyFixedBytes then
    .error (cctpMessageError ("burn message body is " ++ toString body.length ++
      " bytes, expected at least " ++ toString bodyFixedBytes))
  else .ok
    { version := u32 body 0
      burnToken := slice body 4 36
      mintRecipient := slice body 36 68
      amount := u256 body 68
      messageSender := slice body 100 132
      maxFee := u256 body 132
      feeExecuted := u256 body 164
      expirationBlock := u256 body 196
      hookData := body.drop bodyFixedBytes }

def parseHeader (bytes : Bytes) : CctpMessageHeader where
  version := u32 bytes 0
  sourceDomain := u32 bytes 4
  destinationDomain := u32 bytes 8
  nonce := bytesToHex (slice bytes 12 44)
  sender := slice bytes 44 76
  recipient := slice bytes 76 108
  destinationCaller := slice bytes 108 140
  minFinalityThreshold := u32 bytes 140
  finalityThresholdExecuted := u32 bytes 144

def parseCctpMessage (messageHex : Text) : Except JsError (CctpMessageHeader × CctpBurnBody) := do
  let bytes ← hexToBytes messageHex
  panicIf (bytes.length < headerBytes) (cctpMessageError ("message is " ++ toString bytes.length ++
    " bytes, expected at least " ++ toString headerBytes))
  let body ← parseCctpBurnBody (bytes.drop headerBytes)
  pure (parseHeader bytes, body)

/-! ## Hook data -/

def hookMagicBytes : Nat := 24

def hookHeaderBytes : Nat := 32

structure ForwarderHookData where
  version : Nat
  forwardRecipient : Text
  payload : Bytes
  deriving DecidableEq, Repr

section Hook

variable (sdk : Sdk)

def assertStellarAddress (addr : Text) : Except JsError Unit :=
  panicIf (sdk.isValidEd25519PublicKey addr = false ∧ sdk.isValidContract addr = false ∧
      sdk.isValidMed25519PublicKey addr = false)
    (cctpMessageError ("not a valid Stellar address (G/C/M): " ++ String.ofList addr))

def parseForwarderHookData (hookData : Bytes) : Except JsError ForwarderHookData := do
  panicIf (hookData.length < hookHeaderBytes) (cctpMessageError ("hook data is " ++
    toString hookData.length ++ " bytes, expected at least " ++ toString hookHeaderBytes))
  let version := u32 hookData hookMagicBytes
  let length := u32 hookData (hookMagicBytes + 4)
  panicIf (hookHeaderBytes + length > hookData.length)
    (cctpMessageError "hook data length prefix exceeds the data")
  let forwardRecipient := sdk.decodeText (slice hookData hookHeaderBytes (hookHeaderBytes + length))
  assertStellarAddress sdk forwardRecipient
  pure ⟨version, forwardRecipient, hookData.drop (hookHeaderBytes + length)⟩

def contractAddressToBytes32 (contractId : Text) : Except JsError Bytes := do
  panicIf (sdk.isValidContract contractId = false)
    (cctpMessageError ("not a valid contract address: " ++ String.ofList contractId))
  pure (sdk.decodeContract contractId)

/-- The message of a field that is not the forwarder's contract id. -/
def strandedFunds (field : String) (forwarderContractId : Text) : JsError :=
  cctpMessageError (field ++ " must be the CctpForwarder contract id " ++
    String.ofList forwarderContractId ++ "; refusing to build a burn that would strand funds")

/-- Both fields must be the forwarder, or the funds are stuck. -/
def assertForwarderFields (mintRecipient destinationCaller : Bytes) (forwarderContractId : Text) :
    Except JsError Unit := do
  let forwarder ← contractAddressToBytes32 sdk forwarderContractId
  panicIf (mintRecipient ≠ forwarder) (strandedFunds "mintRecipient" forwarderContractId)
  panicIf (destinationCaller ≠ forwarder) (strandedFunds "destinationCaller" forwarderContractId)

end Hook

/-! ## The delivery plan -/

structure StellarCctpConfig where
  domain : Nat
  cctpForwarder : Text

def stellarTestnet : StellarCctpConfig :=
  ⟨27, "CA66Q2WFBND6V4UEB7RD4SAXSVIWMD6RA4X3U32ELVFGXV5PJK4T4VSZ".toList⟩

/-- The one rescale from six to seven decimals. -/
def usdc6ToStellar7 (amountUsdc6 : Int) : Except JsError Int := do
  panicIf (amountUsdc6 < 0) ⟨.rangeError, "negative amount: " ++ toString amountUsdc6⟩
  pure (amountUsdc6 * 10)

structure DeliveryPlan where
  nonce : Text
  sourceDomain : Nat
  amountUsdc6 : Nat
  amount7 : Int
  forwardRecipient : Text
  mintMessage : Bytes
  mintAttestation : Bytes
  deriving DecidableEq, Repr

/-- Check a message and its attestation from Iris before any fee is spent. -/
def planDelivery (sdk : Sdk) (messageHex attestationHex : Text) (config : StellarCctpConfig) :
    Except JsError DeliveryPlan := do
  let (header, body) ← parseCctpMessage messageHex
  panicIf (header.destinationDomain ≠ config.domain) (cctpMessageError
    ("message destination domain is " ++ toString header.destinationDomain ++
      ", expected Stellar (" ++ toString config.domain ++ ")"))
  assertForwarderFields sdk body.mintRecipient header.destinationCaller config.cctpForwarder
  panicIf (body.amount ≤ 0)
    (cctpMessageError "burn amount is zero; refusing to submit a mint for it")
  let hook ← parseForwarderHookData sdk body.hookData
  let message ← hexToBytes messageHex
  let attestation ← hexToBytes attestationHex
  panicIf (attestation.length = 0)
    (cctpMessageError "empty attestation; Iris sentinel leaked past the client")
  let amount7 ← usdc6ToStellar7 body.amount
  pure
    { nonce := header.nonce
      sourceDomain := header.sourceDomain
      amountUsdc6 := body.amount
      amount7 := amount7
      forwardRecipient := hook.forwardRecipient
      mintMessage := message
      mintAttestation := attestation }

/-! ## What the chain reads from the bytes of a message -/

/-- The nonce a mint consumes. -/
def messageNonce (message : Bytes) : Bytes := slice message 12 44

def messageAmount (message : Bytes) : Nat := u256 (message.drop headerBytes) 68

def messageFeeExecuted (message : Bytes) : Nat := u256 (message.drop headerBytes) 164

/-- Whom the forwarder pays. -/
def messageRecipient (sdk : Sdk) (message : Bytes) : Except JsError Text := do
  let body ← parseCctpBurnBody (message.drop headerBytes)
  let hook ← parseForwarderHookData sdk body.hookData
  pure hook.forwardRecipient

/-- Everything the delivery relies on in a plan. -/
structure DeliveryPlan.Reads (sdk : Sdk) (plan : DeliveryPlan) (messageHex : Text) : Prop where
  message : hexToBytes messageHex = .ok plan.mintMessage
  nonce : plan.nonce = bytesToHex (messageNonce plan.mintMessage)
  amount : plan.amount7 = 10 * messageAmount plan.mintMessage
  positive : 0 < messageAmount plan.mintMessage
  recipient : messageRecipient sdk plan.mintMessage = .ok plan.forwardRecipient

theorem planDelivery_reads {sdk : Sdk} {messageHex attestationHex : Text}
    {config : StellarCctpConfig}
    {plan : DeliveryPlan} (h : planDelivery sdk messageHex attestationHex config = .ok plan) :
    plan.Reads sdk messageHex := by
  simp only [planDelivery, parseCctpMessage, usdc6ToStellar7, bind_eq_ok, panicIf_eq_ok,
    pure_eq_ok] at h
  rcases h with ⟨⟨header, body⟩, ⟨bytes, hbytes, _, _, body', hbody, hparsed⟩, _,
    _, _, _, _, hpositive, hook, hhook, message, hmessage, attestation, _, _, _,
    amount7, ⟨_, _, rfl⟩, rfl⟩
  cases hparsed
  rw [hbytes] at hmessage
  cases hmessage
  have hrecipient : messageRecipient sdk bytes = .ok hook.forwardRecipient := by
    simp only [messageRecipient, hbody, ok_bind, hhook]
    rfl
  simp only [parseCctpBurnBody] at hbody
  split at hbody
  · cases hbody
  · cases hbody
    simp only at hpositive
    refine ⟨hbytes, rfl, ?_, ?_, hrecipient⟩
    · simp only [messageAmount]
      omega
    · simp only [messageAmount]
      omega

end Lendoor.Cctp
