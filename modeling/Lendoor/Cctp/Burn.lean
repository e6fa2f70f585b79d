import Lendoor.Cctp.Solvency
import Lendoor.Cctp.HookData

/-! # Burns towards Stellar

The calls that a wallet signs on the source chain, and the deliveries at the other end.
Calldata is the call that it encodes. A message of the burn carries the arguments of the
call; the chains and the attesters fill in the rest.
-/

namespace Lendoor.Cctp

open BigEndian (toBytes)

/-- The Standard Transfer. -/
def finalityStandard : Nat := 2000

structure EvmCctpConfig where
  tokenMessengerV2 : Text
  usdc : Text
  deriving DecidableEq, Repr

structure Approve where
  spender : Text
  amount : Int
  deriving DecidableEq, Repr

structure DepositForBurnWithHook where
  amount : Int
  destinationDomain : Nat
  mintRecipient : Text
  burnToken : Text
  destinationCaller : Text
  maxFee : Int
  minFinalityThreshold : Nat
  hookData : Text
  deriving DecidableEq, Repr

/-- What `encodeFunctionData` throws on arguments outside their types. -/
structure Abi where
  approveFault : Approve → Option String
  burnFault : DepositForBurnWithHook → Option String

structure BurnArgs where
  config : EvmCctpConfig
  stellarDomain : Nat
  forwarderContractId : Text
  forwardRecipient : Text
  amountUsdc6 : Int
  maxFee : Option Int
  minFinalityThreshold : Option Nat
  deriving DecidableEq, Repr

structure BurnToStellarPlan where
  approveData : Approve
  burnData : DepositForBurnWithHook
  tokenMessengerV2 : Text
  usdc : Text
  amountUsdc6 : Int
  deriving DecidableEq, Repr

def encodeFunctionData {κ : Type} (fault : κ → Option String) (call : κ) : Except JsError κ :=
  match fault call with
  | some message => .error ⟨.sdk, message⟩
  | none => .ok call

/-- The pair of calls of a burn. The forwarder is no argument of the caller's: it is both
the recipient of the mint and the only caller at the destination. -/
def buildBurnToStellar (sdk : Sdk) (abi : Abi) (args : BurnArgs) :
    Except JsError BurnToStellarPlan := do
  panicIf (args.amountUsdc6 ≤ 0) ⟨.rangeError, "burn amount must be positive, got " ++
    toString args.amountUsdc6⟩
  let forwarder32 ← contractAddressToBytes32 sdk args.forwarderContractId
  assertForwarderFields sdk forwarder32 forwarder32 args.forwarderContractId
  let hookData ← buildForwarderHookData sdk args.forwardRecipient []
  let approveData ←
    encodeFunctionData abi.approveFault ⟨args.config.tokenMessengerV2, args.amountUsdc6⟩
  let burnData ← encodeFunctionData abi.burnFault
    { amount := args.amountUsdc6
      destinationDomain := args.stellarDomain
      mintRecipient := bytesToHex forwarder32
      burnToken := args.config.usdc
      destinationCaller := bytesToHex forwarder32
      maxFee := args.maxFee.getD 0
      minFinalityThreshold := args.minFinalityThreshold.getD finalityStandard
      hookData := bytesToHex hookData }
  pure
    { approveData := approveData
      burnData := burnData
      tokenMessengerV2 := args.config.tokenMessengerV2
      usdc := args.config.usdc
      amountUsdc6 := args.amountUsdc6 }

/-- A message that a burn puts on its way, as it is attested: what the delivery reads is
what the call was given, and the fee keeps within the one that the call allows. -/
structure BurnedBy (call : DepositForBurnWithHook) (header : CctpMessageHeader)
    (body : CctpBurnBody) : Prop where
  inRange : header.InRange ∧ body.InRange
  amount : (body.amount : Int) = call.amount
  destinationDomain : header.destinationDomain = call.destinationDomain
  mintRecipient : hexToBytes call.mintRecipient = .ok body.mintRecipient
  destinationCaller : hexToBytes call.destinationCaller = .ok header.destinationCaller
  hookData : hexToBytes call.hookData = .ok body.hookData
  fee : (body.feeExecuted : Int) ≤ call.maxFee

/-- The delivery that a burn was made for. -/
structure DeliveryPlan.Delivers (plan : DeliveryPlan) (args : BurnArgs) (message : Bytes) :
    Prop where
  minted : plan.mintMessage = message
  nonce : plan.nonce = bytesToHex (messageNonce message)
  amount : plan.amountUsdc6 = args.amountUsdc6
  rescaled : plan.amount7 = 10 * args.amountUsdc6
  recipient : plan.forwardRecipient = args.forwardRecipient
  credited : plan.amount7 - 10 * args.maxFee.getD 0 ≤ credited message ∧
    credited message ≤ plan.amount7

section Burn

variable {sdk : Sdk} {abi : Abi} {args : BurnArgs} {plan : BurnToStellarPlan}
  {header : CctpMessageHeader} {body : CctpBurnBody}

theorem encodeFunctionData_ok {κ : Type} {fault : κ → Option String} {call data : κ} :
    encodeFunctionData fault call = .ok data ↔ fault call = none ∧ data = call := by
  unfold encodeFunctionData
  cases fault call with
  | some message => simp
  | none => simp [eq_comm]

theorem contractAddressToBytes32_ok {contractId : Text} {bytes : Bytes} :
    contractAddressToBytes32 sdk contractId = .ok bytes ↔
      sdk.isValidContract contractId = true ∧ bytes = sdk.decodeContract contractId := by
  simp only [contractAddressToBytes32, bind_eq_ok, panicIf_eq_ok, pure_eq_ok, Bool.not_eq_false]
  constructor
  · rintro ⟨_, hvalid, rfl⟩
    exact ⟨hvalid, rfl⟩
  · rintro ⟨hvalid, rfl⟩
    exact ⟨(), hvalid, rfl⟩

/-- The guard passes on the forwarder's own bytes and on no others. -/
theorem assertForwarderFields_ok {mintRecipient destinationCaller : Bytes} {contractId : Text} :
    assertForwarderFields sdk mintRecipient destinationCaller contractId = .ok () ↔
      sdk.isValidContract contractId = true ∧ mintRecipient = sdk.decodeContract contractId ∧
        destinationCaller = sdk.decodeContract contractId := by
  simp only [assertForwarderFields, bind_eq_ok, panicIf_eq_ok, contractAddressToBytes32_ok, not_not]
  constructor
  · rintro ⟨_, ⟨hvalid, rfl⟩, _, hmint, hcaller⟩
    exact ⟨hvalid, hmint, hcaller⟩
  · rintro ⟨hvalid, hmint, hcaller⟩
    exact ⟨_, ⟨hvalid, rfl⟩, (), hmint, hcaller⟩

/-- What a burn that is built was asked for, and its call. -/
structure Built (sdk : Sdk) (args : BurnArgs) (call : DepositForBurnWithHook) : Prop where
  positive : 0 < args.amountUsdc6
  forwarder : sdk.isValidContract args.forwarderContractId = true
  recipient : assertStellarAddress sdk args.forwardRecipient = .ok ()
  amount : call.amount = args.amountUsdc6
  destinationDomain : call.destinationDomain = args.stellarDomain
  mintRecipient : call.mintRecipient = bytesToHex (sdk.decodeContract args.forwarderContractId)
  destinationCaller : call.destinationCaller =
    bytesToHex (sdk.decodeContract args.forwarderContractId)
  maxFee : call.maxFee = args.maxFee.getD 0
  hookData : ∃ hookData, buildForwarderHookData sdk args.forwardRecipient [] = .ok hookData ∧
    call.hookData = bytesToHex hookData

theorem buildBurnToStellar_built (h : buildBurnToStellar sdk abi args = .ok plan) :
    Built sdk args plan.burnData := by
  simp only [buildBurnToStellar, bind_eq_ok, panicIf_eq_ok, contractAddressToBytes32_ok,
    encodeFunctionData_ok, pure_eq_ok] at h
  rcases h with ⟨_, hpositive, _, ⟨hforwarder, rfl⟩, _, -, hookData, hhook, _, -, _, ⟨-, rfl⟩, rfl⟩
  exact {
    positive := by omega
    forwarder := hforwarder
    recipient := (buildForwarderHookData_ok.mp hhook).1
    amount := rfl
    destinationDomain := rfl
    mintRecipient := rfl
    destinationCaller := rfl
    maxFee := rfl
    hookData := ⟨hookData, hhook, rfl⟩ }

/-! ## The message at the other end -/

theorem parseCctpBurnBody_encode (hheader : header.InRange) (hbody : body.InRange) :
    parseCctpBurnBody ((encodeCctpMessage header body).drop headerBytes) = .ok body := by
  rcases bind_eq_ok.mp (parseCctpMessage_encode hheader hbody) with ⟨bytes, hbytes, hparsed⟩
  rw [hexToBytes_bytesToHex] at hbytes
  rw [Except.ok.inj hbytes]
  rcases bind_eq_ok.mp hparsed with ⟨_, _, hparsed⟩
  rcases bind_eq_ok.mp hparsed with ⟨body', hbody', hpair⟩
  rw [hbody', (Prod.mk.inj (pure_eq_ok.mp hpair)).2]

theorem parseCctpBurnBody_amounts {bytes : Bytes} (h : parseCctpBurnBody bytes = .ok body) :
    u256 bytes 68 = body.amount ∧ u256 bytes 164 = body.feeExecuted := by
  unfold parseCctpBurnBody at h
  split at h
  · cases h
  · cases h
    exact ⟨rfl, rfl⟩

/-- The chain reads a message's amounts as the parser does. -/
theorem messageAmount_encode (hheader : header.InRange) (hbody : body.InRange) :
    messageAmount (encodeCctpMessage header body) = body.amount ∧
      messageFeeExecuted (encodeCctpMessage header body) = body.feeExecuted :=
  parseCctpBurnBody_amounts (parseCctpBurnBody_encode hheader hbody)

theorem bytes_of_bytesToHex {text : Text} {bytes bytes' : Bytes} (h : text = bytesToHex bytes)
    (hread : hexToBytes text = .ok bytes') : bytes' = bytes := by
  rw [h, hexToBytes_bytesToHex] at hread
  exact (Except.ok.inj hread).symm

/-- The hook of the message names the recipient that the burn was made for. -/
theorem Built.hook (hsdk : sdk.Standard) (hlength : args.forwardRecipient.length < 2 ^ 32)
    (hcall : Built sdk args plan.burnData) (hburned : BurnedBy plan.burnData header body) :
    parseForwarderHookData sdk body.hookData = .ok ⟨hookVersion, args.forwardRecipient, []⟩ := by
  rcases hcall.hookData with ⟨hookData, hwritten, htext⟩
  rw [bytes_of_bytesToHex htext hburned.hookData]
  have hread :
      (do parseForwarderHookData sdk (← buildForwarderHookData sdk args.forwardRecipient [])) =
      .ok ⟨hookVersion, args.forwardRecipient, []⟩ :=
      parseForwarderHookData_build hsdk hcall.recipient hlength
  rwa [hwritten] at hread

/-- The message of a burn is delivered. -/
theorem burn_delivers {config : StellarCctpConfig} {attestationHex : Text} {attestation : Bytes}
    (hsdk : sdk.Standard)
    (hlength : args.forwardRecipient.length < 2 ^ 32)
    (hbuilt : buildBurnToStellar sdk abi args = .ok plan)
    (hburned : BurnedBy plan.burnData header body) (hdomain : config.domain = args.stellarDomain)
    (hforwarder : config.cctpForwarder = args.forwarderContractId)
    (hattested : hexToBytes attestationHex = .ok attestation) (hnonempty : attestation ≠ []) :
    ∃ delivery, planDelivery sdk (bytesToHex (encodeCctpMessage header body)) attestationHex
      config = .ok delivery ∧
      delivery.Delivers args (encodeCctpMessage header body) := by
  have hcall := buildBurnToStellar_built hbuilt
  rcases hburned.inRange with ⟨hheader, hbody⟩
  have hamount := hburned.amount.trans hcall.amount
  have hpositive := hcall.positive
  have hdestination : header.destinationDomain = config.domain := by
    rw [hburned.destinationDomain, hcall.destinationDomain, hdomain]
  have hguard : assertForwarderFields sdk body.mintRecipient header.destinationCaller
      config.cctpForwarder = .ok () := by
    rw [hforwarder]
    exact assertForwarderFields_ok.mpr ⟨hcall.forwarder,
      bytes_of_bytesToHex hcall.mintRecipient hburned.mintRecipient,
      bytes_of_bytesToHex hcall.destinationCaller hburned.destinationCaller⟩
  have hhook := hcall.hook hsdk hlength hburned
  have hplan : planDelivery sdk (bytesToHex (encodeCctpMessage header body)) attestationHex config =
      .ok
      { nonce := header.nonce
        sourceDomain := header.sourceDomain
        amountUsdc6 := body.amount
        amount7 := body.amount * 10
        forwardRecipient := args.forwardRecipient
        mintMessage := encodeCctpMessage header body
        mintAttestation := attestation } := by
    have hburn : ¬ body.amount ≤ 0 := by omega
    have hrescaled : usdc6ToStellar7 body.amount = .ok (body.amount * 10) :=
      bind_eq_ok.mpr ⟨(), panicIf_eq_ok.mpr (by omega), rfl⟩
    simp only [planDelivery, bind_eq_ok, panicIf_eq_ok, pure_eq_ok]
    exact ⟨_, parseCctpMessage_encode hheader hbody, (), not_not.mpr hdestination,
      (), hguard, (), hburn, _, hhook, _, hexToBytes_bytesToHex _, attestation, hattested, (),
      mt List.length_eq_zero_iff.mp hnonempty, _, hrescaled, rfl⟩
  rcases messageAmount_encode hheader hbody with ⟨hread, hfee⟩
  have hallowed := hburned.fee
  rw [hcall.maxFee] at hallowed
  refine ⟨_, hplan, rfl, (planDelivery_reads hplan).nonce, hamount, ?_, rfl, ?_⟩
  · simp only
    omega
  · simp only [credited, hread, hfee]
    omega

/-! ## Burns into the vault -/

/-- A message of a burn that the builder made for the relayer, at no fee. -/
structure VaultBurn (sdk : Sdk) (abi : Abi) (deps : CctpExecutorDeps) (args : BurnArgs)
    (message : Bytes) : Prop where
  burned : ∃ plan header body, buildBurnToStellar sdk abi args = .ok plan ∧
    BurnedBy plan.burnData header body ∧
    message = encodeCctpMessage header body
  feeless : args.maxFee.getD 0 = 0
  recipient : args.forwardRecipient = deps.relayerAddress

variable {deps : CctpExecutorDeps} {message : Bytes}

theorem VaultBurn.reads (h : VaultBurn sdk abi deps args message) :
    (messageAmount message : Int) = args.amountUsdc6 ∧ messageFeeExecuted message = 0 := by
  rcases h.burned with ⟨plan, header, body, hbuilt, hburned, rfl⟩
  have hcall := buildBurnToStellar_built hbuilt
  have hfee := hburned.fee
  rw [hcall.maxFee, h.feeless] at hfee
  rcases messageAmount_encode hburned.inRange.1 hburned.inRange.2 with ⟨hamount, hexecuted⟩
  rw [hamount, hexecuted]
  exact ⟨hburned.amount.trans hcall.amount, by omega⟩

theorem VaultBurn.forRelayer (hsdk : sdk.Standard) (hlength : deps.relayerAddress.length < 2 ^ 32)
    (h : VaultBurn sdk abi deps args message) : ForRelayer sdk deps message := by
  rcases h.burned with ⟨plan, header, body, hbuilt, hburned, rfl⟩
  have hhook := (buildBurnToStellar_built hbuilt).hook hsdk (by rwa [h.recipient]) hburned
  rw [ForRelayer, messageRecipient, parseCctpBurnBody_encode hburned.inRange.1 hburned.inRange.2,
    ok_bind, hhook, ok_bind, h.recipient]
  rfl

variable {ι : Type} [DecidableEq ι] {genuine : Bytes → Prop} {w v v' : World ι}
  {events : List (DeliveryEvent ι)}
  {k : Nat} {event : DeliveryEvent ι}

/-- Every message that the rows, Iris and the chain hold is signed. -/
structure Signed (sdk : Sdk) (deps : CctpExecutorDeps) (genuine : Bytes → Prop) (w : World ι)
    (events : List (DeliveryEvent ι)) : Prop where
  row : ∀ i, CarriesOnly genuine (w.shared.rows i).message
  iris : ∀ i x, .exchange i x ∈ events → AnswersOnly genuine x
  landed : ∀ k v event v', StepAt (service sdk deps).Step w events k v event v' →
    ∀ m ∈ v'.shared.ledger.minted, genuine m

theorem Signed.vaultMessages (h : Signed sdk deps genuine w events)
    (hrelayer : ∀ m, genuine m → ForRelayer sdk deps m) :
    VaultMessages sdk deps genuine w events where
  row i hex m hmessage hread := by
    have hm := h.row i hex m hmessage hread
    exact ⟨hm, hrelayer m hm⟩
  iris i x hx sourceDomain burnTxHash attestation message hcomplete hex m hmessage hread := by
    have hm :=
      h.iris i x hx sourceDomain burnTxHash attestation message hcomplete hex m hmessage hread
    exact ⟨hm, hrelayer m hm⟩
  landed := h.landed

/-- A row has no deposit, or the one of its burn, and its message minted as much. -/
def DepositedAsBurned (sdk : Sdk) (abi : Abi) (deps : CctpExecutorDeps) (i : ι) (w v : World ι) :
    Prop :=
  v.shared.ledger.depositsFor i = [] ∨ ∃ args message, VaultBurn sdk abi deps args message ∧
    (w.shared.rows i).nonce = bytesToHex (messageNonce message) ∧
    v.shared.ledger.depositsFor i = [10 * args.amountUsdc6] ∧
    v.shared.ledger.mintedFor (v.shared.rows i).nonce = 10 * args.amountUsdc6

/-- Where every signed message is of such a burn, the relayer is never out of pocket, and
what is deposited for a row is what was burned. -/
theorem vault_burns_covered (hsdk : sdk.Standard) (hlength : deps.relayerAddress.length < 2 ^ 32)
    (hburns : ∀ m, genuine m → ∃ args, VaultBurn sdk abi deps args m)
    (hunique : ∀ m m', genuine m → genuine m' → messageNonce m = messageNonce m' → m = m')
    (hopen : Opening w) (hsigned : Signed sdk deps genuine w events)
    (hat : StepAt (service sdk deps).Step w events k v event v') :
    Solvent w v' ∧ ∀ i, DepositedAsBurned sdk abi deps i w v' := by
  have hfee : ∀ m, genuine m → messageFeeExecuted m = 0 := by
    intro m hm
    rcases hburns m hm with ⟨args, hburn⟩
    exact hburn.reads.2
  have hattesters : Attesters genuine :=
    ⟨hunique, fun m hm => by rw [hfee m hm]; exact Nat.zero_le _⟩
  have hmessages := hsigned.vaultMessages fun m hm => by
    rcases hburns m hm with ⟨args, hburn⟩
    exact hburn.forRelayer hsdk hlength
  have hfeeless : ∀ k v event v', StepAt (service sdk deps).Step w events k v event v' →
      ∀ i, Feeless i v.shared event := by
    rintro k v _ v' hat i x rfl hx hex m hmessage hread
    exact hfee m ((deposit_at hopen hmessages hat hx).2 hex m hmessage hread).1
  refine ⟨solvent_of_feeless hattesters hopen hmessages hfeeless hat, fun i => ?_⟩
  have hstanding := (standing_at (i := i) (Q := fun _ => True) hopen hmessages
    (fun _ _ _ _ _ _ _ _ _ _ _ _ => trivial) hat).2
  have honce := hstanding.2.once
  cases hdeposits : v'.shared.ledger.depositsFor i with
  | nil => exact .inl hdeposits
  | cons assets rest =>
      rw [hdeposits, List.length_cons] at honce
      have hrest : rest = [] := List.length_eq_zero_iff.mp (by omega)
      rcases hstanding.minted hattesters (hmessages.landed k v event v' hat) (balanced_at hopen hat)
        (by rw [hdeposits]; exact List.mem_cons_self)
        with ⟨m, -, hm, -, -, hnonce, hassets, hminted⟩
      rcases hburns m hm with ⟨args, hburn⟩
      rcases hburn.reads with ⟨hamount, hexecuted⟩
      refine .inr ⟨args, m, hburn, hnonce, ?_, ?_⟩
      · rw [hdeposits, hrest, hassets, hamount]
      · rw [hminted, credited, hamount, hexecuted]
        omega

end Burn

/-! ## A burn of five dollars -/

def burnSdk : Sdk := { testSdk with decodeText := Utf8.decode }

theorem burnSdk_standard : burnSdk.Standard where
  ascii addr h := by
    have hvalid := panicIf_eq_ok.mp h
    have haddr : addr ∈ [testRelayer, testBeneficiary, testDeps.config.cctpForwarder,
        testDeps.vaultContractId] := by
      by_contra hne
      simp only [List.mem_cons, List.not_mem_nil, or_false, not_or] at hne
      rcases hne with ⟨hrelayer, hbeneficiary, hforwarder, hvault⟩
      exact hvalid ⟨decide_eq_false (not_or.mpr ⟨hrelayer, hbeneficiary⟩),
        decide_eq_false (not_or.mpr ⟨hforwarder, hvault⟩), rfl⟩
    have hascii : ∀ a ∈ [testRelayer, testBeneficiary, testDeps.config.cctpForwarder,
        testDeps.vaultContractId], a.all (fun c => c.toNat < 128) = true := by decide
    intro c hc
    simpa using List.all_eq_true.mp (hascii addr haddr) c hc
  decodeText _ := rfl

/-- The bounds of the argument types. -/
def burnAbi : Abi where
  approveFault call := if 0 ≤ call.amount ∧ call.amount < 2 ^ 256 then none
    else some "value out-of-bounds"
  burnFault call := if (0 ≤ call.amount ∧ call.amount < 2 ^ 256) ∧ call.destinationDomain < 2 ^ 32 ∧
    (0 ≤ call.maxFee ∧ call.maxFee < 2 ^ 256) ∧ call.minFinalityThreshold < 2 ^ 32 then none
    else some "value out-of-bounds"

def baseSepolia : EvmCctpConfig where
  tokenMessengerV2 := "0x8FE6B999Dc680CcFDD5Bf7EB0974218be2542DAA".toList
  usdc := "0x036CbD53842c5426634e7929541eC2318f3dCF7e".toList

def burnArgs : BurnArgs :=
  ⟨baseSepolia, stellarTestnet.domain, stellarTestnet.cctpForwarder, testRelayer,
    5000000, none, none⟩

def burnHook : Bytes :=
  List.replicate 24 0 ++ (toBytes 4 0 ++ (toBytes 4 56 ++ (Utf8.encode testRelayer ++ [])))

def burnHeader : CctpMessageHeader where
  version := 1
  sourceDomain := 6
  destinationDomain := 27
  nonce := bytesToHex testNonce
  sender := List.replicate 32 0
  recipient := testForwarder
  destinationCaller := testForwarder
  minFinalityThreshold := 2000
  finalityThresholdExecuted := 2000

def burnBody : CctpBurnBody where
  version := 1
  burnToken := List.replicate 32 0x11
  mintRecipient := testForwarder
  amount := 5000000
  messageSender := List.replicate 32 0x22
  maxFee := 0
  feeExecuted := 0
  expirationBlock := 0
  hookData := burnHook

def burnPlan : BurnToStellarPlan where
  approveData := ⟨baseSepolia.tokenMessengerV2, 5000000⟩
  burnData :=
    { amount := 5000000
      destinationDomain := 27
      mintRecipient := bytesToHex testForwarder
      burnToken := baseSepolia.usdc
      destinationCaller := bytesToHex testForwarder
      maxFee := 0
      minFinalityThreshold := 2000
      hookData := bytesToHex burnHook }
  tokenMessengerV2 := baseSepolia.tokenMessengerV2
  usdc := baseSepolia.usdc
  amountUsdc6 := 5000000

theorem burnPlan_built : buildBurnToStellar burnSdk burnAbi burnArgs = .ok burnPlan := by
  decide +kernel

theorem burnPlan_burned : BurnedBy burnPlan.burnData burnHeader burnBody where
  inRange := by
    constructor
    · exact ⟨by decide, by decide, by decide, ⟨_, rfl, by decide⟩, by decide, by decide, by decide,
        by decide, by decide⟩
    · exact ⟨by decide, by decide, by decide, by decide, by decide, by decide, by decide, by decide⟩
  amount := rfl
  destinationDomain := rfl
  mintRecipient := hexToBytes_bytesToHex _
  destinationCaller := hexToBytes_bytesToHex _
  hookData := hexToBytes_bytesToHex _
  fee := by decide

theorem burn_delivers_sample :
    ∃ delivery, planDelivery burnSdk (bytesToHex (encodeCctpMessage burnHeader burnBody))
      testAttestation stellarTestnet =
      .ok delivery ∧ delivery.Delivers burnArgs (encodeCctpMessage burnHeader burnBody) :=
  burn_delivers burnSdk_standard (by decide) burnPlan_built burnPlan_burned rfl rfl
    (hexToBytes_bytesToHex _) (by decide)

theorem vaultMessage_burned : VaultBurn burnSdk burnAbi testDeps burnArgs vaultMessage :=
  ⟨⟨burnPlan, burnHeader, burnBody, burnPlan_built, burnPlan_burned, by decide +kernel⟩, rfl, rfl⟩

def vaultDelivered : CctpTransfer :=
  { attestedRow vaultMessage with
    state := .delivered
    mintTxHash := some "tx-1".toList
    depositTxHash := some "tx-2".toList }

theorem vault_signed : Signed burnSdk testDeps (· = vaultMessage) (testWorld [])
    (deliveryEvents vaultMessage vaultDelivered) := by
  have hmessages : VaultMessages burnSdk testDeps (· = vaultMessage) (testWorld [])
      (deliveryEvents vaultMessage vaultDelivered) :=
    deliveryEvents_messages (vaultMessage_burned.forRelayer burnSdk_standard (by decide))
  refine ⟨fun _ _ _ hmessage => (by cases hmessage), fun i x hx => ?_, hmessages.landed⟩
  intro sourceDomain burnTxHash attestation message hcomplete hex m hmessage hread
  exact (hmessages.iris i x hx sourceDomain burnTxHash attestation message hcomplete
    hex m hmessage hread).1

theorem vault_burns_covered_sample :
    ∃ v, Run (service burnSdk testDeps).Step (testWorld [])
    (deliveryEvents vaultMessage vaultDelivered) v ∧
      v.shared.ledger.depositsFor () = [50000000] ∧ Solvent (testWorld []) v ∧
      DepositedAsBurned burnSdk burnAbi testDeps () (testWorld []) v := by
  have hrelayer := vaultMessage_burned.forRelayer burnSdk_standard (by decide)
  have hrun : Run (service burnSdk testDeps).Step (testWorld [])
      (deliveryEvents vaultMessage vaultDelivered)
      (rowWorld vaultDelivered ⟨[vaultMessage], [((), 50000000)],
        0 + credited vaultMessage - 50000000⟩) :=
    run_deposited (by decide +kernel) (by decide +kernel) hrelayer
  have hsplit : deliveryEvents vaultMessage vaultDelivered =
      (deliveryEvents vaultMessage vaultDelivered).dropLast ++ [.settle () (.ok vaultDelivered)] :=
      rfl
  have hlast := hrun
  rw [hsplit] at hlast
  rcases hlast.snoc_inv with ⟨v, before, hstep⟩
  have hsigned := vault_signed
  rw [hsplit] at hsigned
  have hopen : Opening (testWorld []) :=
    ⟨fun _ => ⟨rfl, nofun, rfl, rfl⟩, rfl, rfl, fun _ _ _ => rfl⟩
  rcases vault_burns_covered burnSdk_standard (by decide)
    (fun m hm => ⟨burnArgs, hm ▸ vaultMessage_burned⟩)
    (fun m m' hm hm' _ => hm.trans hm'.symm) hopen hsigned (StepAt.concat before hstep)
    with ⟨hsolvent, hdeposited⟩
  exact ⟨_, hrun, rfl, hsolvent, hdeposited ()⟩

end Lendoor.Cctp
