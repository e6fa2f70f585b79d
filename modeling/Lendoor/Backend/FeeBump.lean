import Lendoor.Cctp.Transfer
import Mathlib.Data.Int.Basic

/-! # Fee sponsorship

The sponsor wraps a transaction of a user in a fee bump and pays for it, if the policy
accepts the transaction. Parsing and building envelopes is the SDK's, here a parameter.
-/

namespace Lendoor.Backend.Sponsor

open Cctp (Text falsy)

structure Asset where
  code : Text
  issuer : Text
  deriving DecidableEq

/-- What a trust line is for. -/
inductive TrustLine
  | asset (asset : Asset)
  | liquidityPool (poolId : Text)
  deriving DecidableEq

/-- What a host function does. The contract is spelled as the SDK does, where it can. -/
inductive HostFunction
  | invokeContract (contractAddress : Option Text)
  | createContract
  | uploadContractWasm
  deriving DecidableEq

inductive OperationBody
  | invokeHostFunction (func : HostFunction)
  | changeTrust (line : TrustLine)
  | other (type : String)
  deriving DecidableEq

/-- An operation acts for its own source, where it has one. -/
structure Operation where
  source : Option Text
  body : OperationBody
  deriving DecidableEq

/-- The number of signatures, and the resource fee of the envelope's Soroban data. -/
structure Transaction where
  source : Text
  fee : Int
  operations : List Operation
  signatures : Nat
  resourceFee : Option Int
  deriving DecidableEq

/-- What `TransactionBuilder.fromXDR` makes of an envelope. -/
inductive Envelope
  | transaction (inner : Transaction)
  | feeBump
  | unknown
  deriving DecidableEq

structure SponsorPolicy where
  allowedContracts : List Text
  expectedSource : Option Text := none
  maxInnerFee : Option Int := none
  deriving DecidableEq

/-- `SponsorPolicyViolation`, and what else is thrown. -/
abbrev Violation := String

def sponsorMinBaseFee : Int := 100

/-- The inclusion fee is paid for each operation, rounded up. The division of big integers
truncates, and throws for a transaction without operations. -/
def sponsorBaseFee (inner : Transaction) : Except Violation Int :=
  let ops : Int := inner.operations.length
  let inclusion := inner.fee - inner.resourceFee.getD 0
  if ops = 0 then .error "RangeError: Division by zero"
  else
    let ceilPerOp := (inclusion + ops - 1).tdiv ops
    .ok (if ceilPerOp > sponsorMinBaseFee then ceilPerOp else sponsorMinBaseFee)

def contractIdOf : OperationBody → Option Text
  | .invokeHostFunction (.invokeContract contractAddress) => contractAddress
  | _ => none

def checkOperation (policy : SponsorPolicy) (op : Operation) : Except Violation Unit :=
  match op.body with
  | .invokeHostFunction func =>
      let target := contractIdOf (.invokeHostFunction func)
      panicIf (falsy target ∨ target.getD [] ∉ policy.allowedContracts)
        ("operation invokes " ++ String.ofList (target.getD "an unparseable target".toList) ++
          ", not an allowed contract")
  | .changeTrust _ => .ok ()
  | .other type => .error ("operation type " ++ type ++ " is not sponsorable")

def validateInnerTx (inner : Envelope) (policy : SponsorPolicy) : Except Violation Transaction :=
  match inner with
  | .feeBump => .error "inner tx is already a fee-bump"
  | .unknown => .error "not a transaction envelope"
  | .transaction tx => do
      panicIf (tx.signatures = 0)
        "inner tx is unsigned — the user signs first, the sponsor never signs for them"
      panicIf (falsy policy.expectedSource = false ∧ some tx.source ≠ policy.expectedSource)
        ("inner tx source " ++ String.ofList tx.source ++ " is not the authenticated user " ++
          String.ofList (policy.expectedSource.getD []))
      panicIf (policy.maxInnerFee.any fun cap => cap < tx.fee)
        ("inner fee " ++ toString tx.fee ++ " exceeds the sponsor cap " ++
          toString (policy.maxInnerFee.getD 0))
      panicIf (tx.operations = []) "inner tx has no operations"
      forM tx.operations (checkOperation policy)
      pure tx

/-- The parser of envelopes, and the builder of signed fee bumps: the envelope and its
total fee. -/
structure SponsorSdk where
  fromXDR : Text → Text → Except Violation Envelope
  buildFeeBumpTransaction : Text → Int → Transaction → Text → Except Violation (Text × Int)

def buildSponsoredFeeBump (sdk : SponsorSdk) (innerXdr networkPassphrase sponsor : Text)
    (policy : SponsorPolicy) : Except Violation (Text × Int) := do
  let envelope ← sdk.fromXDR innerXdr networkPassphrase
  let inner ← validateInnerTx envelope policy
  let baseFee ← sponsorBaseFee inner
  sdk.buildFeeBumpTransaction sponsor baseFee inner networkPassphrase

/-! ## What the sponsor pays for -/

/-- An operation the policy states: a call of an allowed contract, or the trust line of the
permitted asset. -/
def Sponsorable (policy : SponsorPolicy) (usdc : Asset) (op : Operation) : Prop :=
  (∃ target ∈ policy.allowedContracts,
    op.body = .invokeHostFunction (.invokeContract (some target))) ∨
    op.body = .changeTrust (.asset usdc)

/-- Whom an operation acts for. -/
def Operation.effectiveSource (op : Operation) (tx : Transaction) : Text := op.source.getD tx.source

structure WithinPolicy (policy : SponsorPolicy) (usdc : Asset) (user : Text) (tx : Transaction) :
    Prop where
  operations : ∀ op ∈ tx.operations, Sponsorable policy usdc op
  sources : ∀ op ∈ tx.operations, op.effectiveSource tx = user
  nonempty : tx.operations ≠ []
  baseFee : ∃ b, sponsorBaseFee tx = .ok b ∧
    tx.fee - tx.resourceFee.getD 0 ≤ b * tx.operations.length

/-- What the code leaves to the transaction: whose trust lines are opened, and the sources
that operations bring along. -/
structure Unexploited (usdc : Asset) (user : Text) (tx : Transaction) : Prop where
  lines : ∀ op ∈ tx.operations, ∀ line, op.body = .changeTrust line → line = .asset usdc
  sources : ∀ op ∈ tx.operations, ∀ source, op.source = some source → source = user

variable {policy : SponsorPolicy} {usdc : Asset} {user : Text}
  {envelope : Envelope} {tx : Transaction}

/-- What the policy has checked of a transaction that it accepts. -/
theorem validateInnerTx_ok (h : validateInnerTx envelope policy = .ok tx) :
    envelope = .transaction tx ∧
      (falsy policy.expectedSource = false → policy.expectedSource = some tx.source) ∧
      (∀ cap, policy.maxInnerFee = some cap → tx.fee ≤ cap) ∧ tx.operations ≠ [] ∧
        ∀ op ∈ tx.operations, checkOperation policy op = .ok () := by
  cases envelope with
  | feeBump | unknown => cases h
  | transaction inner =>
      rcases bind_eq_ok.mp h with ⟨_, -, h⟩
      rcases bind_eq_ok.mp h with ⟨_, hsource, h⟩
      rcases bind_eq_ok.mp h with ⟨_, hcap, h⟩
      rcases bind_eq_ok.mp h with ⟨_, hsome, h⟩
      rcases bind_eq_ok.mp h with ⟨_, hops, h⟩
      cases pure_eq_ok.mp h
      have hcap' := panicIf_eq_ok.mp hcap
      refine ⟨rfl, fun hset => ?_, fun cap hmax => ?_, panicIf_eq_ok.mp hsome, forM_eq_ok.mp hops⟩
      · by_contra hne
        exact panicIf_eq_ok.mp hsource ⟨hset, fun heq => hne heq.symm⟩
      · by_contra hlt
        exact hcap' (by simp [hmax]; omega)

theorem checkOperation_ok {op : Operation} (h : checkOperation policy op = .ok ()) :
    (∃ target ∈ policy.allowedContracts,
      op.body = .invokeHostFunction (.invokeContract (some target))) ∨
      ∃ line, op.body = .changeTrust line := by
  unfold checkOperation at h
  split at h
  · rename_i func hbody
    have hallowed := not_or.mp (panicIf_eq_ok.mp h)
    cases func with
    | createContract | uploadContractWasm => exact absurd rfl hallowed.1
    | invokeContract contractAddress =>
        cases contractAddress with
        | none => exact absurd rfl hallowed.1
        | some target => exact .inl ⟨target, by simpa [contractIdOf] using hallowed.2, hbody⟩
  · rename_i line hbody
    exact .inr ⟨line, hbody⟩
  · cases h

/-- The base fee covers the inclusion fee. -/
theorem sponsorBaseFee_covers (h : tx.operations ≠ []) :
    ∃ b, sponsorBaseFee tx = .ok b ∧ tx.fee - tx.resourceFee.getD 0 ≤ b * tx.operations.length := by
  have hpos : 0 < (tx.operations.length : Int) := by
    exact_mod_cast List.length_pos_iff.mpr h
  unfold sponsorBaseFee
  simp only [if_neg hpos.ne']
  refine ⟨_, rfl, ?_⟩
  generalize tx.fee - tx.resourceFee.getD 0 = inclusion
  generalize (tx.operations.length : Int) = ops at hpos
  have hmin : sponsorMinBaseFee * ops ≤
      (if (inclusion + ops - 1).tdiv ops > sponsorMinBaseFee then (inclusion + ops - 1).tdiv ops
        else sponsorMinBaseFee) * ops := by
    refine Int.mul_le_mul_of_nonneg_right ?_ hpos.le
    split <;> omega
  have hceil : (inclusion + ops - 1).tdiv ops * ops ≤
      (if (inclusion + ops - 1).tdiv ops > sponsorMinBaseFee then (inclusion + ops - 1).tdiv ops
        else sponsorMinBaseFee) * ops := by
    refine Int.mul_le_mul_of_nonneg_right ?_ hpos.le
    split <;> omega
  rcases Int.lt_or_le inclusion 0 with hneg | hnonneg
  · -- a resource fee above the whole fee leaves nothing to cover
    have hpaid : 0 ≤ sponsorMinBaseFee * ops := Int.mul_nonneg (by decide) hpos.le
    omega
  · rw [Int.tdiv_eq_ediv_of_nonneg (by omega)] at hceil ⊢
    have hrest := Int.emod_add_mul_ediv (inclusion + ops - 1) ops
    have hlt := Int.emod_lt_of_pos (inclusion + ops - 1) hpos
    rw [Int.mul_comm] at hrest
    omega

/-- An accepted transaction is within the stated policy exactly if it opens no other trust
line and brings along no other source. -/
theorem validateInnerTx_withinPolicy_iff (hpolicy : policy.expectedSource = some user)
    (huser : user ≠ [])
    (h : validateInnerTx envelope policy = .ok tx) :
    WithinPolicy policy usdc user tx ↔ Unexploited usdc user tx := by
  rcases validateInnerTx_ok h with ⟨-, hsource, -, hsome, hops⟩
  have hown : tx.source = user := by
    have hset : falsy policy.expectedSource = false := by
      rw [hpolicy]
      cases user with
      | nil => exact absurd rfl huser
      | cons => rfl
    have heq := hsource hset
    rw [hpolicy] at heq
    exact (Option.some.inj heq).symm
  constructor
  · intro hwithin
    constructor
    · intro op hop line hline
      rcases hwithin.operations op hop with ⟨target, -, hbody⟩ | hbody
      · rw [hbody] at hline
        cases hline
      · rw [hbody] at hline
        cases hline
        rfl
    · intro op hop source hsome
      have heffective := hwithin.sources op hop
      rwa [Operation.effectiveSource, hsome] at heffective
  · intro hunexploited
    refine ⟨fun op hop => ?_, fun op hop => ?_, hsome, sponsorBaseFee_covers hsome⟩
    · rcases checkOperation_ok (hops op hop) with hinvoke | ⟨line, hline⟩
      · exact .inl hinvoke
      · exact .inr (by rw [hline, hunexploited.lines op hop line hline])
    · cases hop' : op.source with
      | none => rw [Operation.effectiveSource, hop', Option.getD_none, hown]
      | some source =>
          rw [Operation.effectiveSource, hop', Option.getD_some]
          exact hunexploited.sources op hop source hop'

/-! ## Sample transactions -/

def sampleUser : Text := "GUSER".toList

def sampleUsdc : Asset := ⟨"USDC".toList, "GCIRCLE".toList⟩

def samplePolicy : SponsorPolicy :=
  { allowedContracts := ["CVAULT".toList], expectedSource := some sampleUser }

/-- A deposit with the trust line of the first use. -/
def sampleTx : Transaction where
  source := sampleUser
  fee := 1000001
  operations := [⟨none, .changeTrust (.asset sampleUsdc)⟩,
    ⟨some sampleUser, .invokeHostFunction (.invokeContract (some "CVAULT".toList))⟩]
  signatures := 1
  resourceFee := some 900000

theorem validateInnerTx_withinPolicy_sample :
    WithinPolicy samplePolicy sampleUsdc sampleUser sampleTx := by
  have hpasses : validateInnerTx (.transaction sampleTx) samplePolicy = .ok sampleTx := by decide
  refine (validateInnerTx_withinPolicy_iff rfl (by decide) hpasses).mpr ?_
  constructor
  · intro op hop line hline
    simp only [sampleTx, List.mem_cons, List.not_mem_nil, or_false] at hop
    rcases hop with rfl | rfl
    · cases hline
      rfl
    · cases hline
  · intro op hop source hsource
    simp only [sampleTx, List.mem_cons, List.not_mem_nil, or_false] at hop
    rcases hop with rfl | rfl
    · cases hsource
    · cases hsource
      rfl

/-- A trust line for another asset, opened for another account. -/
def foreignTx : Transaction where
  source := sampleUser
  fee := 100
  operations := [⟨some "GOTHER".toList, .changeTrust (.asset ⟨"SPAM".toList, "GOTHER".toList⟩)⟩]
  signatures := 1
  resourceFee := none

theorem validateInnerTx_foreign :
    ¬ ∀ (envelope : Envelope) (policy : SponsorPolicy) (usdc : Asset)
    (user : Text) (tx : Transaction),
      policy.expectedSource = some user → validateInnerTx envelope policy = .ok tx →
        WithinPolicy policy usdc user tx := by
  intro h
  have hwithin :=
    h (.transaction foreignTx) samplePolicy sampleUsdc sampleUser foreignTx rfl (by decide)
  have hsource := hwithin.sources _ List.mem_cons_self
  revert hsource
  decide

end Lendoor.Backend.Sponsor
