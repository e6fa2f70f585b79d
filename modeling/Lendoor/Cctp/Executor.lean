import Lendoor.Core.Async
import Lendoor.Cctp.Transfer

/-! # The executor

One polling step and one delivery of a row, over the three ports: Iris, the nonce
oracle and the submitter. Both return the row to persist or throw; which calls were
awaited, and what they answered, is their trace.
-/

namespace Lendoor.Cctp

open Async (call lift Exchange)

/-- The oracle takes nonces of 32 bytes. -/
def nonceScVal (nonce : Text) : Except JsError Bytes := do
  let bytes ← hexToBytes nonce
  panicIf (bytes.length ≠ 32) ⟨.rangeError, "nonce must be 32 bytes, got " ++ toString bytes.length⟩
  pure bytes

/-- The invocations the relayer signs. -/
inductive Invocation
  | mintAndForward (message attestation : Bytes)
  | depositFrom (payer beneficiary : Text) (assets : Int)
  deriving DecidableEq, Repr

/-- The calls on the ports. -/
inductive Ask
  | getAttestation (sourceDomain : Nat) (burnTxHash : Text)
  | isNonceUsed (nonce : Text)
  | submit (contractId : Text) (invocation : Invocation)
  deriving DecidableEq, Repr

/-- A submission answers with its transaction hash. -/
@[reducible] def Answer : Ask → Type
  | .getAttestation _ _ => IrisAttestationStatus
  | .isNonceUsed _ => Bool
  | .submit _ _ => Text

abbrev Program (α : Type) : Type := Async Ask Answer JsError α

abbrev Asked : Type := Exchange Ask Answer JsError

structure CctpExecutorDeps where
  config : StellarCctpConfig
  relayerAddress : Text
  vaultContractId : Text

section Executor

variable (sdk : Sdk)

/-- `new Address(address).toScVal()` -/
def addressScVal (address : Text) : Except JsError Unit :=
  match sdk.addressFault address with
  | some message => .error ⟨.sdk, message⟩
  | none => .ok ()

/-- The arguments of `deposit_from`: two addresses and an `i128`. -/
def depositFromScVals (payer beneficiary : Text) (assets7 : Int) : Except JsError Invocation := do
  addressScVal sdk payer
  addressScVal sdk beneficiary
  panicIf (¬ I128.Fits assets7) ⟨.sdk, sdk.i128Fault assets7⟩
  pure (.depositFrom payer beneficiary assets7)

variable (deps : CctpExecutorDeps)

/-- Ask Iris and the chain, and reconcile. -/
def poll (t : CctpTransfer) : Program CctpTransfer := do
  let iris ← call (.getAttestation t.sourceDomain t.burnTxHash)
  let used ← call (.isNonceUsed t.nonce)
  lift (reconcile t iris used)

def depositToVault (t : CctpTransfer) (plan : DeliveryPlan) : Program Text := do
  let invocation ← lift (depositFromScVals sdk deps.relayerAddress t.beneficiary plan.amount7)
  call (Ask.submit deps.vaultContractId invocation)

/-- The forwarder pays the beneficiary itself. -/
def DeliveryPlan.Direct (plan : DeliveryPlan) (t : CctpTransfer) : Prop :=
  plan.forwardRecipient = t.beneficiary

instance decidableDirect (plan : DeliveryPlan) (t : CctpTransfer) : Decidable (plan.Direct t) :=
  inferInstanceAs (Decidable (_ = _))

/-- The mint already happened: what may be missing is the deposit. -/
def deliverUsed (t : CctpTransfer) (plan : DeliveryPlan) : Program CctpTransfer := do
  let cur ← if ¬ plan.Direct t ∧ falsy t.depositTxHash = true then do
      let txHash ← depositToVault sdk deps t plan
      lift (transition t t.state { depositTxHash := some (some txHash) })
    else pure t
  lift (reconcile cur (.complete (t.attestation.getD []) none) true)

/-- Mint, and in vault mode deposit. -/
def deliverUnused (t : CctpTransfer) (plan : DeliveryPlan) : Program CctpTransfer := do
  let cur ← lift (transition t .submitting {})
  let mintTxHash ← call (Ask.submit deps.config.cctpForwarder
    (.mintAndForward plan.mintMessage plan.mintAttestation))
  let cur ← lift (transition cur .submitting { mintTxHash := some (some mintTxHash) })
  let cur ← if ¬ plan.Direct t then do
      let txHash ← depositToVault sdk deps t plan
      lift (transition cur .submitting { depositTxHash := some (some txHash) })
    else pure cur
  lift (transition cur .delivered {})

/-- Deliver an attested row. A plan that cannot be right fails the row before any fee
is spent; an awaited call that throws leaves the row to be retried. -/
def deliver (t : CctpTransfer) : Program CctpTransfer :=
  if t.state ≠ .attested ∨ falsy t.attestation = true then
    .throw ⟨.error, "deliver() wants an attested row with attestation, got '" ++
      t.state.name ++ "'"⟩
  else if falsy t.message = true then
    .throw ⟨.error, "transfer " ++ String.ofList t.nonce ++
      ": no CCTP message stored; cannot build the mint"⟩
  else
    match planDelivery sdk (t.message.getD []) (t.attestation.getD []) deps.config with
    | .error e => lift (transition t .failed { lastError := some (some e.message) })
    | .ok plan =>
        if plan.nonce ≠ t.nonce then
          lift (transition t .failed { lastError := some (some ("message nonce " ++
            String.ofList plan.nonce ++ " does not match transfer nonce " ++
            String.ofList t.nonce)) })
        else if ¬ plan.Direct t ∧ plan.forwardRecipient ≠ deps.relayerAddress then
          lift (transition t .failed { lastError := some (some ("forwardRecipient " ++
            String.ofList plan.forwardRecipient ++
            " is neither the beneficiary nor the relayer")) })
        else do
          let used ← call (.isNonceUsed plan.nonce)
          if used = true then deliverUsed sdk deps t plan else deliverUnused sdk deps t plan

/-! ## Traces of the two procedures -/

/-- The assets of a deposit that landed. -/
def landedDeposit : Asked → Option Int
  | ⟨.submit _ (.depositFrom _ _ assets), .ok _⟩ => some assets
  | _ => none

def landedDeposits (trace : List Asked) : List Int := trace.filterMap landedDeposit

/-- What a poll persists, by what it was answered. -/
inductive Polled (t : CctpTransfer) : List Asked → CctpTransfer → Prop
  | minted (iris : IrisAttestationStatus) (t' : CctpTransfer) (hne : t.state ≠ .delivered)
      (hstate : t'.state = .delivered) (hkept : t.Kept t') :
      Polled t [⟨.getAttestation t.sourceDomain t.burnTxHash, .ok iris⟩,
        ⟨.isNonceUsed t.nonce, .ok true⟩] t'
  | delivered (iris : IrisAttestationStatus) (hstate : t.state = .delivered) :
      Polled t [⟨.getAttestation t.sourceDomain t.burnTxHash, .ok iris⟩,
        ⟨.isNonceUsed t.nonce, .ok true⟩] t
  | waited (iris : IrisAttestationStatus) (t' : CctpTransfer) (hwaited : Waited t iris t') :
      Polled t [⟨.getAttestation t.sourceDomain t.burnTxHash, .ok iris⟩,
        ⟨.isNonceUsed t.nonce, .ok false⟩] t'

theorem Polled.landed {t t' : CctpTransfer} {trace : List Asked} (h : Polled t trace t') :
    landedDeposits trace = [] := by
  cases h <;> rfl

/-- A poll throws what a call threw, or persists the reconciled row. -/
theorem poll_trace {t : CctpTransfer} {trace : List Asked} {out : Except JsError CctpTransfer}
    (h : (poll t).Trace trace out) :
    (∃ error, out = .error error ∧ (∃ ask, ⟨ask, .error error⟩ ∈ trace) ∧
        (∀ nonce, ⟨.isNonceUsed nonce, .ok true⟩ ∉ trace) ∧ landedDeposits trace = []) ∨
      ∃ t', out = .ok t' ∧ Polled t trace t' := by
  rcases Async.trace_bind.mp h with ⟨error, hiris, rfl⟩ | ⟨iris, before, after, rfl, hiris, hrest⟩
  · rw [Async.trace_call.mp hiris]
    exact .inl ⟨error, rfl, ⟨_, List.mem_singleton.mpr rfl⟩, by simp, rfl⟩
  · rw [Async.trace_call.mp hiris]
    rcases Async.trace_bind.mp hrest with ⟨error, hused, rfl⟩ |
      ⟨used, before, after, rfl, hused, hrest⟩
    · rw [Async.trace_call.mp hused]
      exact .inl ⟨error, rfl, ⟨.isNonceUsed t.nonce, by simp⟩, by simp, rfl⟩
    · rw [Async.trace_call.mp hused]
      rcases Async.trace_lift.mp hrest with ⟨rfl, rfl⟩
      cases used with
      | true =>
          by_cases hstate : t.state = .delivered
          · exact .inr ⟨t, reconcile_delivered iris true hstate, .delivered iris hstate⟩
          · rcases reconcile_used iris hstate with ⟨u, hu, hdelivered, hkept⟩
            exact .inr ⟨u, hu, .minted iris u hstate hdelivered hkept⟩
      | false =>
          rcases reconcile_unused t iris with ⟨u, hu, hwaited⟩
          exact .inr ⟨u, hu, .waited iris u hwaited⟩

/-- A deposit is refused by the SDK, or submitted once. -/
inductive DepositTrace (t : CctpTransfer) (plan : DeliveryPlan) :
    List Asked → Except JsError Text → Prop
  | refused (message : String) : DepositTrace t plan [] (.error ⟨.sdk, message⟩)
  | submitted (r : Except JsError Text) : DepositTrace t plan [⟨.submit deps.vaultContractId
      (.depositFrom deps.relayerAddress t.beneficiary plan.amount7), r⟩] r

theorem depositFromScVals_cases (payer beneficiary : Text) (assets7 : Int) :
    depositFromScVals sdk payer beneficiary assets7 = .ok (.depositFrom payer beneficiary assets7) ∨
      ∃ message, depositFromScVals sdk payer beneficiary assets7 = .error ⟨.sdk, message⟩ := by
  unfold depositFromScVals addressScVal
  cases sdk.addressFault payer with
  | some message => exact .inr ⟨message, rfl⟩
  | none =>
      cases sdk.addressFault beneficiary with
      | some message => exact .inr ⟨message, rfl⟩
      | none =>
          by_cases hfits : I128.Fits assets7
          · exact .inl (by simp [panicIf, hfits, pure, Except.pure])
          · exact .inr ⟨_, by simp only [panicIf, hfits, not_false_eq_true, if_true]; rfl⟩

variable {sdk deps}

theorem depositToVault_trace {t : CctpTransfer} {plan : DeliveryPlan} {trace : List Asked}
    {r : Except JsError Text} (h : (depositToVault sdk deps t plan).Trace trace r) :
    DepositTrace deps t plan trace r := by
  unfold depositToVault at h
  rcases depositFromScVals_cases sdk deps.relayerAddress t.beneficiary plan.amount7 with
    hvals | ⟨message, hvals⟩
  · rw [hvals, Async.lift_ok_bind] at h
    rw [Async.trace_call.mp h]
    exact .submitted r
  · rw [hvals] at h
    rcases Async.trace_throw.mp h with ⟨rfl, rfl⟩
    exact .refused message

variable (sdk deps)

/-- What a delivery has checked before it asks the chain. -/
structure Planned (t : CctpTransfer) (plan : DeliveryPlan) : Prop where
  attested : t.state = .attested
  planned : ∃ message attestation, t.message = some message ∧
    planDelivery sdk message attestation deps.config = .ok plan
  nonce : plan.nonce = t.nonce
  recipient : plan.Direct t ∨ plan.forwardRecipient = deps.relayerAddress

/-- A delivery ends as its deposit does. -/
inductive Ends (t : CctpTransfer) : Except JsError Text → Except JsError CctpTransfer → Prop
  | threw (error : JsError) : Ends t (.error error) (.error error)
  | delivered (txHash : Text) (t' : CctpTransfer) (hstate : t'.state = .delivered)
      (hkey : t.SameKey t') : Ends t (.ok txHash) (.ok t')

/-- The submission of the mint. -/
abbrev mintAsk (plan : DeliveryPlan) : Ask :=
  .submit deps.config.cctpForwarder (.mintAndForward plan.mintMessage plan.mintAttestation)

/-- Everything a delivery can do. -/
inductive DeliverTrace (t : CctpTransfer) : List Asked → Except JsError CctpTransfer → Prop
  | refused (message : String) : DeliverTrace t [] (.error ⟨.error, message⟩)
  | failed (t' : CctpTransfer) (hattested : t.state = .attested) (hstate : t'.state = .failed)
      (hkept : t.Kept t') : DeliverTrace t [] (.ok t')
  | unanswered (plan : DeliveryPlan) (hplan : Planned sdk deps t plan) (error : JsError) :
      DeliverTrace t [⟨.isNonceUsed plan.nonce, .error error⟩] (.error error)
  | recorded (plan : DeliveryPlan) (hplan : Planned sdk deps t plan)
      (hdone : plan.Direct t ∨ falsy t.depositTxHash = false) (t' : CctpTransfer)
      (hstate : t'.state = .delivered) (hkey : t.SameKey t') :
      DeliverTrace t [⟨.isNonceUsed plan.nonce, .ok true⟩] (.ok t')
  | late (plan : DeliveryPlan) (hplan : Planned sdk deps t plan) (hvault : ¬ plan.Direct t)
      {deposit : List Asked} {r : Except JsError Text}
      (hdeposit : DepositTrace deps t plan deposit r)
      {out : Except JsError CctpTransfer} (hout : Ends t r out) :
      DeliverTrace t (⟨.isNonceUsed plan.nonce, .ok true⟩ :: deposit) out
  | unminted (plan : DeliveryPlan) (hplan : Planned sdk deps t plan) (error : JsError) :
      DeliverTrace t [⟨.isNonceUsed plan.nonce, .ok false⟩, ⟨mintAsk deps plan, .error error⟩]
        (.error error)
  | direct (plan : DeliveryPlan) (hplan : Planned sdk deps t plan) (hdirect : plan.Direct t)
      (txHash : Text) (t' : CctpTransfer) (hstate : t'.state = .delivered) (hkey : t.SameKey t') :
      DeliverTrace t [⟨.isNonceUsed plan.nonce, .ok false⟩, ⟨mintAsk deps plan, .ok txHash⟩]
      (.ok t')
  | vault (plan : DeliveryPlan) (hplan : Planned sdk deps t plan) (hvault : ¬ plan.Direct t)
      (txHash : Text) {deposit : List Asked} {r : Except JsError Text}
      (hdeposit : DepositTrace deps t plan deposit r) {out : Except JsError CctpTransfer}
      (hout : Ends t r out) :
      DeliverTrace t
        (⟨.isNonceUsed plan.nonce, .ok false⟩ :: ⟨mintAsk deps plan, .ok txHash⟩ :: deposit) out

variable {sdk deps}

/-- A deposit after which the row is delivered. -/
theorem deposit_ends {t : CctpTransfer} {plan : DeliveryPlan} {rest : Text → Program CctpTransfer}
    (hrest : ∀ txHash, ∃ u, rest txHash = lift (.ok u) ∧ u.state = .delivered ∧ t.SameKey u)
    {trace : List Asked} {out : Except JsError CctpTransfer}
    (h : (depositToVault sdk deps t plan >>= rest).Trace trace out) :
    ∃ r, DepositTrace deps t plan trace r ∧ Ends t r out := by
  rcases Async.trace_bind.mp h with ⟨error, hdeposit, rfl⟩ |
    ⟨txHash, before, after, rfl, hdeposit, hafter⟩
  · exact ⟨.error error, depositToVault_trace hdeposit, .threw error⟩
  · rcases hrest txHash with ⟨u, hu, hstate, hkey⟩
    rw [hu] at hafter
    rcases Async.trace_lift.mp hafter with ⟨rfl, rfl⟩
    rw [List.append_nil]
    exact ⟨.ok txHash, depositToVault_trace hdeposit, .delivered txHash u hstate hkey⟩

theorem deliverUsed_trace {t : CctpTransfer} {plan : DeliveryPlan} {trace : List Asked}
    {out : Except JsError CctpTransfer} (hplan : Planned sdk deps t plan)
    (h : (deliverUsed sdk deps t plan).Trace trace out) :
    DeliverTrace sdk deps t (⟨.isNonceUsed plan.nonce, .ok true⟩ :: trace) out := by
  have hreconcile : ∀ cur : CctpTransfer, cur.state = .attested → t.SameKey cur →
      ∃ u, reconcile cur (.complete (t.attestation.getD []) none) true = .ok u ∧
        u.state = .delivered ∧ t.SameKey u := by
    intro cur hcur hkey
    rcases reconcile_used (t := cur) (.complete (t.attestation.getD []) none)
      (by rw [hcur]; decide) with ⟨u, hu, hdelivered, hkept⟩
    exact ⟨u, hu, hdelivered, hkey.trans hkept.toSameKey⟩
  unfold deliverUsed at h
  by_cases hdue : ¬ plan.Direct t ∧ falsy t.depositTxHash = true
  · simp only [if_pos hdue] at h
    -- the deposit is recorded on the row as it stands
    have hrecord : ∀ txHash : Text, transition t t.state { depositTxHash := some (some txHash) } =
        .ok (Patch.apply { depositTxHash := some (some txHash) } t) := by
      intro txHash
      simp [transition, hplan.attested, legalTransitions]
    simp only [hrecord, Async.lift_ok_bind] at h
    have hrest : ∀ txHash : Text, ∃ u,
        (lift (reconcile (Patch.apply { depositTxHash := some (some txHash) } t)
          (.complete (t.attestation.getD []) none) true) : Program CctpTransfer) = lift (.ok u) ∧
        u.state = .delivered ∧ t.SameKey u := by
      intro txHash
      rcases hreconcile (Patch.apply { depositTxHash := some (some txHash) } t) hplan.attested
        ⟨rfl, rfl⟩ with ⟨u, hu, hdelivered, hkey⟩
      exact ⟨u, by rw [hu], hdelivered, hkey⟩
    rcases deposit_ends hrest h with ⟨r, hdeposit, hends⟩
    exact .late plan hplan hdue.1 hdeposit hends
  · rcases hreconcile t hplan.attested (.refl t) with ⟨u, hu, hdelivered, hkey⟩
    simp only [if_neg hdue] at h
    rcases Async.trace_lift.mp h with ⟨rfl, rfl⟩
    rw [hu]
    refine .recorded plan hplan ?_ u hdelivered hkey
    by_cases hdirect : plan.Direct t
    · exact .inl hdirect
    · exact .inr (by simpa [hdirect] using hdue)

/-- A row in `submitting` takes the data of a submission and stays there. -/
theorem transition_submitting {t : CctpTransfer} (patch : Patch) (hstate : t.state = .submitting)
    (hpatch : patch ≠ {}) : ∃ u, transition t .submitting patch = .ok u ∧ u.state = .submitting ∧
      t.SameKey u := by
  have hlegal : CctpTransferState.submitting ∈ legalTransitions t.state := by
    rw [hstate]
    decide
  simp only [transition, hpatch, and_false, if_false, hlegal, not_true_eq_false]
  split <;> exact ⟨_, rfl, rfl, ⟨rfl, rfl⟩⟩

theorem deliverUnused_trace {t : CctpTransfer} {plan : DeliveryPlan} {trace : List Asked}
    {out : Except JsError CctpTransfer} (hplan : Planned sdk deps t plan)
    (h : (deliverUnused sdk deps t plan).Trace trace out) :
    DeliverTrace sdk deps t (⟨.isNonceUsed plan.nonce, .ok false⟩ :: trace) out := by
  rcases transition_ok {}
    (show .submitting ∈ legalTransitions t.state by rw [hplan.attested]; decide)
    (by rw [hplan.attested]; decide) with ⟨cur, hcur, hstate, hkey, _⟩
  -- the row is delivered from `submitting`, whatever it recorded there
  have hdelivered : ∀ u : CctpTransfer, u.state = .submitting → t.SameKey u →
      ∃ u', transition u .delivered {} = .ok u' ∧ u'.state = .delivered ∧ t.SameKey u' := by
    intro u hu hkey
    rcases transition_ok (t := u) {} (show .delivered ∈ legalTransitions u.state by rw [hu]; decide)
      (by rw [hu]; decide) with ⟨u', hu', hstate', hkey', _⟩
    exact ⟨u', hu', hstate', hkey.trans hkey'⟩
  unfold deliverUnused at h
  rw [hcur, Async.lift_ok_bind] at h
  rcases Async.trace_bind.mp h with ⟨error, hmint, rfl⟩ |
    ⟨txHash, before, after, rfl, hmint, hafter⟩
  · rw [Async.trace_call.mp hmint]
    exact .unminted plan hplan error
  · rw [Async.trace_call.mp hmint]
    rcases transition_submitting { mintTxHash := some (some txHash) } hstate (by simp) with
      ⟨minted, hminted, hstate', hkey'⟩
    rw [hminted, Async.lift_ok_bind] at hafter
    by_cases hdirect : plan.Direct t
    · simp only [not_true_eq_false, if_false, hdirect] at hafter
      rcases hdelivered minted hstate' (hkey.trans hkey') with ⟨u, hu, hstate'', hkey''⟩
      rcases Async.trace_lift.mp hafter with ⟨rfl, rfl⟩
      rw [hu]
      exact .direct plan hplan hdirect txHash u hstate'' hkey''
    · simp only [hdirect, not_false_eq_true, if_true] at hafter
      have hrest : ∀ depositTxHash : Text, ∃ u,
          (lift (transition minted .submitting { depositTxHash := some (some depositTxHash) }) >>=
            fun cur => lift (transition cur .delivered {}) : Program CctpTransfer) = lift (.ok u) ∧
          u.state = .delivered ∧ t.SameKey u := by
        intro depositTxHash
        rcases transition_submitting { depositTxHash := some (some depositTxHash) } hstate'
          (by simp) with ⟨deposited, hdeposited, hstate'', hkey''⟩
        rcases hdelivered deposited hstate'' ((hkey.trans hkey').trans hkey'')
          with ⟨u, hu, hdone, hkey⟩
        exact ⟨u, by rw [hdeposited, Async.lift_ok_bind, hu], hdone, hkey⟩
      rcases deposit_ends hrest hafter with ⟨r, hdeposit, hends⟩
      exact .vault plan hplan hdirect txHash hdeposit hends

theorem deliver_trace {t : CctpTransfer} {trace : List Asked} {out : Except JsError CctpTransfer}
    (h : (deliver sdk deps t).Trace trace out) : DeliverTrace sdk deps t trace out := by
  unfold deliver at h
  split at h
  · rcases Async.trace_throw.mp h with ⟨rfl, rfl⟩
    exact .refused _
  · rename_i hready
    rw [not_or, not_ne_iff] at hready
    rcases hready with ⟨hattested, hattestation⟩
    -- a plan that cannot be right fails the row
    have hfailed : ∀ error : String,
        (lift (transition t .failed { lastError := some (some error) }) : Program
          CctpTransfer).Trace
          trace out → DeliverTrace sdk deps t trace out := by
      intro error h
      rcases transition_kept { lastError := some (some error) } rfl
        (show .failed ∈ legalTransitions t.state by rw [hattested]; decide)
        (by rw [hattested]; decide) with ⟨u, hu, hstate, hkept⟩
      rcases Async.trace_lift.mp h with ⟨rfl, rfl⟩
      rw [hu]
      exact .failed u hattested hstate hkept
    split at h
    · rcases Async.trace_throw.mp h with ⟨rfl, rfl⟩
      exact .refused _
    · rename_i hmessage
      split at h
      · exact hfailed _ h
      · rename_i plan hplan
        split at h
        · exact hfailed _ h
        · rename_i hnonce
          split at h
          · exact hfailed _ h
          · rename_i hrecipient
            have hplanned : Planned sdk deps t plan := by
              refine ⟨hattested, ?_, not_ne_iff.mp hnonce, ?_⟩
              · cases hm : t.message with
                | none => simp [falsy, hm] at hmessage
                | some message => exact ⟨message, _, rfl, by simpa [hm] using hplan⟩
              · by_cases hdirect : plan.Direct t
                · exact .inl hdirect
                · exact .inr (by simpa [hdirect] using hrecipient)
            rcases Async.trace_bind.mp h with ⟨error, hused, rfl⟩ |
              ⟨used, before, after, rfl, hused, hafter⟩
            · rw [Async.trace_call.mp hused]
              exact .unanswered plan hplanned error
            · rw [Async.trace_call.mp hused]
              cases used with
              | true => exact deliverUsed_trace hplanned hafter
              | false => exact deliverUnused_trace hplanned hafter

/-! ## What a trace tells -/

theorem DepositTrace.landed {t : CctpTransfer} {plan : DeliveryPlan} {trace : List Asked}
    {r : Except JsError Text} (h : DepositTrace deps t plan trace r) :
    landedDeposits trace = match r with | .ok _ => [plan.amount7] | .error _ => [] := by
  cases h with
  | refused message => rfl
  | submitted r => cases r <;> rfl

theorem DepositTrace.assets_eq {t : CctpTransfer} {plan : DeliveryPlan} {trace : List Asked}
    {r : Except JsError Text} (h : DepositTrace deps t plan trace r) {x : Asked} (hmem : x ∈ trace)
    {assets : Int} (hx : landedDeposit x = some assets) : assets = plan.amount7 := by
  cases h with
  | refused => cases hmem
  | submitted r =>
      rw [List.mem_singleton.mp hmem] at hx
      cases r with
      | ok txHash => exact (Option.some.inj hx).symm
      | error => cases hx

theorem poll_lands_nothing {t : CctpTransfer} {trace : List Asked}
    {out : Except JsError CctpTransfer}
    (h : (poll t).Trace trace out) : landedDeposits trace = [] := by
  rcases poll_trace h with ⟨_, _, _, _, hlanded⟩ | ⟨_, _, hpolled⟩
  · exact hlanded
  · exact hpolled.landed

/-- Before a deposit, the oracle answered that the nonce is used, or the mint landed. -/
theorem DeliverTrace.deposit_after {t : CctpTransfer} {asked more : List Asked} {x : Asked}
    {out : Except JsError CctpTransfer} {assets : Int}
    (h : DeliverTrace sdk deps t (asked ++ x :: more) out) (hx : landedDeposit x = some assets) :
    ∃ plan, Planned sdk deps t plan ∧ ¬ plan.Direct t ∧ assets = plan.amount7 ∧
      (⟨.isNonceUsed plan.nonce, .ok true⟩ ∈ asked ∨
        ∃ txHash, ⟨mintAsk deps plan, .ok txHash⟩ ∈ asked) := by
  generalize htrace : asked ++ x :: more = trace at h
  have hmem : x ∈ trace := by
    rw [← htrace]
    simp
  cases h with
  | refused | failed => simp at htrace
  | unanswered | recorded =>
      rw [List.mem_singleton.mp hmem] at hx
      cases hx
  | unminted | direct =>
      simp only [List.mem_cons, List.not_mem_nil, or_false] at hmem
      rcases hmem with rfl | rfl <;> cases hx
  | @late plan hplan hvault deposit r hdeposit _ hout =>
      rcases List.append_eq_cons_iff.mp htrace with ⟨_, hcons⟩ | ⟨asked', rfl, htail⟩
      · cases hcons
        cases hx
      · refine ⟨plan, hplan, hvault, hdeposit.assets_eq (x := x) ?_ hx, .inl (by simp)⟩
        rw [htail]
        simp
  | @vault plan hplan hvault txHash deposit r hdeposit _ hout =>
      rcases List.append_eq_cons_iff.mp htrace with ⟨_, hcons⟩ | ⟨asked', rfl, htail⟩
      · cases hcons
        cases hx
      · rcases List.append_eq_cons_iff.mp htail.symm with ⟨_, hcons⟩ | ⟨asked'', rfl, htail'⟩
        · cases hcons
          cases hx
        · refine ⟨plan, hplan, hvault, hdeposit.assets_eq (x := x) ?_ hx, .inr ⟨txHash, by simp⟩⟩
          rw [htail']
          simp

theorem Ends.landed {t t' : CctpTransfer} {plan : DeliveryPlan} {trace : List Asked}
    {r : Except JsError Text} (hdeposit : DepositTrace deps t plan trace r)
    (h : Ends t r (.ok t')) :
    t'.state = .delivered ∧ t.SameKey t' ∧ landedDeposits trace = [plan.amount7] := by
  cases h with
  | delivered txHash _ hstate hkey => exact ⟨hstate, hkey, hdeposit.landed⟩

/-- Only an attested row gets past the guards. -/
theorem DeliverTrace.attested {t t' : CctpTransfer} {trace : List Asked}
    (h : DeliverTrace sdk deps t trace (.ok t')) : t.state = .attested := by
  cases h with
  | failed _ hattested => exact hattested
  | recorded plan hplan | direct plan hplan | late plan hplan | vault plan hplan =>
      exact hplan.attested

/-- How a delivery ends, given what it landed. -/
theorem DeliverTrace.ends {t t' : CctpTransfer} {trace : List Asked}
    (h : DeliverTrace sdk deps t trace (.ok t')) :
    (t'.state = .failed ∧ t.Kept t' ∧ landedDeposits trace = []) ∨
      (t'.state = .delivered ∧ t.SameKey t' ∧ (landedDeposits trace).length ≤ 1 ∧
        ((∀ plan, Planned sdk deps t plan → ¬ plan.Direct t) → falsy t.depositTxHash = true →
          landedDeposits trace ≠ [])) := by
  cases h with
  | failed _ _ hstate hkept => exact .inl ⟨hstate, hkept, rfl⟩
  | recorded plan hplan hdone _ hstate hkey =>
      refine .inr ⟨hstate, hkey, Nat.zero_le 1, fun hvault hdue => ?_⟩
      rcases hdone with hdirect | hrecorded
      · exact absurd hdirect (hvault plan hplan)
      · rw [hdue] at hrecorded
        cases hrecorded
  | direct plan hplan hdirect txHash _ hstate hkey =>
      exact .inr ⟨hstate, hkey, Nat.zero_le 1,
        fun hvault _ => absurd hdirect (hvault plan hplan)⟩
  | @late plan hplan hvault deposit r hdeposit _ hout =>
      rcases hout.landed hdeposit with ⟨hstate, hkey, hlanded⟩
      have hall : landedDeposits (⟨.isNonceUsed plan.nonce, .ok true⟩ :: deposit) =
          [plan.amount7] := hlanded
      exact .inr ⟨hstate, hkey, by simp [hall], fun _ _ => by simp [hall]⟩
  | @vault plan hplan hvault txHash deposit r hdeposit _ hout =>
      rcases hout.landed hdeposit with ⟨hstate, hkey, hlanded⟩
      have hall : landedDeposits (⟨.isNonceUsed plan.nonce, .ok false⟩ ::
          ⟨mintAsk deps plan, .ok txHash⟩ :: deposit) = [plan.amount7] := hlanded
      exact .inr ⟨hstate, hkey, by simp [hall], fun _ _ => by simp [hall]⟩

theorem Ends.of_error {t : CctpTransfer} {plan : DeliveryPlan} {trace : List Asked}
    {r : Except JsError Text} (hdeposit : DepositTrace deps t plan trace r) {error : JsError}
    (h : Ends t r (.error error)) : landedDeposits trace = [] ∧
      (error.kind ≠ .illegalCctpTransition ∨ ∃ ask, ⟨ask, .error error⟩ ∈ trace) := by
  cases h with
  | threw =>
      refine ⟨hdeposit.landed, ?_⟩
      cases hdeposit with
      | refused => exact .inl (by simp)
      | submitted => exact .inr ⟨_, List.mem_singleton.mpr rfl⟩

/-- A delivery that throws landed no deposit, and throws what a call threw or what no
transition throws. -/
theorem DeliverTrace.throws {t : CctpTransfer} {trace : List Asked} {error : JsError}
    (h : DeliverTrace sdk deps t trace (.error error)) :
    landedDeposits trace = [] ∧
      (error.kind ≠ .illegalCctpTransition ∨ ∃ ask, ⟨ask, .error error⟩ ∈ trace) := by
  cases h with
  | refused message => exact ⟨rfl, .inl (by simp)⟩
  | unanswered plan hplan => exact ⟨rfl, .inr ⟨_, List.mem_singleton.mpr rfl⟩⟩
  | unminted plan hplan => exact ⟨rfl, .inr ⟨mintAsk deps plan, by simp⟩⟩
  | @late plan hplan hvault deposit r hdeposit _ hout =>
      rcases hout.of_error hdeposit with ⟨hlanded, hkind⟩
      refine ⟨hlanded, hkind.imp_right ?_⟩
      rintro ⟨ask, hmem⟩
      exact ⟨ask, List.mem_cons_of_mem _ hmem⟩
  | @vault plan hplan hvault txHash deposit r hdeposit _ hout =>
      rcases hout.of_error hdeposit with ⟨hlanded, hkind⟩
      refine ⟨hlanded, hkind.imp_right ?_⟩
      rintro ⟨ask, hmem⟩
      exact ⟨ask, List.mem_cons_of_mem _ (List.mem_cons_of_mem _ hmem)⟩

theorem DeliverTrace.landed_le_one {t : CctpTransfer} {trace : List Asked}
    {out : Except JsError CctpTransfer} (h : DeliverTrace sdk deps t trace out) :
    (landedDeposits trace).length ≤ 1 := by
  cases out with
  | error error => simp [h.throws.1]
  | ok t' =>
      rcases h.ends with ⟨_, _, hlanded⟩ | ⟨_, _, hlanded, _⟩
      · simp [hlanded]
      · exact hlanded

/-- A delivered row's nonce was seen used, or its message was minted. -/
theorem DeliverTrace.consumes {t t' : CctpTransfer} {trace : List Asked}
    (h : DeliverTrace sdk deps t trace (.ok t')) (hstate : t'.state = .delivered) :
    ∃ plan, Planned sdk deps t plan ∧ (⟨.isNonceUsed plan.nonce, .ok true⟩ ∈ trace ∨
      ∃ txHash, ⟨mintAsk deps plan, .ok txHash⟩ ∈ trace) := by
  cases h with
  | failed _ _ hfailed =>
      rw [hfailed] at hstate
      cases hstate
  | recorded plan hplan => exact ⟨plan, hplan, .inl (by simp)⟩
  | direct plan hplan _ txHash => exact ⟨plan, hplan, .inr ⟨txHash, by simp⟩⟩
  | late plan hplan => exact ⟨plan, hplan, .inl (by simp)⟩
  | vault plan hplan _ txHash => exact ⟨plan, hplan, .inr ⟨txHash, by simp⟩⟩

/-- No mint is submitted after the oracle answered that the nonce is used. -/
theorem DeliverTrace.no_mint_after_used {t : CctpTransfer} {asked more : List Asked}
    {out : Except JsError CctpTransfer} {contractId : Text} {message attestation : Bytes}
    {r : Except JsError Text}
    (h : DeliverTrace sdk deps t
      (asked ++ ⟨.submit contractId (.mintAndForward message attestation), r⟩ :: more) out)
    (nonce : Text) : ⟨.isNonceUsed nonce, .ok true⟩ ∉ asked := by
  generalize htrace : asked ++ _ :: more = trace at h
  cases h with
  | refused | failed => simp at htrace
  | unanswered | recorded =>
      have hmem :=
        congrArg (⟨.submit contractId (.mintAndForward message attestation), r⟩ ∈ ·) htrace
      simp at hmem
  | late plan hplan hvault hdeposit =>
      have hmem :=
        congrArg (⟨.submit contractId (.mintAndForward message attestation), r⟩ ∈ ·) htrace
      cases hdeposit <;> simp at hmem
  | unminted plan | direct plan =>
      rcases List.append_eq_cons_iff.mp htrace with ⟨rfl, _⟩ | ⟨asked', rfl, htail⟩
      · simp
      · rcases List.append_eq_cons_iff.mp htail.symm with ⟨rfl, _⟩ | ⟨asked'', rfl, htail'⟩
        · simp
        · simp at htail'
  | vault plan hplan hvault txHash hdeposit =>
      rcases List.append_eq_cons_iff.mp htrace with ⟨rfl, _⟩ | ⟨asked', rfl, htail⟩
      · simp
      · rcases List.append_eq_cons_iff.mp htail.symm with ⟨rfl, _⟩ | ⟨asked'', rfl, htail'⟩
        · simp
        · have hmem :=
            congrArg (⟨.submit contractId (.mintAndForward message attestation), r⟩ ∈ ·) htail'
          cases hdeposit <;> simp at hmem

end Executor

end Lendoor.Cctp
