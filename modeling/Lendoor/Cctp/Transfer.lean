import Lendoor.Cctp.Message

/-! # The transfer state machine

One row per CCTP nonce, the legal edges between its states, and the reconciliation
of a row with what Iris and the chain answered.
-/

namespace Lendoor.Cctp

inductive CctpTransferState
  | pending
  | attested
  | submitting
  | delivered
  | failed
  deriving DecidableEq, Repr

/-- The name a state has in the source. -/
def CctpTransferState.name : CctpTransferState → String
  | pending => "pending"
  | attested => "attested"
  | submitting => "submitting"
  | delivered => "delivered"
  | failed => "failed"

/-- The legal edges. -/
def legalTransitions : CctpTransferState → List CctpTransferState
  | .pending => [.attested, .failed]
  | .attested => [.submitting, .failed]
  | .submitting => [.delivered, .submitting, .attested, .failed]
  | .delivered => []
  | .failed => [.delivered]

structure CctpTransfer where
  nonce : Text
  sourceDomain : Nat
  destinationDomain : Nat
  burnTxHash : Text
  amountUsdc6 : Int
  beneficiary : Text
  state : CctpTransferState
  attestation : Option Text
  message : Option Text
  mintTxHash : Option Text
  depositTxHash : Option Text
  lastError : Option String
  attempts : Nat
  deriving DecidableEq, Repr

/-- `!value` of an optional text: absent or empty. -/
def falsy : Option Text → Bool
  | none => true
  | some text => text.isEmpty

/-- A partial update. A field is absent, or present with a value that may be undefined. -/
structure Patch where
  attestation : Option (Option Text) := none
  message : Option (Option Text) := none
  mintTxHash : Option (Option Text) := none
  depositTxHash : Option (Option Text) := none
  lastError : Option (Option String) := none
  deriving DecidableEq

/-- `{ ...t, ...patch }` -/
def Patch.apply (p : Patch) (t : CctpTransfer) : CctpTransfer :=
  { t with
    attestation := p.attestation.getD t.attestation
    message := p.message.getD t.message
    mintTxHash := p.mintTxHash.getD t.mintTxHash
    depositTxHash := p.depositTxHash.getD t.depositTxHash
    lastError := p.lastError.getD t.lastError }

def illegalCctpTransition (t : CctpTransfer) (next : CctpTransferState) : JsError :=
  ⟨.illegalCctpTransition, "CCTP transfer " ++ String.ofList t.nonce ++ ": illegal transition " ++
    t.state.name ++ " -> " ++ next.name⟩

/-- The one place where a row changes state. Without a new state a patch updates the
data; an advance clears the last error unless the patch brings one. -/
def transition (t : CctpTransfer) (next : CctpTransferState) (patch : Patch) :
    Except JsError CctpTransfer :=
  if t.state = next ∧ patch = {} then .ok t
  else if t.state = next ∧ next ∉ legalTransitions t.state then .ok (patch.apply t)
  else if next ∉ legalTransitions t.state then .error (illegalCctpTransition t next)
  else
    let cleared :=
      if next ≠ .failed ∧ patch.lastError = none then { t with lastError := none } else t
    .ok { patch.apply cleared with state := next }

inductive IrisAttestationStatus
  | pending
  | complete (attestation : Text) (message : Option Text)
  | backoff (retryAfterMs : Nat)
  | error (message : String)
  deriving DecidableEq, Repr

/-- What a complete answer adds to a row. -/
def IrisAttestationStatus.evidence : IrisAttestationStatus → Patch
  | complete attestation message =>
      { attestation := some (some attestation), message := some message }
  | _ => {}

def IrisAttestationStatus.isComplete : IrisAttestationStatus → Bool
  | complete _ _ => true
  | _ => false

/-- The rest of a reconciliation with a consumed nonce, once the row is past `pending`: the
row goes to `delivered` and keeps the attestation of this poll if it had none. -/
def reconcileMinted (t : CctpTransfer) (iris : IrisAttestationStatus) :
    Except JsError CctpTransfer := do
  let cur := if t.state = .attested ∧ iris.isComplete = true ∧ falsy t.attestation = true then
    iris.evidence.apply t else t
  let cur ← if cur.state = .attested then transition cur .submitting {} else pure cur
  let finalAtt :=
    if falsy cur.attestation = true ∧ iris.isComplete = true then iris.evidence else {}
  transition cur .delivered finalAtt

/-- One reconciliation step: a consumed nonce means the mint happened, whatever the row says. -/
def reconcile (t : CctpTransfer) (iris : IrisAttestationStatus) (nonceUsedOnChain : Bool) :
    Except JsError CctpTransfer :=
  if nonceUsedOnChain = true ∧ t.state ≠ .delivered then
    if t.state = .failed then transition t .delivered iris.evidence
    else do
      let cur ← if t.state = .pending then transition t .attested iris.evidence else pure t
      reconcileMinted cur iris
  else
    match t.state with
    | .pending =>
        match iris with
        | .complete _ _ => transition t .attested iris.evidence
        | .error message => transition t .failed { lastError := some (some message) }
        | _ => .ok { t with attempts := t.attempts + 1 }
    | _ => .ok t

/-! ## What the functions do -/

/-- The fields no transition touches. -/
structure CctpTransfer.SameKey (t t' : CctpTransfer) : Prop where
  nonce : t'.nonce = t.nonce
  beneficiary : t'.beneficiary = t.beneficiary

theorem CctpTransfer.SameKey.refl (t : CctpTransfer) : t.SameKey t := ⟨rfl, rfl⟩

theorem CctpTransfer.SameKey.trans {t t' t'' : CctpTransfer} (h : t.SameKey t')
    (h' : t'.SameKey t'') :
    t.SameKey t'' :=
  ⟨h'.nonce.trans h.nonce, h'.beneficiary.trans h.beneficiary⟩

@[simp] theorem Patch.apply_state (p : Patch) (t : CctpTransfer) : (p.apply t).state = t.state :=
  rfl

/-- A legal edge is taken. -/
theorem transition_ok {t : CctpTransfer} {next : CctpTransferState} (patch : Patch)
    (hlegal : next ∈ legalTransitions t.state) (hne : t.state ≠ next) :
    ∃ t', transition t next patch = .ok t' ∧ t'.state = next ∧ t.SameKey t' ∧
      t'.depositTxHash = patch.depositTxHash.getD t.depositTxHash ∧
      t'.message = patch.message.getD t.message ∧
      t'.attestation = patch.attestation.getD t.attestation := by
  simp only [transition, hne, false_and, if_false, hlegal, not_true_eq_false]
  split
  · exact ⟨_, rfl, rfl, ⟨rfl, rfl⟩, rfl, rfl, rfl⟩
  · exact ⟨_, rfl, rfl, ⟨rfl, rfl⟩, rfl, rfl, rfl⟩

/-- What a step that records no deposit keeps of a row. -/
structure CctpTransfer.Kept (t t' : CctpTransfer) : Prop extends t.SameKey t' where
  depositTxHash : t'.depositTxHash = t.depositTxHash

theorem CctpTransfer.Kept.refl (t : CctpTransfer) : t.Kept t := ⟨.refl t, rfl⟩

theorem CctpTransfer.Kept.trans {t t' t'' : CctpTransfer} (h : t.Kept t') (h' : t'.Kept t'') :
    t.Kept t'' :=
  ⟨h.toSameKey.trans h'.toSameKey, h'.depositTxHash.trans h.depositTxHash⟩

/-- A patch without a deposit is no deposit. -/
theorem transition_kept {t : CctpTransfer} {next : CctpTransferState} (patch : Patch)
    (hpatch : patch.depositTxHash = none) (hlegal : next ∈ legalTransitions t.state)
    (hne : t.state ≠ next) :
    ∃ t', transition t next patch = .ok t' ∧ t'.state = next ∧ t.Kept t' := by
  rcases transition_ok patch hlegal hne with ⟨t', htransition, hstate, hkey, hdeposit, _⟩
  rw [hpatch] at hdeposit
  exact ⟨t', htransition, hstate, hkey, hdeposit⟩

theorem IrisAttestationStatus.evidence_deposit (iris : IrisAttestationStatus) :
    iris.evidence.depositTxHash = none := by
  cases iris <;> rfl

theorem IrisAttestationStatus.apply_kept (iris : IrisAttestationStatus) (t : CctpTransfer) :
    t.Kept (iris.evidence.apply t) := by
  cases iris <;> exact ⟨⟨rfl, rfl⟩, rfl⟩

theorem reconcileMinted_submitting {t : CctpTransfer} (iris : IrisAttestationStatus)
    (hstate : t.state = .submitting) :
    ∃ u, reconcileMinted t iris = .ok u ∧ u.state = .delivered ∧ t.Kept u := by
  have hpatch : (if falsy t.attestation = true ∧ iris.isComplete = true then iris.evidence
      else {}).depositTxHash = none := by
    split
    · exact iris.evidence_deposit
    · rfl
  rcases transition_kept _ hpatch
    (show .delivered ∈ legalTransitions t.state by rw [hstate]; decide)
    (by rw [hstate]; decide) with ⟨u, htransition, hdelivered, hkept⟩
  refine ⟨u, ?_, hdelivered, hkept⟩
  simpa [reconcileMinted, hstate] using htransition

/-- An attested row goes through `submitting`. -/
theorem reconcileMinted_attested {t : CctpTransfer} (iris : IrisAttestationStatus)
    (hstate : t.state = .attested) :
    ∃ u, reconcileMinted t iris = .ok u ∧ u.state = .delivered ∧ t.Kept u := by
  rcases (⟨_, rfl⟩ : ∃ filled, (if t.state = .attested ∧ iris.isComplete = true ∧
    falsy t.attestation = true then iris.evidence.apply t else t) = filled) with ⟨filled, hfilled⟩
  have hkept : t.Kept filled ∧ filled.state = .attested := by
    rw [← hfilled]
    split
    · exact ⟨iris.apply_kept t, hstate⟩
    · exact ⟨.refl t, hstate⟩
  rcases transition_kept {} rfl (show .submitting ∈ legalTransitions filled.state by
    rw [hkept.2]; decide) (by rw [hkept.2]; decide) with ⟨cur, hsubmitting, hcur, hkept'⟩
  rcases reconcileMinted_submitting iris hcur with ⟨u, hu, hdelivered, hkept''⟩
  refine ⟨u, ?_, hdelivered, (hkept.1.trans hkept').trans hkept''⟩
  simp only [reconcileMinted, hfilled, hkept.2, if_true, hsubmitting, ok_bind]
  simpa [reconcileMinted, hcur] using hu

/-- A consumed nonce delivers every row that is not delivered yet, and records no deposit. -/
theorem reconcile_used {t : CctpTransfer} (iris : IrisAttestationStatus)
    (hne : t.state ≠ .delivered) :
    ∃ u, reconcile t iris true = .ok u ∧ u.state = .delivered ∧ t.Kept u := by
  cases hstate : t.state with
  | pending =>
      rcases transition_kept iris.evidence iris.evidence_deposit
        (show .attested ∈ legalTransitions t.state by rw [hstate]; decide)
        (by rw [hstate]; decide) with ⟨cur, htransition, hcur, hkept⟩
      rcases reconcileMinted_attested iris hcur with ⟨u, hu, hdelivered, hkept'⟩
      refine ⟨u, ?_, hdelivered, hkept.trans hkept'⟩
      simpa [reconcile, hstate, htransition] using hu
  | attested =>
      rcases reconcileMinted_attested iris hstate with ⟨u, hu, hdelivered, hkept⟩
      refine ⟨u, ?_, hdelivered, hkept⟩
      simpa [reconcile, hstate] using hu
  | submitting =>
      rcases reconcileMinted_submitting iris hstate with ⟨u, hu, hdelivered, hkept⟩
      refine ⟨u, ?_, hdelivered, hkept⟩
      simpa [reconcile, hstate] using hu
  | delivered => exact absurd hstate hne
  | failed =>
      rcases transition_kept iris.evidence iris.evidence_deposit
        (show .delivered ∈ legalTransitions t.state by rw [hstate]; decide)
        (by rw [hstate]; decide) with ⟨u, hu, hdelivered, hkept⟩
      refine ⟨u, ?_, hdelivered, hkept⟩
      simpa [reconcile, hstate] using hu

/-- Otherwise a row stays, or leaves `pending` on Iris's answer. -/
inductive Waited (t : CctpTransfer) : IrisAttestationStatus → CctpTransfer → Prop
  | same {iris : IrisAttestationStatus} {t' : CctpTransfer} (hkept : t.Kept t')
      (hstate : t'.state = t.state) (hmessage : t'.message = t.message) : Waited t iris t'
  | attested {attestation : Text} {message : Option Text} {t' : CctpTransfer} (hkept : t.Kept t')
      (hpending : t.state = .pending) (hstate : t'.state = .attested)
      (hmessage : t'.message = message) :
      Waited t (.complete attestation message) t'
  | failed {message : String} {t' : CctpTransfer} (hkept : t.Kept t')
      (hpending : t.state = .pending)
      (hstate : t'.state = .failed) (hmessage : t'.message = t.message) :
      Waited t (.error message) t'

theorem reconcile_unused (t : CctpTransfer) (iris : IrisAttestationStatus) :
    ∃ t', reconcile t iris false = .ok t' ∧ Waited t iris t' := by
  cases hstate : t.state with
  | pending =>
      cases iris with
      | complete attestation message =>
          rcases transition_ok (IrisAttestationStatus.complete attestation message).evidence
            (show .attested ∈ legalTransitions t.state by rw [hstate]; decide)
            (by rw [hstate]; decide) with ⟨t', htransition, hstate', hkey, hdeposit, hmessage, _⟩
          refine ⟨t', ?_, .attested ⟨hkey, hdeposit⟩ hstate hstate' hmessage⟩
          simpa [reconcile, hstate] using htransition
      | error message =>
          rcases transition_ok { lastError := some (some message) }
            (show .failed ∈ legalTransitions t.state by rw [hstate]; decide)
            (by rw [hstate]; decide) with ⟨t', htransition, hstate', hkey, hdeposit, hmessage, _⟩
          refine ⟨t', ?_, .failed ⟨hkey, hdeposit⟩ hstate hstate' hmessage⟩
          simpa [reconcile, hstate] using htransition
      | pending | backoff _ =>
          refine ⟨{ t with attempts := t.attempts + 1 }, ?_, .same ⟨⟨rfl, rfl⟩, rfl⟩ rfl rfl⟩
          simp [reconcile, hstate]
  | attested | submitting | delivered | failed =>
      refine ⟨t, ?_, .same (.refl t) rfl rfl⟩
      simp [reconcile, hstate]

/-- A delivered row stays as it is, whatever the chain and Iris answer. -/
theorem reconcile_delivered {t : CctpTransfer} (iris : IrisAttestationStatus) (used : Bool)
    (hstate : t.state = .delivered) : reconcile t iris used = .ok t := by
  simp [reconcile, hstate]

end Lendoor.Cctp
