import Lendoor.Core.Runs
import Lendoor.Cctp.Deposits

/-! # The evidence a row keeps

The attestation and the message of a burn, through any sequence of reconciliations. A
complete answer overwrites both together wherever it is taken up, with or without a
message of its own; an attested row with an attestation takes nothing up.
-/

namespace Lendoor.Cctp

/-- What one reconciliation is told: Iris's answer, and whether the nonce is used. -/
abbrev Told : Type := IrisAttestationStatus × Bool

def ReconcileStep (t : CctpTransfer) (told : Told) (t' : CctpTransfer) : Prop :=
  reconcile t told.1 told.2 = .ok t'

/-- The row takes up the evidence of a complete answer: it is pending, or its nonce is used
and it failed or lacks an attestation on the way to `delivered`. -/
def TakesUp (t : CctpTransfer) (told : Told) : Prop :=
  told.1.isComplete = true ∧ (t.state = .pending ∨ (told.2 = true ∧
    (t.state = .failed ∨
      ((t.state = .attested ∨ t.state = .submitting) ∧ falsy t.attestation = true))))

instance (t : CctpTransfer) (told : Told) : Decidable (TakesUp t told) :=
  inferInstanceAs (Decidable (_ ∧ _))

/-- The message an answer brings. -/
def IrisAttestationStatus.text (iris : IrisAttestationStatus) : Option Text :=
  iris.evidence.message.getD none

/-- The two pieces of evidence after a step that took up Iris's answer or not. -/
structure Evidenced (t : CctpTransfer) (iris : IrisAttestationStatus) (takesUp : Prop)
    (t' : CctpTransfer) : Prop where
  taken : takesUp → t'.attestation = iris.evidence.attestation.getD none ∧
    t'.message = iris.text
  kept : ¬ takesUp → t'.attestation = t.attestation ∧ t'.message = t.message

theorem transition_evidence {t t' : CctpTransfer} {next : CctpTransferState} {patch : Patch}
    (h : transition t next patch = .ok t') :
    t'.state = next ∧ t'.attestation = patch.attestation.getD t.attestation ∧
      t'.message = patch.message.getD t.message := by
  unfold transition at h
  split at h
  · rename_i hsame
    cases h
    rw [hsame.2]
    exact ⟨hsame.1, rfl, rfl⟩
  · split at h
    · rename_i hdata
      cases h
      exact ⟨hdata.1, rfl, rfl⟩
    · split at h
      · cases h
      · simp only at h
        split at h <;> cases h <;> exact ⟨rfl, rfl, rfl⟩

theorem evidence_of_complete {iris : IrisAttestationStatus} (h : iris.isComplete = true) :
    ∃ attestation message, iris = .complete attestation message := by
  cases iris with
  | complete attestation message => exact ⟨attestation, message, rfl⟩
  | pending | backoff | error => cases h

/-- Past `pending`, the answer is taken up only by a row without an attestation. -/
theorem reconcileMinted_evidence {t t' : CctpTransfer} {iris : IrisAttestationStatus}
    (h : reconcileMinted t iris = .ok t') :
    Evidenced t iris (iris.isComplete = true ∧ falsy t.attestation = true) t' := by
  rcases (⟨_, rfl⟩ : ∃ filled, (if t.state = .attested ∧ iris.isComplete = true ∧
    falsy t.attestation = true then iris.evidence.apply t else t) = filled) with ⟨filled, hfilled⟩
  -- the step to `submitting`, where it is taken, leaves the evidence
  have hfinal : ∃ cur, (cur.attestation = filled.attestation ∧ cur.message = filled.message) ∧
      transition cur .delivered (if falsy cur.attestation = true ∧ iris.isComplete = true then
        iris.evidence else {}) = .ok t' := by
    simp only [reconcileMinted, hfilled] at h
    split at h
    · rcases bind_eq_ok.mp h with ⟨cur, hcur, hfinal⟩
      exact ⟨cur, (transition_evidence hcur).2, hfinal⟩
    · exact ⟨filled, ⟨rfl, rfl⟩, h⟩
  rcases hfinal with ⟨cur, ⟨hatt, hmsg⟩, hfinal⟩
  rcases transition_evidence hfinal with ⟨-, hattestation, hmessage⟩
  rw [hatt] at hattestation hmessage
  rw [hmsg] at hmessage
  constructor
  · rintro ⟨hcomplete, hmissing⟩
    rcases evidence_of_complete hcomplete with ⟨attestation, message, rfl⟩
    rw [hattestation, hmessage, ← hfilled]
    -- an empty attestation is taken up a second time
    by_cases hempty : falsy (some attestation) = true <;> by_cases hattested : t.state =
      .attested <;>
      simp [hattested, hmissing, IrisAttestationStatus.isComplete, IrisAttestationStatus.evidence,
        IrisAttestationStatus.text, Patch.apply, hempty]
  · intro hnot
    have hsame : filled = t := by rw [← hfilled, if_neg fun hall => hnot hall.2]
    rw [hattestation, hmessage, hsame, if_neg fun hall => hnot hall.symm]
    exact ⟨rfl, rfl⟩

theorem Evidenced.of_transition {t t' : CctpTransfer} {next : CctpTransferState}
    {iris : IrisAttestationStatus} (h : transition t next iris.evidence = .ok t') :
    Evidenced t iris (iris.isComplete = true) t' := by
  rcases transition_evidence h with ⟨-, hattestation, hmessage⟩
  refine ⟨fun hcomplete => ?_, fun hnot => ?_⟩
  · rcases evidence_of_complete hcomplete with ⟨attestation, message, rfl⟩
    exact ⟨hattestation, hmessage⟩
  · cases iris with
    | complete => exact absurd rfl hnot
    | pending | backoff | error => exact ⟨hattestation, hmessage⟩

theorem Evidenced.same {t t' : CctpTransfer} {iris : IrisAttestationStatus} {takesUp : Prop}
    (hnot : ¬ takesUp) (hattestation : t'.attestation = t.attestation)
    (hmessage : t'.message = t.message) :
    Evidenced t iris takesUp t' :=
  ⟨fun h => absurd h hnot, fun _ => ⟨hattestation, hmessage⟩⟩

/-- Whatever the state, a reconciliation takes up both pieces of evidence or neither. -/
theorem reconcile_evidence {t t' : CctpTransfer} {told : Told} (h : ReconcileStep t told t') :
    Evidenced t told.1 (TakesUp t told) t' := by
  rcases told with ⟨iris, used⟩
  simp only [ReconcileStep, reconcile] at h
  split at h
  · rename_i hused
    rcases hused with ⟨rfl, hopen⟩
    cases hstate : t.state with
    | pending =>
        simp only [hstate, if_true, reduceCtorEq, if_false] at h
        rcases bind_eq_ok.mp h with ⟨cur, hcur, hminted⟩
        have hattested := Evidenced.of_transition hcur
        have hdone := reconcileMinted_evidence hminted
        simp only [TakesUp, hstate, true_or, and_true]
        constructor
        · intro hcomplete
          by_cases hmissing : falsy cur.attestation = true
          · exact hdone.taken ⟨hcomplete, hmissing⟩
          · have hkept := hdone.kept fun hall => hmissing hall.2
            have htaken := hattested.taken hcomplete
            exact ⟨hkept.1.trans htaken.1, hkept.2.trans htaken.2⟩
        · intro hnot
          have hkept := hdone.kept fun hall => hnot hall.1
          have hkept' := hattested.kept hnot
          exact ⟨hkept.1.trans hkept'.1, hkept.2.trans hkept'.2⟩
    | failed =>
        simp only [hstate, if_true] at h
        simp only [TakesUp, hstate, true_or, or_true, and_true]
        exact Evidenced.of_transition h
    | attested | submitting =>
        simp only [hstate, reduceCtorEq, if_false] at h
        simpa [TakesUp, hstate] using reconcileMinted_evidence h
    | delivered => exact absurd hstate hopen
  · rename_i hunused
    cases hstate : t.state with
    | pending =>
        simp only [TakesUp, hstate, true_or, and_true]
        cases iris with
        | complete attestation message =>
            simp only [hstate] at h
            exact Evidenced.of_transition h
        | error message =>
            simp only [hstate] at h
            rcases transition_evidence h with ⟨-, hattestation, hmessage⟩
            exact .same Bool.false_ne_true hattestation hmessage
        | pending | backoff =>
            simp only [hstate, Except.ok.injEq] at h
            subst h
            exact .same Bool.false_ne_true rfl rfl
    | attested | submitting | failed | delivered =>
        simp only [hstate, Except.ok.injEq] at h
        subst h
        refine .same ?_ rfl rfl
        simp_all [TakesUp]

/-! ## Along a run -/

/-- What was stored is still there. -/
structure KeepsEvidence (t t' : CctpTransfer) : Prop where
  attestation : t.attestation ≠ none → t'.attestation ≠ none
  message : t.message ≠ none → t'.message ≠ none

theorem KeepsEvidence.refl (t : CctpTransfer) : KeepsEvidence t t := ⟨id, id⟩

theorem KeepsEvidence.trans {t t' t'' : CctpTransfer} (h : KeepsEvidence t t')
    (h' : KeepsEvidence t' t'') : KeepsEvidence t t'' :=
  ⟨h'.attestation ∘ h.attestation, h'.message ∘ h.message⟩

/-- The stored message is overwritten by an answer that brings none. -/
def Erases (t : CctpTransfer) (told : Told) : Prop :=
  t.message ≠ none ∧ TakesUp t told ∧ told.1.text = none

theorem keeps_iff {t t' : CctpTransfer} {told : Told} (h : ReconcileStep t told t') :
    KeepsEvidence t t' ↔ ¬ Erases t told := by
  have hevidence := reconcile_evidence h
  by_cases htakes : TakesUp t told
  · rcases hevidence.taken htakes with ⟨hattestation, hmessage⟩
    rcases evidence_of_complete htakes.1 with ⟨attestation, message, hcomplete⟩
    have hstored : t'.attestation ≠ none := by
      rw [hattestation, hcomplete]
      simp [IrisAttestationStatus.evidence]
    constructor
    · rintro hkeeps ⟨hsome, -, hnone⟩
      exact hkeeps.message hsome (hmessage.trans hnone)
    · intro hnot
      refine ⟨fun _ => hstored, fun hsome hnone => hnot ⟨hsome, htakes, ?_⟩⟩
      rw [← hmessage, hnone]
  · rcases hevidence.kept htakes with ⟨hattestation, hmessage⟩
    refine iff_of_true ⟨fun hsome => ?_, fun hsome => ?_⟩ fun herases => htakes herases.2.1
    · rwa [hattestation]
    · rwa [hmessage]

/-- An attested row is left alone while its nonce is free, and once it is used the row is
delivered with what it then has. -/
theorem run_without_text {t u : CctpTransfer} {steps : List Told} (hattested : t.state = .attested)
    (hmissing : falsy t.message = true) (run : Run ReconcileStep t steps u)
    (hnone : ∀ told ∈ steps, falsy told.1.text = true) :
    (u = t ∧ ∀ told ∈ steps, told.2 = false) ∨
      (u.state = .delivered ∧ falsy u.message = true ∧ ∃ told ∈ steps, told.2 = true) := by
  induction run with
  | nil => exact .inl ⟨rfl, by simp⟩
  | @snoc u u' steps told before hstep ih =>
      rcases ih fun told' hmem => hnone told' (by simp [hmem]) with
        ⟨rfl, hunused⟩ | ⟨hdelivered, hmessage, told', hmem, hused⟩
      · cases hused : told.2 with
        | false =>
            refine .inl ⟨?_, ?_⟩
            · simpa [ReconcileStep, reconcile, hused, hattested, eq_comm] using hstep
            · intro told' hmem
              rcases List.mem_append.mp hmem with hmem | hmem
              · exact hunused told' hmem
              · rwa [List.mem_singleton.mp hmem]
        | true =>
            refine .inr ⟨?_, ?_, told, by simp, hused⟩
            · rcases reconcile_used told.1 (t := u) (by rw [hattested]; decide)
                with ⟨u'', hu'', hdelivered, -⟩
              have hsame : reconcile u told.1 told.2 = .ok u' := hstep
              rw [hused, hu''] at hsame
              cases hsame
              exact hdelivered
            · by_cases htakes : TakesUp u told
              · rw [((reconcile_evidence hstep).taken htakes).2]
                exact hnone told (by simp)
              · rwa [((reconcile_evidence hstep).kept htakes).2]
      · have hsame : u' = u := by
          have hstays := reconcile_delivered told.1 told.2 hdelivered
          rw [show reconcile u told.1 told.2 = .ok u' from hstep] at hstays
          exact Except.ok.inj hstays
        rw [hsame]
        exact .inr ⟨hdelivered, hmessage, told', by simp [hmem], hused⟩

/-- The first answer that brings a text repairs an attested row without one exactly when it
comes with the nonce used, the row lacks an attestation, and the nonce was free until then. -/
theorem repaired_iff {t u : CctpTransfer} {steps : List Told} {told : Told}
    (hattested : t.state = .attested) (hmissing : falsy t.message = true)
    (hnone : ∀ told ∈ steps, falsy told.1.text = true) (htext : falsy told.1.text = false)
    (run : Run ReconcileStep t (steps ++ [told]) u) :
    u.message = told.1.text ↔
      (∀ told ∈ steps, told.2 = false) ∧ told.2 = true ∧ falsy t.attestation = true := by
  rcases run.snoc_inv with ⟨u', before, hstep⟩
  have hunrepaired : falsy u.message = true → u.message ≠ told.1.text := by
    intro hfalsy hsame
    rw [hsame, htext] at hfalsy
    cases hfalsy
  have hcomplete : told.1.isComplete = true := by
    cases hiris : told.1 with
    | complete => rfl
    | pending | backoff | error =>
        rw [hiris] at htext
        cases htext
  rcases run_without_text hattested hmissing before hnone with
    ⟨rfl, hunused⟩ | ⟨hdelivered, hmessage, told', hmem, hused⟩
  · have htakes : TakesUp u' told ↔ told.2 = true ∧ falsy u'.attestation = true := by
      simp [TakesUp, hcomplete, hattested]
    by_cases htaken : TakesUp u' told
    · exact iff_of_true ((reconcile_evidence hstep).taken htaken).2 ⟨hunused, htakes.mp htaken⟩
    · refine iff_of_false (hunrepaired ?_) fun hall => htaken (htakes.mpr hall.2)
      rwa [((reconcile_evidence hstep).kept htaken).2]
  · refine iff_of_false (hunrepaired ?_) fun hall => ?_
    · have hstays := reconcile_delivered told.1 told.2 hdelivered
      rw [show reconcile u' told.1 told.2 = .ok u from hstep] at hstays
      rwa [Except.ok.inj hstays]
    · rw [hall.1 told' hmem] at hused
      cases hused

/-- Evidence is kept between any two points of the run, and an attested row without a
message has the first one that Iris brings. -/
structure EvidenceHolds (t : CctpTransfer) (steps : List Told) : Prop where
  kept : ∀ before middle after u u', steps = before ++ middle ++ after →
    Run ReconcileStep t before u →
    Run ReconcileStep u middle u' → KeepsEvidence u u'
  repaired : t.state = .attested → falsy t.message = true →
    ∀ before told after u, steps = before ++ [told] ++ after →
      (∀ told ∈ before, falsy told.1.text = true) → falsy told.1.text = false →
      Run ReconcileStep t (before ++ [told]) u → u.message = told.1.text

/-- No step erases a message, and the first text that comes to an attested row without one
comes as the nonce is first found used, to a row without an attestation. -/
structure EvidenceSafe (t : CctpTransfer) (steps : List Told) : Prop where
  unerased : ∀ k u told u', StepAt ReconcileStep t steps k u told u' → ¬ Erases u told
  timely : t.state = .attested → falsy t.message = true →
    ∀ before told after, steps = before ++ [told] ++ after →
      (∀ told ∈ before, falsy told.1.text = true) → falsy told.1.text = false →
      (∀ told ∈ before, told.2 = false) ∧ told.2 = true ∧ falsy t.attestation = true

/-- A reconciliation always returns. -/
theorem exists_reconcileStep (t : CctpTransfer) (told : Told) : ∃ t', ReconcileStep t told t' := by
  rcases told with ⟨iris, used⟩
  cases used with
  | false =>
      rcases reconcile_unused t iris with ⟨t', ht', -⟩
      exact ⟨t', ht'⟩
  | true =>
      by_cases hdelivered : t.state = .delivered
      · exact ⟨t, reconcile_delivered iris true hdelivered⟩
      · rcases reconcile_used iris hdelivered with ⟨t', ht', -⟩
        exact ⟨t', ht'⟩

theorem exists_run (t : CctpTransfer) (steps : List Told) : ∃ u, Run ReconcileStep t steps u := by
  induction steps generalizing t with
  | nil => exact ⟨t, Run.nil t⟩
  | cons told steps ih =>
      rcases exists_reconcileStep t told with ⟨t', hstep⟩
      rcases ih t' with ⟨u, run⟩
      exact ⟨u, (Run.single hstep).append run⟩

/-- Between two points of a run in which no step erases a message, the evidence is kept. -/
theorem keeps_of_unerased {t u u' : CctpTransfer} {steps before middle after : List Told}
    (hsplit : steps = before ++ middle ++ after) (first : Run ReconcileStep t before u)
    (second : Run ReconcileStep u middle u')
    (hsafe : ∀ k u told u', StepAt ReconcileStep t steps k u told u' → ¬ Erases u told) :
    KeepsEvidence u u' := by
  induction second generalizing after with
  | nil => exact .refl _
  | @snoc v v' middle told run hstep ih =>
      have hsplit' : steps = before ++ middle ++ (told :: after) := by simpa using hsplit
      have hat : StepAt ReconcileStep t steps (before ++ middle).length v told v' := by
        refine ⟨?_, ?_, hstep⟩
        · rw [hsplit', List.getElem?_append_right le_rfl]
          simp
        · rw [hsplit', List.take_left' rfl]
          exact first.append run
      exact (ih hsplit').trans
        ((keeps_iff hstep).mpr (hsafe _ _ _ _ hat))

/-- For every row and every sequence of reconciliations, the evidence is kept and repaired
exactly when the sequence is safe. -/
theorem evidenceHolds_iff (t : CctpTransfer) (steps : List Told) :
    EvidenceHolds t steps ↔ EvidenceSafe t steps := by
  constructor
  · intro h
    refine ⟨fun k u told u' hat => ?_,
      fun hattested hmissing before told after hsplit hnone htext => ?_⟩
    · have hsplit : steps = steps.take k ++ [told] ++ steps.drop (k + 1) := by
        have htake := List.take_add_one (l := steps) (i := k)
        rw [hat.found, Option.toList_some] at htake
        rw [← htake, List.take_append_drop]
      exact (keeps_iff hat.taken).mp (h.kept _ _ _ _ _ hsplit hat.before (.single hat.taken))
    · rcases exists_run t (before ++ [told]) with ⟨u, run⟩
      exact (repaired_iff hattested hmissing hnone htext run).mp
        (h.repaired hattested hmissing before told after u hsplit hnone htext run)
  · intro h
    refine ⟨fun before middle after u u' hsplit first second =>
      keeps_of_unerased hsplit first second h.unerased, ?_⟩
    intro hattested hmissing before told after u hsplit hnone htext run
    exact (repaired_iff hattested hmissing hnone htext run).mpr
      (h.timely hattested hmissing before told after hsplit hnone htext)

/-! ## An answer without a message -/

/-- Iris's answer, with its message or without. -/
def completeAnswer (message : Option Text) : IrisAttestationStatus :=
  .complete testAttestation message

/-- The row after a complete answer without a message. -/
def unmessagedRow : CctpTransfer :=
  { testRow with state := .attested, attestation := some testAttestation }

/-- The row after its delivery failed with its message stored. -/
def failedRow : CctpTransfer := { attestedRow vaultMessage with state := .failed }

/-- The missing message is not taken up when it comes, so every delivery throws; and a
failed row loses the message it has. -/
theorem evidence_lost :
    (Run ReconcileStep testRow [(completeAnswer none, false)] unmessagedRow ∧
      Run ReconcileStep unmessagedRow [(completeAnswer (some (bytesToHex vaultMessage)), false)]
        unmessagedRow ∧
      unmessagedRow.state = .attested ∧ unmessagedRow.message = none ∧
      (∀ sdk deps, ∃ error, deliver sdk deps unmessagedRow = .throw error) ∧
      ¬ EvidenceHolds unmessagedRow [(completeAnswer (some (bytesToHex vaultMessage)), false)]) ∧
    ∃ u, Run ReconcileStep failedRow [(completeAnswer none, true)] u ∧ failedRow.message ≠ none ∧
      u.message = none ∧ ¬ EvidenceHolds failedRow [(completeAnswer none, true)] := by
  have hlate : Run ReconcileStep unmessagedRow
      [(completeAnswer (some (bytesToHex vaultMessage)), false)] unmessagedRow := .single rfl
  refine ⟨⟨.single rfl, hlate, rfl, rfl, fun sdk deps => ⟨_, rfl⟩, fun hholds => ?_⟩, ?_⟩
  · have hrepaired := hholds.repaired rfl rfl [] _ [] _ rfl (by simp) rfl hlate
    cases hrepaired
  · have herased : Run ReconcileStep failedRow [(completeAnswer none, true)]
        { failedRow with state := .delivered, message := none } := .single rfl
    refine ⟨_, herased, by simp [failedRow, attestedRow], rfl, fun hholds => ?_⟩
    have hkept := hholds.kept [] _ [] _ _ rfl (Run.nil _) herased
    exact hkept.message (by simp [failedRow, attestedRow]) rfl

end Lendoor.Cctp
