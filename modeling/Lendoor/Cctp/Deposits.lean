import Lendoor.Cctp.Delivery

/-! # Deposits of vault-mode rows

A row that is not delivered has landed no deposit but those of its attempt under way,
and every deposit is of the amount of a message whose nonce was consumed before. A
vault-mode row is delivered with its deposit, unless a poll finds the nonce consumed first.
-/

namespace Lendoor.Cctp

open Async (Trace Awaits)

/-- The message, if it can be read, satisfies `P`. -/
def CarriesOnly (P : Bytes → Prop) (message : Option Text) : Prop :=
  ∀ hex bytes, message = some hex → hexToBytes hex = .ok bytes → P bytes

/-- If Iris answers with a message, it satisfies `P`. -/
def AnswersOnly (P : Bytes → Prop) (x : Asked) : Prop :=
  ∀ sourceDomain burnTxHash attestation message,
    x = ⟨.getAttestation sourceDomain burnTxHash, .ok (.complete attestation message)⟩ →
      CarriesOnly P message

section Deposits

variable {ι : Type} [DecidableEq ι] {sdk : Sdk} {deps : CctpExecutorDeps} {P Q : Bytes → Prop}
  {guard : State ι → Delivering → DeliveryEvent ι → Prop} {t₀ : CctpTransfer}
  {i j : ι} {s s' : State ι}
  {o : Option Delivering}

theorem answersOnly_isNonceUsed (nonce : Text) (r : Except JsError Bool) :
    AnswersOnly P ⟨.isNonceUsed nonce, r⟩ := nofun

theorem answersOnly_submit (contractId : Text) (invocation : Invocation) (r : Except JsError Text) :
    AnswersOnly P ⟨.submit contractId invocation, r⟩ := nofun

theorem answersOnly_pending (sourceDomain : Nat) (burnTxHash : Text) :
    AnswersOnly P ⟨.getAttestation sourceDomain burnTxHash, .ok .pending⟩ := nofun

/-- As long as a row may be delivered, its message satisfies `P`. -/
structure Carried (P : Bytes → Prop) (i : ι) (s : State ι) (o : Option Delivering) : Prop where
  row : (s.rows i).state ≠ .delivered → (s.rows i).state ≠ .failed →
    CarriesOnly P (s.rows i).message
  iris : ∀ job, o = some job → ∀ x ∈ job.asked, AnswersOnly P x

theorem carried_stable (hguard : ∀ s job x, guard s job (.exchange i x) → AnswersOnly P x) :
    (service sdk deps).Stable i guard
      (fun s o => True ∧ Running sdk deps i s o ∧ Truthful t₀ i s o) (Carried P i) where
  start s call h := by
    refine ⟨h.row, ?_⟩
    rintro job ⟨rfl⟩ x ⟨⟩
  exchange s job x s' _ h _ hrespond hx := by
    refine ⟨by rw [hrespond.1]; exact h.row, ?_⟩
    rintro _ ⟨rfl⟩ y hy
    rcases List.mem_append.mp hy with hy | hy
    · exact h.iris job rfl y hy
    · rw [List.mem_singleton.mp hy]
      exact hguard s job x hx
  settle s job out hbase h htrace _ := by
    refine ⟨?_, nofun⟩
    cases out with
    | error => exact h.row
    | ok t' =>
        rw [settle_rows_ok]
        have hrun := hbase.2.1
        intro hundelivered hunfailed
        have hne : (s.rows i).state ≠ .delivered := fun hstate =>
          hundelivered (hrun.delivered hstate htrace)
        rw [(hrun job rfl).1] at htrace
        cases hcall : job.call with
        | poll =>
            rw [hcall] at htrace
            rcases poll_trace htrace with ⟨error, hout, _⟩ | ⟨u, hout, hpolled⟩
            · cases hout
            · cases hout
              have hiris := h.iris job rfl
              generalize job.asked = asked at hiris hpolled
              cases hpolled with
              | minted _ _ _ hstate => exact absurd hstate hundelivered
              | delivered _ hstate => exact absurd hstate hne
              | waited iris _ hwaited =>
                  cases hwaited with
                  | same _ hstate hmessage =>
                      rw [hmessage]
                      exact h.row hne (hstate ▸ hunfailed)
                  | attested _ _ _ hmessage =>
                      rw [hmessage]
                      exact hiris _ List.mem_cons_self _ _ _ _ rfl
                  | failed _ _ hstate => exact absurd hstate hunfailed
        | deliver =>
            rw [hcall] at htrace
            rcases (deliver_trace htrace).ends with ⟨hstate, _⟩ | ⟨hstate, _⟩
            · exact absurd hstate hunfailed
            · exact absurd hstate hundelivered
  others_exchange j s o x s' h _ hrespond := by
    refine ⟨by rw [hrespond.1]; exact h.row, h.iris⟩
  others_settle j s o call out h hne := by
    refine ⟨by rw [settle_rows_ne hne]; exact h.row, h.iris⟩
  outside s o s' h houtside := by
    refine ⟨by rw [houtside.1]; exact h.row, h.iris⟩

/-! ## Every deposit is backed -/

/-- The exchanges of the attempt under way, if there is one. -/
def askedBy (o : Option Delivering) : List Asked := o.elim [] Job.asked

/-- A deposit of the amount of a message of the row, whose nonce is consumed. -/
def Backed (P : Bytes → Prop) (nonce : Text) (s : Ledger ι) (assets : Int) : Prop :=
  ∃ message, P message ∧ nonce = bytesToHex (messageNonce message) ∧
    assets = 10 * messageAmount message ∧ s.Used (messageNonce message)

/-- The deposits of a row. `Q` is what is known of a message as its deposit is submitted. -/
structure Deposited (P Q : Bytes → Prop) (t₀ : CctpTransfer) (i : ι) (s : State ι)
    (o : Option Delivering) : Prop where
  undelivered : (s.rows i).state ≠ .delivered →
    falsy (s.rows i).depositTxHash = true ∧ s.ledger.depositsFor i = landedDeposits (askedBy o)
  once : (s.ledger.depositsFor i).length ≤ 1
  backed : ∀ assets ∈ s.ledger.depositsFor i, Backed (fun m => P m ∧ Q m) t₀.nonce s.ledger assets

omit [DecidableEq ι] in
theorem Backed.mono {l l' : Ledger ι} {nonce : Text} {assets : Int}
    (hgrows : ∀ bytes, l.Used bytes → l'.Used bytes) (h : Backed P nonce l assets) :
    Backed P nonce l' assets := by
  rcases h with ⟨message, hP, hnonce, hassets, hused⟩
  exact ⟨message, hP, hnonce, hassets, hgrows _ hused⟩

omit [DecidableEq ι] in
/-- The deposit of a delivery is backed as it is submitted. -/
theorem Planned.backed {plan : DeliveryPlan} {job : Delivering}
    (hplan : Planned sdk deps (s.rows i) plan) (htruth : Truthful t₀ i s (some job))
    (hcarried : Carried P i s (some job)) (hdeposit : CarriesOnly Q (s.rows i).message)
    (hseen : ⟨.isNonceUsed plan.nonce, .ok true⟩ ∈ job.asked ∨
      ∃ txHash, ⟨mintAsk deps plan, .ok txHash⟩ ∈ job.asked) :
    Backed (fun m => P m ∧ Q m) t₀.nonce s.ledger plan.amount7 := by
  rcases hplan.planned with ⟨hex, attestation, hmessage, hreads⟩
  have hreads := planDelivery_reads hreads
  have hcarry : CarriesOnly P (s.rows i).message :=
    hcarried.row (by rw [hplan.attested]; decide) (by rw [hplan.attested]; decide)
  refine ⟨plan.mintMessage, ⟨hcarry hex _ hmessage hreads.message,
    hdeposit hex _ hmessage hreads.message⟩, ?_, hreads.amount, ?_⟩
  · rw [← htruth.key.nonce, ← hplan.nonce, hreads.nonce]
  · rcases hseen with hmem | ⟨txHash, hmem⟩
    · rcases (htruth.seen job rfl _ hmem).used _ rfl with ⟨bytes, hbytes, hused⟩
      rw [hreads.nonce, hexToBytes_bytesToHex] at hbytes
      cases hbytes
      exact hused
    · exact (htruth.seen job rfl _ hmem).minted _ _ _ _ rfl

omit [DecidableEq ι] in
/-- Only a delivery of an attested row deposits, once. -/
theorem Running.deposits {job : Delivering} {x : Asked} {assets : Int}
    (hrun : Running sdk deps i s (some job)) (hawaits : job.program.Awaits job.asked x.1)
    (hx : landedDeposit x = some assets) :
    landedDeposits job.asked = [] ∧ ∃ plan, Planned sdk deps (s.rows i) plan ∧
      assets = plan.amount7 ∧
      (⟨.isNonceUsed plan.nonce, .ok true⟩ ∈ job.asked ∨
        ∃ txHash, ⟨mintAsk deps plan, .ok txHash⟩ ∈ job.asked) := by
  rcases hrun.extend hawaits with ⟨more, out, htrace⟩
  have hlanded : landedDeposits (job.asked ++ x :: more) =
      landedDeposits job.asked ++ assets :: landedDeposits more := by
    simp [landedDeposits, List.filterMap_append, hx]
  cases hcall : job.call with
  | poll =>
      rw [hcall] at htrace
      rw [poll_lands_nothing htrace] at hlanded
      simp at hlanded
  | deliver =>
      rw [hcall] at htrace
      have hdeliver := deliver_trace htrace
      rcases hdeliver.deposit_after hx with ⟨plan, hplan, _, hassets, hseen⟩
      refine ⟨?_, plan, hplan, hassets, hseen⟩
      have hone := hdeliver.landed_le_one
      rw [hlanded, List.length_append, List.length_cons] at hone
      exact List.length_eq_zero_iff.mp (by omega)

/-- The step lemma: an exchange lands at most the deposit of an attested row. -/
theorem Deposited.exchange {job : Delivering} {x : Asked}
    (hrun : Running sdk deps i s (some job)) (htruth : Truthful t₀ i s (some job))
    (hcarried : Carried P i s (some job)) (h : Deposited P Q t₀ i s (some job))
    (hawaits : job.program.Awaits job.asked x.1)
    (hrespond : (service sdk deps).respond i s x s')
    (hdeposit : landedDeposit x ≠ none → CarriesOnly Q (s.rows i).message) :
    Deposited P Q t₀ i s' (some ⟨job.call, job.program, job.asked ++ [x]⟩) := by
  rcases hrespond with ⟨hrows, hledger⟩
  have hfor := hledger.depositsFor
  have hold : ∀ assets ∈ s.ledger.depositsFor i,
      Backed (fun m => P m ∧ Q m) t₀.nonce s'.ledger assets :=
    fun assets hmem => (h.backed assets hmem).mono fun _ => hledger.used
  refine ⟨fun hne => ?_, ?_, ?_⟩
  · rw [hrows] at hne ⊢
    refine ⟨(h.undelivered hne).1, ?_⟩
    rw [hfor, (h.undelivered hne).2]
    simp only [askedBy, Option.elim_some, landedDeposits, List.filterMap_append]
    cases hx : landedDeposit x <;> simp [hx]
  · cases hx : landedDeposit x with
    | none =>
        rw [hfor, hx, Option.toList_none, List.append_nil]
        exact h.once
    | some assets =>
        rcases hrun.deposits hawaits hx with ⟨hnone, plan, hplan, _⟩
        have hne : (s.rows i).state ≠ .delivered := by
          rw [hplan.attested]
          decide
        rw [hfor, hx, (h.undelivered hne).2]
        simp only [askedBy, Option.elim_some, hnone]
        simp
  · intro assets hmem
    rw [hfor] at hmem
    rcases List.mem_append.mp hmem with hmem | hmem
    · exact hold assets hmem
    · rw [Option.mem_toList] at hmem
      rcases hrun.deposits hawaits hmem with ⟨_, plan, hplan, rfl, hseen⟩
      exact (hplan.backed htruth hcarried (hdeposit (by simp [hmem])) hseen).mono
        fun _ => hledger.used

omit [DecidableEq ι] in
/-- What an attempt on an undelivered row recorded, if it did not deliver the row. -/
theorem Running.keeps {job : Delivering} {t' : CctpTransfer}
    (hrun : Running sdk deps i s (some job))
    (hne : (s.rows i).state ≠ .delivered) (htrace : job.program.Trace job.asked (.ok t'))
    (hundelivered : t'.state ≠ .delivered) :
    (s.rows i).Kept t' ∧ landedDeposits job.asked = [] := by
  rw [(hrun job rfl).1] at htrace
  cases hcall : job.call with
  | poll =>
      rw [hcall] at htrace
      refine ⟨?_, poll_lands_nothing htrace⟩
      rcases poll_trace htrace with ⟨error, hout, _⟩ | ⟨u, hout, hpolled⟩
      · cases hout
      · cases hout
        generalize job.asked = asked at hpolled
        cases hpolled with
        | minted _ _ _ hstate => exact absurd hstate hundelivered
        | delivered _ hstate => exact absurd hstate hne
        | waited iris _ hwaited =>
            cases hwaited with
            | same hkept | attested hkept | failed hkept => exact hkept
  | deliver =>
      rw [hcall] at htrace
      rcases (deliver_trace htrace).ends with ⟨_, hkept, hlanded⟩ | ⟨hstate, _⟩
      · exact ⟨hkept, hlanded⟩
      · exact absurd hstate hundelivered

omit [DecidableEq ι] in
/-- An attempt that throws has landed no deposit. -/
theorem Running.lands_nothing {job : Delivering} {error : JsError}
    (hrun : Running sdk deps i s (some job)) (htrace : job.program.Trace job.asked (.error error)) :
    landedDeposits job.asked = [] := by
  rw [(hrun job rfl).1] at htrace
  cases hcall : job.call with
  | poll =>
      rw [hcall] at htrace
      exact poll_lands_nothing htrace
  | deliver =>
      rw [hcall] at htrace
      exact (deliver_trace htrace).throws.1

theorem deposited_stable (hguard : ∀ s job x, guard s job (.exchange i x) → landedDeposit x ≠ none →
      CarriesOnly Q (s.rows i).message) :
    (service sdk deps).Stable i guard
      (fun s o => True ∧ (Running sdk deps i s o ∧ Truthful t₀ i s o) ∧ Carried P i s o)
      (Deposited P Q t₀ i) where
  start s call h := ⟨h.undelivered, h.once, h.backed⟩
  exchange s job x s' hbase h hawaits hrespond hadmitted :=
    h.exchange hbase.2.1.1 hbase.2.1.2 hbase.2.2 hawaits hrespond (hguard s job x hadmitted)
  settle s job out hbase h htrace _ := by
    have hrun := hbase.2.1.1
    cases out with
    | error error =>
        refine ⟨fun hne => ?_, h.once, h.backed⟩
        have hasked : s.ledger.depositsFor i = landedDeposits job.asked := (h.undelivered hne).2
        exact ⟨(h.undelivered hne).1, by rw [settle_error, hasked, hrun.lands_nothing htrace]; rfl⟩
    | ok t' =>
        refine ⟨fun hundelivered => ?_, h.once, h.backed⟩
        rw [settle_rows_ok] at hundelivered ⊢
        have hne : (s.rows i).state ≠ .delivered := fun hstate =>
          hundelivered (hrun.delivered hstate htrace)
        rcases hrun.keeps hne htrace hundelivered with ⟨hkept, hlanded⟩
        have hasked : s.ledger.depositsFor i = landedDeposits job.asked := (h.undelivered hne).2
        refine ⟨?_, by rw [settle_ledger, hasked, hlanded]; rfl⟩
        rw [hkept.depositTxHash]
        exact (h.undelivered hne).1
  others_exchange j s o x s' h hne hrespond := by
    rcases hrespond with ⟨hrows, hledger⟩
    have hfor := hledger.depositsFor_other hne
    refine ⟨?_, by rw [hfor]; exact h.once, ?_⟩
    · rw [hrows, hfor]
      exact h.undelivered
    · intro assets hmem
      rw [hfor] at hmem
      exact (h.backed assets hmem).mono fun _ => hledger.used
  others_settle j s o call out h hne := by
    refine ⟨?_, by rw [settle_ledger]; exact h.once, by rw [settle_ledger]; exact h.backed⟩
    rw [settle_rows_ne hne, settle_ledger]
    exact h.undelivered
  outside s o s' h houtside := by
    rcases houtside with ⟨hrows, message, _, hledger⟩
    have hfor : s'.ledger.depositsFor i = s.ledger.depositsFor i := by
      rw [hledger]
      rfl
    refine ⟨?_, by rw [hfor]; exact h.once, ?_⟩
    · rw [hrows, hfor]
      exact h.undelivered
    · intro assets hmem
      rw [hfor] at hmem
      refine (h.backed assets hmem).mono fun bytes hused => ?_
      rw [hledger]
      exact hused.mint message

variable (sdk deps) in
/-- What holds of a row in every run whose Iris answers with messages in `P` and whose
deposits are for messages in `Q`. -/
def Standing (P Q : Bytes → Prop) (t₀ : CctpTransfer) (i : ι) (s : State ι)
    (o : Option Delivering) :
    Prop :=
  ((Running sdk deps i s o ∧ Truthful t₀ i s o) ∧ Carried P i s o) ∧ Deposited P Q t₀ i s o

theorem standing_stable (hiris : ∀ s job x, guard s job (.exchange i x) → AnswersOnly P x)
    (hdeposit : ∀ s job x, guard s job (.exchange i x) → landedDeposit x ≠ none →
      CarriesOnly Q (s.rows i).message) :
    (service sdk deps).Stable i guard (fun _ _ => True) (Standing sdk deps P Q t₀ i) :=
  ((running_stable.layer (truthful_stable t₀)).layer (carried_stable hiris)).layer
    (deposited_stable hdeposit)

/-- A row before its first attempt. -/
structure Fresh (i : ι) (w : World ι) : Prop where
  idle : w.jobs i = none
  undelivered : (w.shared.rows i).state ≠ .delivered
  unrecorded : falsy (w.shared.rows i).depositTxHash = true
  undeposited : w.shared.ledger.depositsFor i = []

theorem Fresh.standing {w : World ι} (h : Fresh i w)
    (hcarry : CarriesOnly P (w.shared.rows i).message) :
    Standing sdk deps P Q (w.shared.rows i) i w.shared (w.jobs i) := by
  rw [h.idle]
  refine ⟨⟨⟨nofun, .refl _, fun hstate => absurd hstate h.undelivered, nofun⟩,
    fun _ _ => hcarry, nofun⟩, fun _ => ⟨h.unrecorded, h.undeposited⟩, ?_, ?_⟩
  · simp [h.undeposited]
  · simp [h.undeposited]

/-! ## Delivered with the deposit -/

/-- A poll that was told the nonce is consumed returns, for a row that is not delivered. -/
def CutShort (i : ι) (s : State ι) (job : Delivering) (event : DeliveryEvent ι) : Prop :=
  ∃ out nonce, event = .settle i out ∧ job.call = .poll ∧ (s.rows i).state ≠ .delivered ∧
    ⟨.isNonceUsed nonce, .ok true⟩ ∈ job.asked

/-- The row is not the beneficiary's own, and its message pays the relayer. -/
structure VaultMode (sdk : Sdk) (deps : CctpExecutorDeps) (i : ι) (w : World ι)
    (events : List (DeliveryEvent ι)) : Prop where
  beneficiary : deps.relayerAddress ≠ (w.shared.rows i).beneficiary
  row : CarriesOnly (ForRelayer sdk deps) (w.shared.rows i).message
  iris : ∀ x, .exchange i x ∈ events → AnswersOnly (ForRelayer sdk deps) x

/-- If the row is delivered, exactly one deposit for it has landed. -/
def DepositedOnce (i : ι) (w : World ι) : Prop :=
  (w.shared.rows i).state = .delivered → (w.shared.ledger.depositsFor i).length = 1

theorem Planned.vault {t : CctpTransfer} {plan : DeliveryPlan} (hplan : Planned sdk deps t plan)
    (hcarry : CarriesOnly (ForRelayer sdk deps) t.message)
    (hne : deps.relayerAddress ≠ t.beneficiary) :
    ¬ plan.Direct t := by
  rcases hplan.planned with ⟨hex, attestation, hmessage, hreads⟩
  have hreads := planDelivery_reads hreads
  have hrelayer : messageRecipient sdk plan.mintMessage = .ok deps.relayerAddress :=
    hcarry hex _ hmessage hreads.message
  rw [hreads.recipient] at hrelayer
  intro hdirect
  exact hne ((Except.ok.inj hrelayer).symm.trans hdirect)

/-- A vault-mode delivery that delivers has landed its deposit. -/
theorem Standing.delivers {job : Delivering} {t' : CctpTransfer}
    (h : Standing sdk deps (ForRelayer sdk deps) Q t₀ i s (some job))
    (hne : deps.relayerAddress ≠ t₀.beneficiary) (hcall : job.call = .deliver)
    (htrace : job.program.Trace job.asked (.ok t')) (hstate : t'.state = .delivered) :
    s.ledger.depositsFor i ≠ [] := by
  rcases h with ⟨⟨⟨hrun, htruth⟩, hcarried⟩, hdeposited⟩
  rw [(hrun job rfl).1, hcall] at htrace
  have hdeliver := deliver_trace htrace
  have hattested := hdeliver.attested
  have hundelivered := hdeposited.undelivered (by rw [hattested]; decide)
  rw [hundelivered.2]
  rcases hdeliver.ends with ⟨hfailed, _⟩ | ⟨_, _, _, hlanded⟩
  · rw [hstate] at hfailed
    cases hfailed
  · refine hlanded (fun plan hplan => ?_) hundelivered.1
    refine hplan.vault (hcarried.row ?_ ?_) (by rw [htruth.key.beneficiary]; exact hne)
    · rw [hattested]
      decide
    · rw [hattested]
      decide

/-- A row is delivered with its deposit, as long as no poll is told first. -/
theorem completed_stable
    (hne : deps.relayerAddress ≠ t₀.beneficiary)
    (hguard : ∀ s job out, guard s job (.settle i out) → ¬ CutShort i s job (.settle i out)) :
    (service sdk deps).Stable i guard
      (fun s o => True ∧ Standing sdk deps (ForRelayer sdk deps) Q t₀ i s o)
      fun s _ => (s.rows i).state = .delivered → s.ledger.depositsFor i ≠ [] where
  start s call h := h
  exchange s job x s' _ h _ hrespond _ := by
    rcases hrespond with ⟨hrows, hledger⟩
    rw [hrows, hledger.depositsFor]
    intro hstate
    simp [h hstate]
  settle s job out hbase h htrace hadmitted := by
    cases out with
    | error error => exact h
    | ok t' =>
        rw [settle_rows_ok, settle_ledger]
        intro hstate
        cases hcall : job.call with
        | deliver => exact hbase.2.delivers hne hcall htrace hstate
        | poll =>
            have huncut := hguard s job _ hadmitted
            rw [(hbase.2.1.1.1 job rfl).1, hcall] at htrace
            rcases poll_trace htrace with ⟨error, hout, _⟩ | ⟨u, hout, hpolled⟩
            · cases hout
            · cases hout
              generalize hasked : job.asked = asked at hpolled
              cases hpolled with
              | minted iris _ hundelivered =>
                  exact absurd ⟨_, (s.rows i).nonce, rfl, hcall, hundelivered,
                    by simp [hasked]⟩ huncut
              | delivered _ hdelivered => exact h hdelivered
              | waited iris _ hwaited =>
                  cases hwaited with
                  | same _ hsame => exact h (hsame ▸ hstate)
                  | attested _ _ hattested =>
                      rw [hattested] at hstate
                      cases hstate
                  | failed _ _ hfailed =>
                      rw [hfailed] at hstate
                      cases hstate
  others_exchange j s o x s' h hji hrespond := by
    rcases hrespond with ⟨hrows, hledger⟩
    rw [hrows, hledger.depositsFor_other hji]
    exact h
  others_settle j s o call out h hji := by
    rw [settle_rows_ne hji, settle_ledger]
    exact h
  outside s o s' h houtside := by
    rcases houtside with ⟨hrows, message, _, hledger⟩
    rw [hrows, hledger]
    exact h

/-- A vault-mode row is delivered with exactly one deposit, along the whole run, if and
only if no poll is told of the consumed nonce before the row is delivered. -/
theorem deposited_once_iff {w : World ι} {events : List (DeliveryEvent ι)} (hfresh : Fresh i w)
    (hvault : VaultMode sdk deps i w events) :
    (∀ k v event v', StepAt (service sdk deps).Step w events k v event v' → DepositedOnce i v') ↔
      ∀ k v event v', StepAt (service sdk deps).Step w events k v event v' →
        ∀ job, v.jobs i = some job → ¬ CutShort i v.shared job event := by
  have hstart : Standing sdk deps (ForRelayer sdk deps) (fun _ => True) (w.shared.rows i) i w.shared
      (w.jobs i) := hfresh.standing hvault.row
  have hiris : ∀ k v event v', StepAt (service sdk deps).Step w events k v event v' →
      ∀ x, event = .exchange i x → AnswersOnly (ForRelayer sdk deps) x := by
    rintro k v event v' hat x rfl
    exact hvault.iris x (List.mem_of_getElem? hat.found)
  constructor
  · rintro hall k v event v' hat job hjob ⟨out, nonce, rfl, hcall, hne, hmem⟩
    have hstable : (service sdk deps).Stable i
        (fun _ _ event => ∀ x, event = .exchange i x → AnswersOnly (ForRelayer sdk deps) x)
        (fun _ _ => True)
        (Standing sdk deps (ForRelayer sdk deps) (fun _ => True) (w.shared.rows i) i) :=
      standing_stable (fun _ _ x h => h x rfl) fun _ _ _ _ _ _ _ _ _ => trivial
    have hstanding := (hstable.at (fun k v event v' hat _ _ => hiris k v event v' hat) hstart hat).1
    have honce := hall k v _ v' hat
    cases hat.taken with
    | settle hjob' htrace =>
        rw [hjob] at hjob' hstanding
        cases hjob'
        rcases hstanding with ⟨⟨⟨hrun, _⟩, _⟩, hdeposited⟩
        rw [(hrun job rfl).1, hcall] at htrace
        have hasked : v.shared.ledger.depositsFor i = landedDeposits job.asked :=
          (hdeposited.undelivered hne).2
        rw [poll_lands_nothing htrace] at hasked
        -- the row goes to delivered with no deposit
        rcases poll_trace htrace with ⟨_, _, _, hunseen, _⟩ | ⟨t', rfl, hpolled⟩
        · exact hunseen nonce hmem
        · generalize job.asked = asked at hmem hpolled
          cases hpolled with
          | minted _ _ _ hstate =>
              simp only [DepositedOnce, settle_rows_ok, settle_ledger, hstate, hasked] at honce
              simp at honce
          | delivered _ hdelivered => exact hne hdelivered
          | waited => simp at hmem
  · intro huncut k v event v' hat hstate
    have hstable : (service sdk deps).Stable i (fun s job event => (∀ x, event = .exchange i x →
          AnswersOnly (ForRelayer sdk deps) x) ∧ ¬ CutShort i s job event) (fun _ _ => True)
        fun s o => Standing sdk deps (ForRelayer sdk deps) (fun _ => True) (w.shared.rows i) i s o ∧
          ((s.rows i).state = .delivered → s.ledger.depositsFor i ≠ []) :=
      (standing_stable (fun _ _ x h => h.1 x rfl) fun _ _ _ _ _ _ _ _ _ => trivial).layer
        (completed_stable hvault.beneficiary fun _ _ _ h => h.2)
    have hguard : ∀ k v event v', StepAt (service sdk deps).Step w events k v event v' →
        Service.Admits i (fun s job event => (∀ x, event = .exchange i x →
          AnswersOnly (ForRelayer sdk deps) x) ∧ ¬ CutShort i s job event) v event :=
      fun k v event v' hat job hjob => ⟨hiris k v event v' hat, huncut k v event v' hat job hjob⟩
    rcases (hstable.at hguard ⟨hstart, fun hstate => absurd hstate hfresh.undelivered⟩ hat).2 with
      ⟨hstanding, hdelivered⟩
    have honce := hstanding.2.once
    have hpos := List.length_pos_iff.mpr (hdelivered hstate)
    omega

end Deposits

/-! ### A crash between the mint and the deposit -/

/-- The test row once Iris has answered with its message. -/
def attestedRow (message : Bytes) : CctpTransfer :=
  { testRow with
    state := .attested
    attestation := some testAttestation
    message := some (bytesToHex message) }

def firstPoll (message : Bytes) : List Asked :=
  [⟨.getAttestation 6 testRow.burnTxHash,
    .ok (.complete testAttestation (some (bytesToHex message)))⟩,
    ⟨.isNonceUsed testRow.nonce, .ok false⟩]

theorem firstPoll_answersOnly {P : Bytes → Prop} {message : Bytes} (h : P message) :
    ∀ x ∈ firstPoll message, AnswersOnly P x := by
  intro x hx
  rcases List.mem_cons.mp hx with rfl | hx
  · intro _ _ _ _ hcomplete hex bytes hmessage hbytes
    cases hcomplete
    cases hmessage
    rw [hexToBytes_bytesToHex] at hbytes
    cases hbytes
    exact h
  · rw [List.mem_singleton.mp hx]
    exact answersOnly_isNonceUsed _ _

def mintExchange (message : Bytes) : Asked :=
  ⟨.submit testDeps.config.cctpForwarder (.mintAndForward message (List.replicate 65 0xcd)),
    .ok "tx-1".toList⟩

def depositExchange (r : Except JsError Text) : Asked :=
  ⟨.submit testDeps.vaultContractId (.depositFrom testRelayer testBeneficiary 50000000), r⟩

theorem testNonce_unused {relayer : Int} :
    ¬ (⟨[], [], relayer⟩ : Ledger Unit).Consumed testRow.nonce := by
  rintro ⟨_, _, m, hm, _⟩
  cases hm

/-- The first poll attests the row. -/
theorem run_firstPoll {sdk : Sdk} {message : Bytes} {relayer : Int}
    (hreplay : (poll testRow).replay (firstPoll message) = some (.ok (attestedRow message))) :
    Run (service sdk testDeps).Step (rowWorld testRow ⟨[], [], relayer⟩)
      (attemptEvents .poll (firstPoll message) (.ok (attestedRow message)))
      (rowWorld (attestedRow message) ⟨[], [], relayer⟩) :=
  run_attempt (Async.trace_of_replay hreplay) (((Run.nil _).snoc (.attestation _ _ _)).snoc
    (.nonce _ _ testNonce_read (iff_of_false (by decide) testNonce_unused)))

def vaultMessage : Bytes := buildTestMessage testRelayer 5000000 0 0

/-- The deposit times out after the mint landed; the next poll finds the nonce consumed. -/
def depositError : JsError := ⟨.rejected, "tx timeout"⟩

def crashedDelivery : List Asked :=
  [⟨.isNonceUsed testRow.nonce, .ok false⟩, mintExchange vaultMessage,
    depositExchange (.error depositError)]

def secondPoll : List Asked :=
  [⟨.getAttestation 6 testRow.burnTxHash, .ok .pending⟩, ⟨.isNonceUsed testRow.nonce, .ok true⟩]

def crashEvents : List (DeliveryEvent Unit) :=
  attemptEvents .poll (firstPoll vaultMessage) (.ok (attestedRow vaultMessage)) ++
    attemptEvents .deliver crashedDelivery (.error depositError) ++
    attemptEvents .poll secondPoll (.ok { attestedRow vaultMessage with state := .delivered })

def crashedWorld : World Unit :=
  rowWorld { attestedRow vaultMessage with state := .delivered } ⟨[vaultMessage], [], 50000000⟩

theorem vaultMessage_lands : (⟨[], [], 0⟩ : Ledger Unit).mint testSdk testDeps vaultMessage =
    ⟨[vaultMessage], [], 50000000⟩ := by
  have hcredited : credited vaultMessage = 50000000 := by decide +kernel
  have hrelayer : ForRelayer testSdk testDeps vaultMessage := by decide +kernel
  simp only [Ledger.mint, hcredited, if_pos hrelayer]
  rfl

theorem crash_run :
    Run (service testSdk testDeps).Step (testWorld []) crashEvents crashedWorld := by
  have hused : crashedWorld.shared.ledger.Consumed testRow.nonce :=
    ⟨testNonce, hexToBytes_bytesToHex _, vaultMessage, List.mem_singleton.mpr rfl, by decide⟩
  have hmint : Responds testSdk testDeps () ⟨[], [], 0⟩ (mintExchange vaultMessage)
      crashedWorld.shared.ledger := by
    rw [show crashedWorld.shared.ledger = _ from vaultMessage_lands.symm]
    exact .mint vaultMessage _ _ (by rintro ⟨_, ⟨⟩, _⟩)
  have hdeliver : Run (service testSdk testDeps).Step
      (rowWorld (attestedRow vaultMessage) ⟨[], [], 0⟩)
      (attemptEvents .deliver crashedDelivery (.error depositError))
      (rowWorld (attestedRow vaultMessage) crashedWorld.shared.ledger) :=
    run_attempt (Async.trace_of_replay (by decide +kernel))
      ((((Run.nil _).snoc
        (.nonce _ _ testNonce_read (iff_of_false (by decide) testNonce_unused))).snoc
        hmint).snoc (.rejected _ _))
  have hrepoll : Run (service testSdk testDeps).Step
      (rowWorld (attestedRow vaultMessage) crashedWorld.shared.ledger)
      (attemptEvents .poll secondPoll (.ok { attestedRow vaultMessage with state := .delivered }))
      crashedWorld :=
    run_attempt (Async.trace_of_replay (by decide +kernel))
      (((Run.nil _).snoc (.attestation _ _ _)).snoc
      (.nonce _ _ testNonce_read (iff_of_true rfl hused)))
  exact ((run_firstPoll (by decide +kernel)).append hdeliver).append hrepoll

theorem crash_fresh : Fresh () (testWorld []) :=
  ⟨rfl, nofun, rfl, rfl⟩

theorem crash_vaultMode : VaultMode testSdk testDeps () (testWorld []) crashEvents := by
  refine ⟨by decide, fun _ _ hmessage => (by cases hmessage), fun x hx => ?_⟩
  have hmem : x ∈ firstPoll vaultMessage ∨ x ∈ crashedDelivery ∨ x ∈ secondPoll := by
    simpa [crashEvents, attemptEvents, or_assoc] using hx
  rcases hmem with hmem | hmem | hmem
  · exact firstPoll_answersOnly (by decide +kernel) x hmem
  · simp only [crashedDelivery, mintExchange, depositExchange, List.mem_cons, List.not_mem_nil,
      or_false] at hmem
    rcases hmem with rfl | rfl | rfl
    · exact answersOnly_isNonceUsed _ _
    · exact answersOnly_submit _ _ _
    · exact answersOnly_submit _ _ _
  · simp only [secondPoll, List.mem_cons, List.not_mem_nil, or_false] at hmem
    rcases hmem with rfl | rfl
    · exact answersOnly_pending _ _
    · exact answersOnly_isNonceUsed _ _

/-- A vault-mode row ends delivered with no deposit. -/
theorem crash_deposit_lost :
    Fresh () (testWorld []) ∧ VaultMode testSdk testDeps () (testWorld []) crashEvents ∧
      Run (service testSdk testDeps).Step (testWorld []) crashEvents crashedWorld ∧
      (crashedWorld.shared.rows ()).state = .delivered ∧
      crashedWorld.shared.ledger.depositsFor () = [] :=
  ⟨crash_fresh, crash_vaultMode, crash_run, rfl, rfl⟩

/-- In that run a poll was cut short. -/
theorem deposited_once_iff_crash :
    ∃ k v event v', StepAt (service testSdk testDeps).Step (testWorld []) crashEvents k v event v' ∧
      ∃ job, v.jobs () = some job ∧ CutShort () v.shared job event := by
  by_contra hnone
  have hall := (deposited_once_iff crash_fresh crash_vaultMode).mpr
    fun k v event v' hat job hjob hcut => hnone ⟨k, v, event, v', hat, job, hjob, hcut⟩
  have hsplit : crashEvents = crashEvents.dropLast ++
      [.settle () (.ok { attestedRow vaultMessage with state := .delivered })] := rfl
  have hrun := crash_run
  rw [hsplit] at hrun hall
  rcases hrun.snoc_inv with ⟨v, before, hstep⟩
  have honce := hall _ _ _ _ (StepAt.concat before hstep)
  cases honce rfl

end Lendoor.Cctp
