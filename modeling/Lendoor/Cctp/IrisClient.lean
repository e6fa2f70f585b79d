import Lendoor.Cctp.Deposits

/-! # The attestation client

What Iris answers for a burn transaction, and which of its messages the client takes for
the row. The client knows the transaction only; the nonce is checked when the row is
delivered, and a wrong one there is terminal.
-/

namespace Lendoor.Cctp

open Async (call lift)

structure IrisV2Message where
  status : Option String
  attestation : Option Text
  message : Option Text
  eventNonce : Option Text
  deriving DecidableEq, Repr

structure IrisBody where
  messages : Option (List IrisV2Message)
  error : Option String
  deriving DecidableEq, Repr

/-- A response with its body, if that is JSON. -/
structure IrisResponse where
  status : Nat
  retryAfterSeconds : Option Nat
  body : Option IrisBody
  deriving DecidableEq, Repr

/-- `toUpperCase` on the letters that can make up the sentinel: ASCII, and the one other
letter whose capital is in it. -/
def toUpperCase (c : Char) : Char := if c = 'ı' then 'I' else c.toUpper

/-- A text that is an attestation: not empty, and not the sentinel. -/
def isAttestation : Option Text → Bool
  | some att => !att.isEmpty && att.map toUpperCase ≠ "PENDING".toList
  | none => false

/-- The message the client passes on, as the mapping sees it. -/
structure FlatMessage where
  attestation : Option Text := none
  status : Option String := none
  error : Option String := none
  message : Option Text := none

/-- The meaning of a response: 200 is not complete by itself, and a failure of the
infrastructure is never terminal. -/
def irisStatusFromHttp (httpStatus : Nat) (body : FlatMessage) (retryAfterSeconds : Option Nat) :
    IrisAttestationStatus :=
  if httpStatus = 200 then
    if (body.status = none ∨ body.status = some "complete") ∧
      isAttestation body.attestation = true then
      .complete (body.attestation.getD []) body.message
    else .pending
  else if httpStatus = 404 then .pending
  else if httpStatus = 429 then .backoff (retryAfterSeconds.getD 5 * 1000)
  else if httpStatus = 401 ∨ httpStatus = 403 then .backoff 60000
  else if 500 ≤ httpStatus then .pending
  else
    match body.error with
    | some error => if httpStatus = 400 ∧ error ≠ "" then .error error else .backoff 30000
    | none => .backoff 30000

def IrisV2Message.Ready (m : IrisV2Message) : Bool :=
  m.status = some "complete" && isAttestation m.attestation

def IrisResponse.messages (res : IrisResponse) : List IrisV2Message :=
  (res.body.bind IrisBody.messages).getD []

/-- The first message that is ready, or else the first of all. A request that throws backs
off. -/
def getAttestation : Option IrisResponse → IrisAttestationStatus
  | none => .backoff 15000
  | some res =>
      let error := res.body.bind IrisBody.error
      let flat := (res.messages.find? IrisV2Message.Ready).orElse fun _ => res.messages.head?
      irisStatusFromHttp res.status
        (match flat with
          | some m => ⟨m.attestation, m.status, error, m.message⟩
          | none => { error := error })
        res.retryAfterSeconds

/-- The client passes a ready message on as it is. -/
theorem getAttestation_ready {res : IrisResponse} {m : IrisV2Message} (hstatus : res.status = 200)
    (hfirst : res.messages.find? IrisV2Message.Ready = some m) :
    ∃ att, m.attestation = some att ∧ att ≠ [] ∧
      getAttestation (some res) = .complete att m.message := by
  have hready := List.find?_some hfirst
  simp only [IrisV2Message.Ready, Bool.and_eq_true, decide_eq_true_eq] at hready
  rcases hready with ⟨hcomplete, hattestation⟩
  cases hatt : m.attestation with
  | none => simp [isAttestation, hatt] at hattestation
  | some att =>
      refine ⟨att, rfl, ?_, ?_⟩
      · rintro rfl
        simp [isAttestation, hatt] at hattestation
      · rw [hatt] at hattestation
        simp [getAttestation, hfirst, irisStatusFromHttp, hstatus, hcomplete, hatt, hattestation]

/-! ## One poll and one delivery -/

variable (sdk : Sdk) (deps : CctpExecutorDeps)

/-- A message the row can be delivered with: it plans, its nonce is the row's, and it pays
the beneficiary or the relayer. -/
def Deliverable (t : CctpTransfer) (m : IrisV2Message) (plan : DeliveryPlan) : Prop :=
  ∃ message attestation, m.message = some message ∧ message ≠ [] ∧
    m.attestation = some attestation ∧
    planDelivery sdk message attestation deps.config = .ok plan ∧ plan.nonce = t.nonce ∧
    (plan.Direct t ∨ plan.forwardRecipient = deps.relayerAddress)

/-- What is answered on the way: Iris with this response, the oracle that the nonce is
free, the network with a transaction. -/
def Answered (res : IrisResponse) : Asked → Prop
  | ⟨.getAttestation _ _, r⟩ => r = .ok (getAttestation (some res))
  | ⟨.isNonceUsed _, r⟩ => r = .ok false
  | ⟨.submit _ _, r⟩ => ∃ txHash, r = .ok txHash

/-- One polling step, and the delivery of the row it persists. -/
def pollAndDeliver (t : CctpTransfer) : Program CctpTransfer := poll t >>= deliver sdk deps

/-- The row does not end in `failed`, and its own message was submitted. -/
def OwnDelivered (res : IrisResponse) (t : CctpTransfer) (trace : List Asked)
    (out : Except JsError CctpTransfer) : Prop :=
  (∀ t', out = .ok t' → t'.state ≠ .failed) ∧
    ∃ m ∈ res.messages, ∃ plan r, Deliverable sdk deps t m plan ∧ ⟨mintAsk deps plan, r⟩ ∈ trace

variable {sdk deps}

theorem Deliverable.of_key {t u : CctpTransfer} (h : t.SameKey u) {m : IrisV2Message}
    {plan : DeliveryPlan} :
    Deliverable sdk deps u m plan ↔ Deliverable sdk deps t m plan := by
  simp only [Deliverable, DeliveryPlan.Direct, h.nonce, h.beneficiary]

variable (sdk deps) in
/-- A pending row takes up the first ready message, and the delivery goes on from there. -/
theorem pollAndDeliver_trace {res : IrisResponse} {t : CctpTransfer} {m : IrisV2Message}
    (hpending : t.state = .pending) (hstatus : res.status = 200)
    (hfirst : res.messages.find? IrisV2Message.Ready = some m) :
    ∃ u, u.state = .attested ∧ t.SameKey u ∧ u.message = m.message ∧ u.attestation = m.attestation ∧
      ∀ trace out, ((pollAndDeliver sdk deps t).Trace trace out ∧ ∀ x ∈ trace, Answered res x) ↔
        ∃ rest, trace = ⟨.getAttestation t.sourceDomain t.burnTxHash,
          .ok (getAttestation (some res))⟩ ::
            ⟨.isNonceUsed t.nonce, .ok false⟩ :: rest ∧
          (deliver sdk deps u).Trace rest out ∧ ∀ x ∈ rest, Answered res x := by
  rcases getAttestation_ready hstatus hfirst with ⟨att, hatt, -, hiris⟩
  rcases transition_ok (IrisAttestationStatus.complete att m.message).evidence
    (show .attested ∈ legalTransitions t.state by rw [hpending]; decide)
    (by rw [hpending]; decide) with ⟨u, hu, hstate, hkey, -, hmessage, hattestation⟩
  have hreconcile : reconcile t (.complete att m.message) false = .ok u := by
    simpa [reconcile, hpending] using hu
  refine ⟨u, hstate, hkey, hmessage, hattestation.trans hatt.symm, fun trace out => ?_⟩
  have hprogram : pollAndDeliver sdk deps t =
      (call (.getAttestation t.sourceDomain t.burnTxHash) >>= fun iris =>
        call (.isNonceUsed t.nonce) >>= fun used =>
          lift (reconcile t iris used) >>= deliver sdk deps) := by
    simp only [pollAndDeliver, poll, Async.bind_assoc]
  rw [hprogram, Async.trace_call_bind]
  constructor
  · rintro ⟨⟨error, rfl, rfl⟩ | ⟨iris, polled, rfl, hpolled⟩, hanswered⟩
    · have hbad : Except.error error = .ok (getAttestation (some res)) :=
        hanswered ⟨.getAttestation t.sourceDomain t.burnTxHash, .error error⟩ (by simp)
      cases hbad
    · have hfetched : Except.ok iris = .ok (getAttestation (some res)) :=
        hanswered ⟨.getAttestation t.sourceDomain t.burnTxHash, .ok iris⟩ (by simp)
      cases hfetched
      rcases Async.trace_call_bind.mp hpolled with ⟨error, rfl, rfl⟩ | ⟨used, rest, rfl, hrest⟩
      · have hbad : Except.error error = .ok false := hanswered ⟨.isNonceUsed t.nonce, _⟩ (by simp)
        cases hbad
      · have hfree : Except.ok used = .ok false := hanswered ⟨.isNonceUsed t.nonce, _⟩ (by simp)
        cases hfree
        rw [hiris, hreconcile, Async.lift_ok_bind] at hrest
        exact ⟨rest, rfl, hrest, fun x hx => hanswered x (by simp [hx])⟩
  · rintro ⟨rest, rfl, hrest, hanswered⟩
    refine ⟨.inr ⟨_, _, rfl, Async.trace_call_bind.mpr (.inr ⟨false, rest, rfl, ?_⟩)⟩, ?_⟩
    · rw [hiris, hreconcile, Async.lift_ok_bind]
      exact hrest
    · intro x hx
      rcases List.mem_cons.mp hx with rfl | hx
      · exact rfl
      · rcases List.mem_cons.mp hx with rfl | hx
        · exact rfl
        · exact hanswered x hx

theorem exists_of_not_falsy {o : Option Text} (h : ¬ falsy o = true) :
    ∃ text, o = some text ∧ text ≠ [] := by
  cases o with
  | none => exact absurd rfl h
  | some text =>
      refine ⟨text, rfl, ?_⟩
      rintro rfl
      exact h rfl

/-- A delivery that asked the chain does not fail the row. -/
theorem DeliverTrace.not_failed {t : CctpTransfer} {x : Asked} {trace : List Asked}
    {out : Except JsError CctpTransfer} (h : DeliverTrace sdk deps t (x :: trace) out)
    {t' : CctpTransfer} (hout : out = .ok t') : t'.state ≠ .failed := by
  have hends : ∀ {r : Except JsError Text}, Ends t r out → t'.state ≠ .failed := by
    intro r hends
    cases hends with
    | threw => cases hout
    | delivered txHash t'' hstate =>
        cases hout
        rw [hstate]
        decide
  generalize hall : x :: trace = all at h
  cases h with
  | refused | failed => cases hall
  | unanswered | unminted => cases hout
  | recorded _ _ _ u hstate | direct _ _ _ _ u hstate =>
      cases hout
      rw [hstate]
      decide
  | late _ _ _ _ hout' | vault _ _ _ _ _ hout' => exact hends hout'

section Deliver

variable {u : CctpTransfer} {m : IrisV2Message} {plan : DeliveryPlan} (hstate : u.state = .attested)
  (hmessage : u.message = m.message) (hattestation : u.attestation = m.attestation)
  {attestation : Text} (hatt : m.attestation = some attestation) (hsome : attestation ≠ [])

include hstate hmessage hattestation hatt hsome

/-- With a deliverable message the mint is submitted, and the row does not fail. -/
theorem deliver_deliverable (hown : Deliverable sdk deps u m plan) {res : IrisResponse}
    {trace : List Asked} {out : Except JsError CctpTransfer}
    (htrace : (deliver sdk deps u).Trace trace out) (hanswered : ∀ x ∈ trace, Answered res x) :
    (∀ t', out = .ok t' → t'.state ≠ .failed) ∧ ∃ r, ⟨mintAsk deps plan, r⟩ ∈ trace := by
  rcases hown with ⟨message, attestation', hm, htext, hatt', hplan, hnonce, hrecipient⟩
  rw [hatt] at hatt'
  cases hatt'
  have hplanned : Planned sdk deps u plan :=
    ⟨hstate, ⟨message, attestation, hmessage.trans hm, hplan⟩, hnonce, hrecipient⟩
  have hwrong : ¬ (¬ plan.Direct u ∧ plan.forwardRecipient ≠ deps.relayerAddress) := by tauto
  have hdeliver : deliver sdk deps u = (call (.isNonceUsed plan.nonce) >>= fun used =>
      if used = true then deliverUsed sdk deps u plan else deliverUnused sdk deps u plan) := by
    simp [deliver, hstate, hattestation, hatt, falsy, hsome, hmessage, hm, htext,
      hplan, hnonce, hwrong]
  rw [hdeliver] at htrace
  rcases Async.trace_call_bind.mp htrace with ⟨error, rfl, rfl⟩ | ⟨used, rest, rfl, hrest⟩
  · have hbad : Except.error error = .ok false :=
      hanswered ⟨.isNonceUsed plan.nonce, .error error⟩ (by simp)
    cases hbad
  · have hfree : Except.ok used = .ok false :=
      hanswered ⟨.isNonceUsed plan.nonce, .ok used⟩ (by simp)
    cases hfree
    refine ⟨fun t' hout => (deliverUnused_trace hplanned hrest).not_failed hout, ?_⟩
    rcases transition_ok {} (show .submitting ∈ legalTransitions u.state by rw [hstate]; decide)
      (by rw [hstate]; decide) with ⟨cur, hcur, -⟩
    simp only [Bool.false_eq_true, if_false] at hrest
    unfold deliverUnused at hrest
    rw [hcur, Async.lift_ok_bind] at hrest
    rcases Async.trace_call_bind.mp hrest with ⟨error, rfl, -⟩ | ⟨txHash, more, rfl, -⟩
    · exact ⟨.error error, by simp⟩
    · exact ⟨.ok txHash, by simp⟩

/-- With any other ready message nothing is submitted: a message with a text fails the
row, and one without throws. -/
theorem deliver_undeliverable (hother : ∀ plan, ¬ Deliverable sdk deps u m plan) :
    ∃ out, (deliver sdk deps u).Trace [] out ∧
      (falsy m.message = false → ∃ t', out = .ok t' ∧ t'.state = .failed) := by
  have hfailed : ∀ error : String,
      ∃ t', transition u .failed { lastError := some (some error) } = .ok t' ∧
      t'.state = .failed := by
    intro error
    rcases transition_kept { lastError := some (some error) } rfl
      (show .failed ∈ legalTransitions u.state by rw [hstate]; decide)
      (by rw [hstate]; decide) with ⟨t', ht', hfailed, -⟩
    exact ⟨t', ht', hfailed⟩
  have hready : ¬ (u.state ≠ .attested ∨ falsy u.attestation = true) := by
    simp [hstate, hattestation, hatt, falsy, hsome]
  by_cases htext : falsy m.message = true
  · have hthrows : ∃ error, deliver sdk deps u = .throw error :=
      ⟨_, by rw [deliver, if_neg hready, if_pos (hmessage ▸ htext)]⟩
    rcases hthrows with ⟨error, hdeliver⟩
    rw [hdeliver]
    refine ⟨.error error, .throw error, fun hfalse => ?_⟩
    rw [htext] at hfalse
    cases hfalse
  · have hends : ∀ error : String, deliver sdk deps u =
          lift (transition u .failed { lastError := some (some error) }) →
        ∃ out, (deliver sdk deps u).Trace [] out ∧
          (falsy m.message = false → ∃ t', out = .ok t' ∧ t'.state = .failed) := by
      intro error hdeliver
      rcases hfailed error with ⟨t', ht', hstate'⟩
      rw [hdeliver, ht']
      exact ⟨.ok t', Async.trace_lift.mpr ⟨rfl, rfl⟩, fun _ => ⟨t', rfl, hstate'⟩⟩
    rw [← hmessage] at htext
    have hattestation' : u.attestation.getD [] = attestation := by rw [hattestation, hatt]; rfl
    cases hplan : planDelivery sdk (u.message.getD []) attestation deps.config with
    | error e =>
        refine hends e.message ?_
        rw [deliver, if_neg hready, if_neg htext, hattestation', hplan]
    | ok plan =>
        by_cases hnonce : plan.nonce = u.nonce
        · by_cases hrecipient : plan.Direct u ∨ plan.forwardRecipient = deps.relayerAddress
          · rcases exists_of_not_falsy htext with ⟨message, hm, hsome'⟩
            rw [hm] at hplan
            exact absurd ⟨message, attestation, hmessage.symm.trans hm, hsome', hatt, hplan, hnonce,
              hrecipient⟩ (hother plan)
          · refine hends ("forwardRecipient " ++ String.ofList plan.forwardRecipient ++
              " is neither the beneficiary nor the relayer") ?_
            rw [deliver, if_neg hready, if_neg htext, hattestation', hplan]
            simp only [not_or] at hrecipient
            simp [hnonce, hrecipient]
        · refine hends ("message nonce " ++ String.ofList plan.nonce ++
            " does not match transfer nonce " ++ String.ofList u.nonce) ?_
          rw [deliver, if_neg hready, if_neg htext, hattestation', hplan]
          simp only [ne_eq, hnonce, not_false_eq_true, if_true]

end Deliver

/-- A first ready message that is not for the row ends the attempt with nothing submitted,
and with the row in `failed` if it has a text. -/
theorem pollAndDeliver_undeliverable {t : CctpTransfer} {res : IrisResponse} {m : IrisV2Message}
    (hpending : t.state = .pending) (hstatus : res.status = 200)
    (hfirst : res.messages.find? IrisV2Message.Ready = some m)
    (hother : ∀ plan, ¬ Deliverable sdk deps t m plan) :
    ∃ trace out, (pollAndDeliver sdk deps t).Trace trace out ∧ (∀ x ∈ trace, Answered res x) ∧
      (∀ contractId invocation r, ⟨.submit contractId invocation, r⟩ ∉ trace) ∧
      (falsy m.message = false → ∃ t', out = .ok t' ∧ t'.state = .failed) := by
  rcases getAttestation_ready hstatus hfirst with ⟨att, hatt, hsome, -⟩
  rcases pollAndDeliver_trace sdk deps hpending hstatus hfirst with
    ⟨u, hstate, hkey, hmessage, hattestation, htraces⟩
  rcases deliver_undeliverable hstate hmessage hattestation hatt hsome
    (fun plan => (Deliverable.of_key hkey).not.mpr (hother plan)) with ⟨out, hdeliver, hfailed⟩
  rcases (htraces _ out).mpr ⟨[], rfl, hdeliver, by simp⟩ with ⟨htrace, hanswered⟩
  exact ⟨_, out, htrace, hanswered, by simp, hfailed⟩

/-- When Iris lists the row's own message, ready and fit for delivery, one poll and one
delivery submit it and do not fail the row exactly when the first ready message of the
list is one the row can be delivered with. -/
theorem ownDelivered_iff {t : CctpTransfer} {res : IrisResponse} (hpending : t.state = .pending)
    (hstatus : res.status = 200)
    (hown : ∃ m ∈ res.messages, m.Ready = true ∧ ∃ plan, Deliverable sdk deps t m plan) :
    (∀ trace out, (pollAndDeliver sdk deps t).Trace trace out → (∀ x ∈ trace, Answered res x) →
        OwnDelivered sdk deps res t trace out) ↔
      ∃ m plan, res.messages.find? IrisV2Message.Ready = some m ∧
        Deliverable sdk deps t m plan := by
  constructor
  · intro hall
    rcases hown with ⟨own, hmem, hready, _⟩
    rcases hfirst : res.messages.find? IrisV2Message.Ready with _ | m
    · exact absurd hready (List.find?_eq_none.mp hfirst own hmem)
    · by_contra hnot
      rcases pollAndDeliver_undeliverable hpending hstatus hfirst
        (fun plan hplan => hnot ⟨m, plan, rfl, hplan⟩)
        with ⟨trace, out, htrace, hanswered, hnone, -⟩
      rcases (hall trace out htrace hanswered).2 with ⟨_, _, plan, r, -, hsubmitted⟩
      exact hnone _ _ _ hsubmitted
  · rintro ⟨m, plan, hfirst, hplan⟩ trace out htrace hanswered
    rcases getAttestation_ready hstatus hfirst with ⟨att, hatt, hsome, -⟩
    rcases pollAndDeliver_trace sdk deps hpending hstatus hfirst with
      ⟨u, hstate, hkey, hmessage, hattestation, htraces⟩
    rcases (htraces trace out).mp ⟨htrace, hanswered⟩ with ⟨rest, rfl, hdeliver, hrest⟩
    rcases deliver_deliverable hstate hmessage hattestation hatt hsome
      ((Deliverable.of_key hkey).mpr hplan) hdeliver hrest with ⟨hnot, r, hmint⟩
    exact ⟨hnot, m, List.mem_of_find?_eq_some hfirst, plan, r, hplan, by simp [hmint]⟩

/-! ## Two burns in one transaction -/

/-- A ready message of Iris's list. -/
def readyMessage (message : Bytes) : IrisV2Message :=
  ⟨some "complete", some testAttestation, some (bytesToHex message), none⟩

/-- The message of another burn of the same transaction. -/
def otherMessage : Bytes := vaultMessage.take 12 ++ List.replicate 32 0xac ++ vaultMessage.drop 44

def listed (messages : List IrisV2Message) : IrisResponse := ⟨200, none, some ⟨some messages, none⟩⟩

theorem vaultMessage_deliverable :
    ∃ plan, Deliverable testSdk testDeps testRow (readyMessage vaultMessage) plan := by
  have hplan : ∃ plan,
      planDelivery testSdk (bytesToHex vaultMessage) testAttestation testDeps.config =
      .ok plan ∧ plan.nonce = testRow.nonce ∧ plan.forwardRecipient = testDeps.relayerAddress := by
    decide +kernel
  rcases hplan with ⟨plan, hplan, hnonce, hrecipient⟩
  exact ⟨plan, _, _, rfl, by simp [bytesToHex], rfl, hplan, hnonce, .inr hrecipient⟩

theorem otherMessage_undeliverable (plan : DeliveryPlan) :
    ¬ Deliverable testSdk testDeps testRow (readyMessage otherMessage) plan := by
  rintro ⟨message, attestation, hmessage, -, -, hplan, hnonce, -⟩
  cases hmessage
  have hreads := planDelivery_reads hplan
  have hbytes := hreads.message
  rw [hexToBytes_bytesToHex] at hbytes
  have hsame : otherMessage = plan.mintMessage := Except.ok.inj hbytes
  rw [hreads.nonce, ← hsame] at hnonce
  exact absurd (bytesToHex_injective hnonce) (by decide)

theorem ownDelivered_iff_own_first :
    (readyMessage vaultMessage).Ready = true ∧
      ∀ trace out, (pollAndDeliver testSdk testDeps testRow).Trace trace out →
        (∀ x ∈ trace, Answered (listed [readyMessage vaultMessage, readyMessage otherMessage]) x) →
        OwnDelivered testSdk testDeps
          (listed [readyMessage vaultMessage, readyMessage otherMessage])
          testRow trace out := by
  have hready : (readyMessage vaultMessage).Ready = true := by decide +kernel
  rcases vaultMessage_deliverable with ⟨plan, hplan⟩
  refine ⟨hready, ?_⟩
  refine (ownDelivered_iff rfl rfl ⟨readyMessage vaultMessage,
    by simp [listed, IrisResponse.messages], hready, plan,
    hplan⟩).mpr ⟨readyMessage vaultMessage, plan, ?_, hplan⟩
  simp [listed, IrisResponse.messages, hready]

/-- With the other burn's message first in the list, the row ends in `failed` and nothing
was submitted, though its own message was there. -/
theorem ownDelivered_other_first :
    ∃ sdk deps t res, ∃ m ∈ res.messages, t.state = .pending ∧ res.status = 200 ∧ m.Ready = true ∧
      (∃ plan, Deliverable sdk deps t m plan) ∧ (∀ m ∈ res.messages, m.Ready = true) ∧
      ∃ trace out, (pollAndDeliver sdk deps t).Trace trace out ∧ (∀ x ∈ trace, Answered res x) ∧
        (∀ contractId invocation r, ⟨.submit contractId invocation, r⟩ ∉ trace) ∧
        ∃ t', out = .ok t' ∧ t'.state = .failed := by
  have hready : ∀ m ∈ [readyMessage otherMessage, readyMessage vaultMessage], m.Ready = true := by
    decide +kernel
  have hfirst : (listed [readyMessage otherMessage, readyMessage vaultMessage]).messages.find?
      IrisV2Message.Ready = some (readyMessage otherMessage) := by
    simp [listed, IrisResponse.messages, hready]
  rcases pollAndDeliver_undeliverable rfl rfl hfirst otherMessage_undeliverable with
    ⟨trace, out, htrace, hanswered, hnone, hfailed⟩
  exact ⟨testSdk, testDeps, testRow, listed [readyMessage otherMessage, readyMessage vaultMessage],
    readyMessage vaultMessage, by simp [listed, IrisResponse.messages], rfl,
    rfl, hready _ (by simp), vaultMessage_deliverable, hready, trace, out, htrace, hanswered, hnone,
    hfailed (by decide +kernel)⟩

end Lendoor.Cctp
