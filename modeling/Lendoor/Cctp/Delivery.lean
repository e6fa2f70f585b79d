import Lendoor.Core.Service
import Lendoor.Cctp.Executor

/-! # Deliveries under way

Any number of rows, each polled and delivered one attempt at a time, the attempts of
different rows interleaved at every await. The caller persists the row an attempt
returns. Messages land once each, by the relayer or by anyone else; the oracle answers
what the chain holds; a call that throws had no effect.
-/

namespace Lendoor.Cctp

open Async (Trace Awaits)

/-- What the chain keeps of the deliveries: the messages whose mint landed, the deposits
that landed with the row each was made for, and the relayer's USDC. -/
structure Ledger (ι : Type) where
  minted : List Bytes
  deposits : List (ι × Int)
  relayer : Int

section Ledger

variable {ι : Type}

/-- The nonce is consumed on chain. -/
def Ledger.Used (s : Ledger ι) (nonce : Bytes) : Prop := ∃ m ∈ s.minted, messageNonce m = nonce

/-- The nonce of a row, as its text, is consumed on chain. -/
def Ledger.Consumed (s : Ledger ι) (nonce : Text) : Prop :=
  ∃ bytes, hexToBytes nonce = .ok bytes ∧ s.Used bytes

/-- What the forwarder credits, in seven-decimal units. -/
def credited (message : Bytes) : Int :=
  ((messageAmount message : Int) - messageFeeExecuted message) * 10

/-- The deposits that landed for a row. -/
def Ledger.depositsFor [DecidableEq ι] (s : Ledger ι) (i : ι) : List Int :=
  s.deposits.filterMap fun d => if d.1 = i then some d.2 else none

variable (sdk : Sdk) (deps : CctpExecutorDeps)

/-- The forwarder pays the relayer. -/
def ForRelayer (message : Bytes) : Prop := messageRecipient sdk message = .ok deps.relayerAddress

instance decidableForRelayer (message : Bytes) : Decidable (ForRelayer sdk deps message) :=
  match h : messageRecipient sdk message with
  | .ok recipient => decidable_of_iff (recipient = deps.relayerAddress) (by simp [ForRelayer, h])
  | .error _ => isFalse (by simp [ForRelayer, h])

def Ledger.mint (s : Ledger ι) (message : Bytes) : Ledger ι :=
  { s with
    minted := message :: s.minted
    relayer := s.relayer + if ForRelayer sdk deps message then credited message else 0 }

def Ledger.deposit (s : Ledger ι) (i : ι) (assets : Int) : Ledger ι :=
  { s with deposits := s.deposits ++ [(i, assets)], relayer := s.relayer - assets }

/-- What an exchange of row `i` does on chain. -/
inductive Responds (i : ι) : Ledger ι → Asked → Ledger ι → Prop
  | rejected {s : Ledger ι} (ask : Ask) (message : String) :
      Responds i s ⟨ask, .error ⟨.rejected, message⟩⟩ s
  | attestation {s : Ledger ι} (sourceDomain : Nat) (burnTxHash : Text)
      (iris : IrisAttestationStatus) :
      Responds i s ⟨.getAttestation sourceDomain burnTxHash, .ok iris⟩ s
  | nonce {s : Ledger ι} (nonce : Text) (used : Bool)
      (hbytes : ∃ bytes, nonceScVal nonce = .ok bytes)
      (htruth : used = true ↔ s.Consumed nonce) : Responds i s ⟨.isNonceUsed nonce, .ok used⟩ s
  | mint {s : Ledger ι} (message attestation : Bytes) (txHash : Text)
      (hfresh : ¬ s.Used (messageNonce message)) :
      Responds i s ⟨.submit deps.config.cctpForwarder (.mintAndForward message attestation),
        .ok txHash⟩
        (s.mint sdk deps message)
  | deposit {s : Ledger ι} (beneficiary : Text) (assets : Int) (txHash : Text) :
      Responds i s
      ⟨.submit deps.vaultContractId (.depositFrom deps.relayerAddress beneficiary assets),
        .ok txHash⟩ (s.deposit i assets)

variable {sdk deps}

theorem Ledger.Used.mint {s : Ledger ι} {nonce : Bytes} (h : s.Used nonce) (message : Bytes) :
    (s.mint sdk deps message).Used nonce := by
  rcases h with ⟨m, hm, hnonce⟩
  exact ⟨m, List.mem_cons_of_mem _ hm, hnonce⟩

theorem Responds.used {i : ι} {s s' : Ledger ι} {x : Asked} (h : Responds sdk deps i s x s')
    {nonce : Bytes} (hused : s.Used nonce) : s'.Used nonce := by
  cases h with
  | rejected | attestation | nonce => exact hused
  | mint message => exact hused.mint message
  | deposit => exact hused

theorem Ledger.Consumed.mono {s s' : Ledger ι} {nonce : Text}
    (hgrows : ∀ bytes, s.Used bytes → s'.Used bytes) (h : s.Consumed nonce) :
    s'.Consumed nonce := by
  rcases h with ⟨bytes, hbytes, hused⟩
  exact ⟨bytes, hbytes, hgrows bytes hused⟩

section Deposits

variable [DecidableEq ι]

/-- An exchange adds its deposit to its own row. -/
theorem Responds.depositsFor {i : ι} {s s' : Ledger ι} {x : Asked}
    (h : Responds sdk deps i s x s') :
    s'.depositsFor i = s.depositsFor i ++ (landedDeposit x).toList := by
  cases h with
  | deposit => simp [Ledger.depositsFor, Ledger.deposit, landedDeposit]
  | rejected ask => cases ask <;> simp [landedDeposit]
  | attestation | nonce | mint => simp [Ledger.depositsFor, Ledger.mint, landedDeposit]

theorem Responds.depositsFor_other {i j : ι} {s s' : Ledger ι} {x : Asked}
    (h : Responds sdk deps j s x s') (hne : j ≠ i) : s'.depositsFor i = s.depositsFor i := by
  cases h with
  | deposit => simp [Ledger.depositsFor, Ledger.deposit, hne]
  | rejected | attestation | nonce | mint => rfl

end Deposits

end Ledger

/-! ## The service -/

/-- An attempt on a row. -/
inductive Attempt
  | poll
  | deliver
  deriving DecidableEq, Repr

def Attempt.program (sdk : Sdk) (deps : CctpExecutorDeps) :
    Attempt → CctpTransfer → Program CctpTransfer
  | .poll => Cctp.poll
  | .deliver => Cctp.deliver sdk deps

structure State (ι : Type) where
  rows : ι → CctpTransfer
  ledger : Ledger ι

section Service

variable {ι : Type} [DecidableEq ι] (sdk : Sdk) (deps : CctpExecutorDeps)

/-- A row is persisted only when an attempt returns it. Outside, others mint. -/
def service : Service (State ι) ι Attempt Ask Answer JsError CctpTransfer where
  program s i attempt := attempt.program sdk deps (s.rows i)
  respond i s x s' := s'.rows = s.rows ∧ Responds sdk deps i s.ledger x s'.ledger
  settle s i _ out := match out with
    | .ok t => { s with rows := Function.update s.rows i t }
    | .error _ => s
  outside s s' := s'.rows = s.rows ∧
    ∃ message, ¬ s.ledger.Used (messageNonce message) ∧ s'.ledger = s.ledger.mint sdk deps message

abbrev World (ι : Type) : Type := ThreadPool (State ι) ι Attempt Ask Answer JsError CctpTransfer

abbrev Delivering : Type := Job Attempt Ask Answer JsError CctpTransfer

abbrev DeliveryEvent (ι : Type) : Type := ThreadEvent ι Attempt Ask Answer JsError CctpTransfer

variable {sdk deps} {guard : State ι → Delivering → DeliveryEvent ι → Prop}
  {i j : ι} {s s' : State ι}

theorem settle_rows_ne {attempt : Attempt} {out : Except JsError CctpTransfer} (hne : j ≠ i) :
    ((service sdk deps).settle s j attempt out).rows i = s.rows i := by
  cases out with
  | ok t => exact Function.update_of_ne (Ne.symm hne) t s.rows
  | error => rfl

@[simp] theorem settle_ledger {attempt : Attempt} {out : Except JsError CctpTransfer} :
    ((service sdk deps).settle s j attempt out).ledger = s.ledger := by
  cases out <;> rfl

@[simp] theorem settle_rows_ok {attempt : Attempt} {t : CctpTransfer} :
    ((service sdk deps).settle s i attempt (.ok t)).rows i = t := by
  simp [service]

@[simp] theorem settle_error {attempt : Attempt} {error : JsError} :
    (service sdk deps).settle s i attempt (.error error) = s := rfl

/-! ### The attempt under way -/

variable (sdk deps) in
/-- An attempt runs on the row as it stands, and has exchanged the beginning of a trace. -/
def Running (i : ι) (s : State ι) (o : Option Delivering) : Prop :=
  ∀ job, o = some job → job.program = job.call.program sdk deps (s.rows i) ∧
    ∃ more out, job.program.Trace (job.asked ++ more) out

omit [DecidableEq ι] in
theorem Running.extend {job : Delivering} {x : Asked} (h : Running sdk deps i s (some job))
    (hawaits : job.program.Awaits job.asked x.1) :
    ∃ more out, (job.call.program sdk deps (s.rows i)).Trace (job.asked ++ x :: more) out := by
  rw [← (h job rfl).1]
  exact hawaits.extends ⟨.rejected, ""⟩ x.2

theorem running_stable :
    (service sdk deps).Stable i guard (fun _ _ => True) (Running sdk deps i) where
  start s call _ := by
    rintro job ⟨rfl⟩
    exact ⟨rfl, Async.exists_trace ⟨.rejected, ""⟩ _⟩
  exchange s job x s' _ h hawaits hrespond _ := by
    rintro _ ⟨rfl⟩
    rcases hawaits.extends ⟨.rejected, ""⟩ x.2 with ⟨more, out, htrace⟩
    refine ⟨by rw [hrespond.1]; exact (h job rfl).1, more, out, ?_⟩
    rw [List.append_assoc]
    exact htrace
  settle s job out _ _ _ _ := by
    rintro job' ⟨⟩
  others_exchange j s o x s' h _ hrespond := by
    intro job ho
    rw [hrespond.1]
    exact h job ho
  others_settle j s o call out h hne := by
    intro job ho
    rw [settle_rows_ne hne]
    exact h job ho
  outside s o s' h houtside := by
    intro job ho
    rw [houtside.1]
    exact h job ho

/-! ### Delivered rows are minted -/

/-- What a recorded exchange says about the chain from then on. -/
structure Seen (s : Ledger ι) (x : Asked) : Prop where
  used : ∀ nonce, x = ⟨.isNonceUsed nonce, .ok true⟩ → s.Consumed nonce
  minted : ∀ contractId message attestation txHash,
    x = ⟨.submit contractId (.mintAndForward message attestation), .ok txHash⟩ →
      s.Used (messageNonce message)
  rejected : ∀ ask error, x = ⟨ask, .error error⟩ → error.kind = .rejected

omit [DecidableEq ι] in
theorem Seen.mono {l l' : Ledger ι} {x : Asked} (hgrows : ∀ bytes, l.Used bytes → l'.Used bytes)
    (h : Seen l x) : Seen l' x :=
  ⟨fun nonce hx => (h.used nonce hx).mono hgrows,
    fun contractId message attestation txHash hx =>
      hgrows _ (h.minted contractId message attestation txHash hx), h.rejected⟩

omit [DecidableEq ι] in
theorem Responds.seen {l l' : Ledger ι} {x : Asked} (h : Responds sdk deps i l x l') :
    Seen l' x := by
  cases h with
  | rejected ask message =>
      refine ⟨nofun, nofun, fun _ _ hx => ?_⟩
      cases hx
      rfl
  | attestation | deposit => exact ⟨nofun, nofun, nofun⟩
  | nonce nonce used hbytes htruth =>
      refine ⟨fun _ hx => ?_, nofun, nofun⟩
      cases hx
      exact htruth.mp rfl
  | mint message attestation txHash hfresh =>
      refine ⟨nofun, fun _ _ _ _ hx => ?_, nofun⟩
      cases hx
      exact ⟨message, List.mem_cons_self, rfl⟩

/-- A row keeps its key, is delivered only when its nonce is consumed, and its attempt
was told the truth. -/
structure Truthful (t₀ : CctpTransfer) (i : ι) (s : State ι) (o : Option Delivering) : Prop where
  key : t₀.SameKey (s.rows i)
  consumed : (s.rows i).state = .delivered → s.ledger.Consumed (s.rows i).nonce
  seen : ∀ job, o = some job → ∀ x ∈ job.asked, Seen s.ledger x

omit [DecidableEq ι] in
/-- The nonce of a plan is that of its row and of the message it mints. -/
theorem Planned.consumed {t : CctpTransfer} {plan : DeliveryPlan} (h : Planned sdk deps t plan)
    {l : Ledger ι} (hused : l.Used (messageNonce plan.mintMessage)) : l.Consumed plan.nonce := by
  rcases h.planned with ⟨message, attestation, _, hplan⟩
  refine ⟨messageNonce plan.mintMessage, ?_, hused⟩
  rw [(planDelivery_reads hplan).nonce]
  exact hexToBytes_bytesToHex _

/-- What an attempt leaves of a truthful row. -/
theorem Truthful.settle {t₀ : CctpTransfer} {job : Delivering} {out : Except JsError CctpTransfer}
    (hrun : Running sdk deps i s (some job)) (h : Truthful t₀ i s (some job))
    (htrace : job.program.Trace job.asked out) :
    Truthful t₀ i ((service sdk deps).settle s i job.call out) none := by
  cases out with
  | error error => exact ⟨h.key, h.consumed, by simp⟩
  | ok t' =>
      rw [(hrun job rfl).1] at htrace
      have hseen := h.seen job rfl
      suffices hrow : (s.rows i).SameKey t' ∧
          (t'.state = .delivered → s.ledger.Consumed t'.nonce) by
        refine ⟨?_, ?_, by simp⟩
        · rw [settle_rows_ok]
          exact h.key.trans hrow.1
        · rw [settle_rows_ok, settle_ledger]
          exact hrow.2
      cases hcall : job.call with
      | poll =>
          rw [hcall] at htrace
          rcases poll_trace htrace with ⟨error, hout, _⟩ | ⟨u, hout, hpolled⟩
          · cases hout
          · cases hout
            generalize job.asked = asked at hseen hpolled
            cases hpolled with
            | minted iris _ hne hstate hkept =>
                refine ⟨hkept.toSameKey, fun _ => ?_⟩
                rw [hkept.nonce]
                exact (hseen _ (by simp)).used _ rfl
            | delivered iris hstate => exact ⟨.refl _, h.consumed⟩
            | waited iris _ hwaited =>
                cases hwaited with
                | same hkept hstate =>
                    refine ⟨hkept.toSameKey, fun hdelivered => ?_⟩
                    rw [hkept.nonce]
                    exact h.consumed (hstate ▸ hdelivered)
                | attested hkept _ hstate | failed hkept _ hstate =>
                    refine ⟨hkept.toSameKey, fun hdelivered => ?_⟩
                    rw [hstate] at hdelivered
                    cases hdelivered
      | deliver =>
          rw [hcall] at htrace
          have hdeliver := deliver_trace htrace
          rcases hdeliver.ends with ⟨hfailed, hkept, _⟩ | ⟨hstate, hkey, _⟩
          · refine ⟨hkept.toSameKey, fun hdelivered => ?_⟩
            rw [hfailed] at hdelivered
            cases hdelivered
          · refine ⟨hkey, fun _ => ?_⟩
            rcases hdeliver.consumes hstate with ⟨plan, hplan, hmem | ⟨txHash, hmem⟩⟩
            · rw [hkey.nonce, ← hplan.nonce]
              exact (hseen _ hmem).used _ rfl
            · rw [hkey.nonce, ← hplan.nonce]
              exact hplan.consumed ((hseen _ hmem).minted _ _ _ _ rfl)

theorem truthful_stable (t₀ : CctpTransfer) :
    (service sdk deps).Stable i guard (fun s o => True ∧ Running sdk deps i s o)
    (Truthful t₀ i) := by
  have hkeep : ∀ (s s' : State ι) (o : Option Delivering), Truthful t₀ i s o →
      s'.rows = s.rows → (∀ bytes, s.ledger.Used bytes → s'.ledger.Used bytes) →
      Truthful t₀ i s' o := by
    intro s s' o h hrows hgrows
    refine ⟨hrows ▸ h.key, fun hstate => ?_, fun job ho x hx => (h.seen job ho x hx).mono hgrows⟩
    rw [hrows] at hstate ⊢
    exact (h.consumed hstate).mono hgrows
  refine ⟨?_, ?_, ?_, ?_, ?_, ?_⟩
  · intro s call h
    refine ⟨h.key, h.consumed, ?_⟩
    rintro job ⟨rfl⟩ x ⟨⟩
  · intro s job x s' _ h _ hrespond _
    have h' := hkeep s s' _ h hrespond.1 fun _ => hrespond.2.used
    refine ⟨h'.key, h'.consumed, ?_⟩
    rintro _ ⟨rfl⟩ y hy
    rcases List.mem_append.mp hy with hy | hy
    · exact h'.seen job rfl y hy
    · rw [List.mem_singleton.mp hy]
      exact hrespond.2.seen
  · intro s job out hbase h htrace _
    exact h.settle hbase.2 htrace
  · intro j s o x s' h _ hrespond
    exact hkeep s s' o h hrespond.1 fun _ => hrespond.2.used
  · intro j s o call out h hne
    refine ⟨?_, ?_, ?_⟩
    · rw [settle_rows_ne hne]
      exact h.key
    · rw [settle_rows_ne hne, settle_ledger]
      exact h.consumed
    · rw [settle_ledger]
      exact h.seen
  · intro s o s' h houtside
    rcases houtside with ⟨hrows, message, _, hledger⟩
    refine hkeep s s' o h hrows fun bytes hused => ?_
    rw [hledger]
    exact hused.mint message

/-- What no step of a run does to row `i`. -/
structure Lawful (i : ι) (v : World ι) (event : DeliveryEvent ι)
    (v' : World ι) : Prop where
  absorbing : (v.shared.rows i).state = .delivered → (v'.shared.rows i).state = .delivered
  legal : ∀ error, event = .settle i (.error error) → error.kind ≠ .illegalCctpTransition
  unrepeated : ∀ job contractId message attestation r, v.jobs i = some job → job.call = .deliver →
    event = .exchange i ⟨.submit contractId (.mintAndForward message attestation), r⟩ →
    ∀ nonce, ⟨.isNonceUsed nonce, .ok true⟩ ∉ job.asked
  observed : ∀ job out nonce, v.jobs i = some job → job.call = .poll →
    (v.shared.rows i).state ≠ .delivered → ⟨.isNonceUsed nonce, .ok true⟩ ∈ job.asked →
    event = .settle i out → ∃ t, out = .ok t ∧ t.state = .delivered

omit [DecidableEq ι] in
/-- An attempt on a delivered row leaves it delivered. -/
theorem Running.delivered {job : Delivering} {t : CctpTransfer}
    (hrun : Running sdk deps i s (some job))
    (hstate : (s.rows i).state = .delivered) (htrace : job.program.Trace job.asked (.ok t)) :
    t.state = .delivered := by
  rw [(hrun job rfl).1] at htrace
  cases hcall : job.call with
  | poll =>
      rw [hcall] at htrace
      rcases poll_trace htrace with ⟨error, hout, _⟩ | ⟨u, hout, hpolled⟩
      · cases hout
      · cases hout
        generalize job.asked = asked at hpolled
        cases hpolled with
        | minted iris _ hne => exact absurd hstate hne
        | delivered => exact hstate
        | waited iris _ hwaited =>
            cases hwaited with
            | same _ hsame => rw [hsame, hstate]
            | attested _ hpending | failed _ hpending =>
                rw [hstate] at hpending
                cases hpending
  | deliver =>
      rw [hcall] at htrace
      have hattested := (deliver_trace htrace).attested
      rw [hstate] at hattested
      cases hattested

omit [DecidableEq ι] in
/-- An attempt throws what a call rejected with, or what no transition throws. -/
theorem Running.throws {t₀ : CctpTransfer} {job : Delivering} {error : JsError}
    (hrun : Running sdk deps i s (some job)) (h : Truthful t₀ i s (some job))
    (htrace : job.program.Trace job.asked (.error error)) :
    error.kind ≠ .illegalCctpTransition := by
  have hrejected : (∃ ask, ⟨ask, .error error⟩ ∈ job.asked) →
      error.kind ≠ .illegalCctpTransition := by
    rintro ⟨ask, hmem⟩
    rw [(h.seen job rfl _ hmem).rejected ask error rfl]
    decide
  rw [(hrun job rfl).1] at htrace
  cases hcall : job.call with
  | poll =>
      rw [hcall] at htrace
      rcases poll_trace htrace with ⟨error', hout, hask, _⟩ | ⟨u, hout, _⟩
      · cases hout
        exact hrejected hask
      · cases hout
  | deliver =>
      rw [hcall] at htrace
      exact (deliver_trace htrace).throws.2.elim id hrejected

theorem lawful_of_step {t₀ : CctpTransfer} {v v' : World ι}
    {event : DeliveryEvent ι}
    (hstep : (service sdk deps).Step v event v')
    (hrun : Running sdk deps i v.shared (v.jobs i)) (h : Truthful t₀ i v.shared (v.jobs i)) :
    Lawful i v event v' := by
  refine ⟨fun hstate => ?_, ?_, ?_, ?_⟩
  · cases hstep with
    | start => exact hstate
    | exchange _ _ hrespond =>
        rw [hrespond.1]
        exact hstate
    | @settle j job out hjob htrace =>
        by_cases hji : j = i
        · subst hji
          cases out with
          | error => exact hstate
          | ok t =>
              rw [hjob] at hrun
              simp only [settle_rows_ok]
              exact hrun.delivered hstate htrace
        · simp only [settle_rows_ne hji]
          exact hstate
    | outside houtside =>
        rw [houtside.1]
        exact hstate
  · rintro error rfl
    cases hstep with
    | settle hjob htrace =>
        rw [hjob] at hrun h
        exact hrun.throws h htrace
  · rintro job contractId message attestation r hjob hcall rfl nonce
    cases hstep with
    | exchange hjob' hawaits _ =>
        rw [hjob] at hjob' hrun
        cases hjob'
        rcases hrun.extend hawaits with ⟨more, out, htrace⟩
        rw [hcall] at htrace
        exact (deliver_trace htrace).no_mint_after_used nonce
  · rintro job out nonce hjob hcall hne hmem rfl
    cases hstep with
    | settle hjob' htrace =>
        rw [hjob] at hjob' hrun
        cases hjob'
        rw [(hrun job rfl).1, hcall] at htrace
        rcases poll_trace htrace with ⟨error, _, _, hunseen, _⟩ | ⟨t, hout, hpolled⟩
        · exact absurd hmem (hunseen nonce)
        · refine ⟨t, hout, ?_⟩
          generalize job.asked = asked at hmem hpolled
          cases hpolled with
          | minted _ _ _ hstate => exact hstate
          | delivered _ hstate => exact hstate
          | waited => simp at hmem

/-- Along every run from a pending row, whatever the other rows do: a delivered row's
nonce is consumed, and every step is lawful for the row. -/
theorem delivered_truthful {w w' : World ι}
    {events : List (DeliveryEvent ι)}
    (hpending : (w.shared.rows i).state = .pending) (hidle : w.jobs i = none)
    (run : Run (service sdk deps).Step w events w') :
    ((w'.shared.rows i).state = .delivered →
        w'.shared.ledger.Consumed (w'.shared.rows i).nonce) ∧
      ∀ k v event v', StepAt (service sdk deps).Step w events k v event v' →
        Lawful i v event v' := by
  have hstart : Running sdk deps i w.shared (w.jobs i) ∧
      Truthful (w.shared.rows i) i w.shared (w.jobs i) := by
    rw [hidle]
    refine ⟨nofun, .refl _, fun hstate => ?_, nofun⟩
    rw [hpending] at hstate
    cases hstate
  have hstable : (service sdk deps).Stable i (fun _ _ _ => True) (fun _ _ => True)
      fun s o => Running sdk deps i s o ∧ Truthful (w.shared.rows i) i s o :=
    running_stable.layer (truthful_stable _)
  constructor
  · exact (hstable.run run (fun _ _ _ _ _ _ _ => trivial) hstart).2.consumed
  · intro k v event v' hat
    rcases (hstable.at (fun _ _ _ _ _ _ _ => trivial) hstart hat).1 with ⟨hrun, htruth⟩
    exact lawful_of_step hat.taken hrun htruth

end Service

/-! ## On testnet -/

def testRelayer : Text := "GBBD47IF6LWK7P7MDEVSCWR7DPUWV3NY3DTQEVFL4NAT4AQH3ZLLFLA5".toList

def testBeneficiary : Text := "GDCZFUNJ7MXWBIQ6UUTJRGZIJF5EMRVJCSK73MA2U7K57GWMA4N3P6SL".toList

def testDeps : CctpExecutorDeps where
  config := stellarTestnet
  relayerAddress := testRelayer
  vaultContractId := "CBIELTK6YBZJU5UP2WWQEUCYKLPU6AUNZ2BQ4WWFEIE3USCIHMXQDAMA".toList

/-- The forwarder's contract id as it travels in a message. -/
def testForwarder : Bytes :=
  [61, 232, 106, 197, 11, 71, 234, 242, 132, 15, 226, 62, 72, 23, 149, 81,
    102, 15, 209, 7, 47, 186, 111, 68, 93, 74, 107, 215, 175, 74, 185, 62]

/-- What the SDK answers on the addresses of the deployment. -/
def testSdk : Sdk where
  isValidEd25519PublicKey a := a = testRelayer ∨ a = testBeneficiary
  isValidContract a := a = testDeps.config.cctpForwarder ∨ a = testDeps.vaultContractId
  isValidMed25519PublicKey _ := false
  decodeContract a := if a = testDeps.config.cctpForwarder then testForwarder else []
  addressFault a := if a = testRelayer ∨ a = testBeneficiary then none
    else some "Unsupported address type"
  i128Fault _ := "value out of range for i128"
  decodeText bytes := bytes.map fun b => Char.ofNat b.toNat

/-- Big-endian, as `setUint32` writes. -/
def setUint32 (n : Nat) : Bytes :=
  [UInt8.ofNat (n >>> 24), UInt8.ofNat (n >>> 16), UInt8.ofNat (n >>> 8), UInt8.ofNat n]

def testNonce : Bytes := List.replicate 32 0xab

/-- A message for `recipient`, field by field. -/
def buildTestMessage (recipient : Text) (amount maxFee feeExecuted : Nat) : Bytes :=
  -- header
  setUint32 1 ++ setUint32 6 ++ setUint32 27 ++ testNonce ++ List.replicate 32 0 ++ testForwarder ++
    testForwarder ++ setUint32 2000 ++ setUint32 2000 ++
  -- body
    setUint32 1 ++ List.replicate 32 0x11 ++ testForwarder ++
      (List.replicate 28 0 ++ setUint32 amount) ++
    List.replicate 32 0x22 ++ (List.replicate 28 0 ++ setUint32 maxFee) ++
    (List.replicate 28 0 ++ setUint32 feeExecuted) ++ List.replicate 32 0 ++
  -- hook data
    (List.replicate 24 0 ++ setUint32 0 ++ setUint32 recipient.length ++
      recipient.map fun c => UInt8.ofNat c.toNat)

def testRow : CctpTransfer where
  nonce := bytesToHex testNonce
  sourceDomain := 6
  destinationDomain := 27
  burnTxHash := "0xburn".toList
  amountUsdc6 := 5000000
  beneficiary := testBeneficiary
  state := .pending
  attestation := none
  message := none
  mintTxHash := none
  depositTxHash := none
  lastError := none
  attempts := 0

def testAttestation : Text := bytesToHex (List.replicate 65 0xcd)

/-- A single row, with no attempt under way. -/
def rowWorld (row : CctpTransfer) (ledger : Ledger Unit) : World Unit :=
  ⟨⟨fun _ => row, ledger⟩, fun _ => none⟩

/-- The row an attempt leaves. -/
def persisted (row : CctpTransfer) : Except JsError CctpTransfer → CctpTransfer
  | .ok t => t
  | .error _ => row

def attemptEvents (attempt : Attempt) (trace : List Asked) (out : Except JsError CctpTransfer) :
    List (DeliveryEvent Unit) :=
  .start () attempt :: (trace.map (.exchange ()) ++ [.settle () out])

/-- An attempt on a single row. -/
theorem run_attempt {sdk : Sdk} {deps : CctpExecutorDeps} {row : CctpTransfer}
    {ledger ledger' : Ledger Unit} {attempt : Attempt} {trace : List Asked}
    {out : Except JsError CctpTransfer} (htrace : (attempt.program sdk deps row).Trace trace out)
    (chain : Run (Responds sdk deps ()) ledger trace ledger') :
    Run (service sdk deps).Step (rowWorld row ledger) (attemptEvents attempt trace out)
      (rowWorld (persisted row out) ledger') := by
  have hchain : Run ((service sdk deps).respond ()) (rowWorld row ledger).shared trace
      (rowWorld row ledger').shared := by
    clear htrace
    induction chain with
    | nil => exact Run.nil _
    | snoc _ hrespond ih => exact ih.snoc ⟨rfl, hrespond⟩
  have hidle : (rowWorld row ledger).jobs () = none := rfl
  have hrun := Service.run_call hidle (S := service sdk deps) htrace hchain
  cases out <;> exact hrun

def testWorld (minted : List Bytes) : World Unit := rowWorld testRow ⟨minted, [], 0⟩

theorem testNonce_read : ∃ bytes, nonceScVal testRow.nonce = .ok bytes :=
  ⟨testNonce, by decide⟩

/-- Another relayer minted: the first poll delivers the row. -/
theorem delivered_truthful_foreign_mint :
    ∃ events w', Run (service testSdk testDeps).Step
        (testWorld [buildTestMessage testRelayer 5000000 0 0]) events w' ∧
      (w'.shared.rows ()).state = .delivered ∧
      w'.shared.ledger.Consumed (w'.shared.rows ()).nonce ∧
      ∀ k v event v', StepAt (service testSdk testDeps).Step
        (testWorld [buildTestMessage testRelayer 5000000 0 0]) events k v event v' →
        Lawful () v event v' := by
  have hused : (testWorld [buildTestMessage testRelayer 5000000 0 0]).shared.ledger.Consumed
      testRow.nonce :=
    ⟨testNonce, hexToBytes_bytesToHex _, _, List.mem_singleton.mpr rfl, by decide⟩
  have htrace : (Attempt.poll.program testSdk testDeps testRow).Trace
      [⟨.getAttestation 6 testRow.burnTxHash, .ok .pending⟩, ⟨.isNonceUsed testRow.nonce, .ok true⟩]
      (reconcile testRow .pending true) := Async.trace_of_replay rfl
  have hrun := run_attempt htrace (((Run.nil _).snoc (.attestation _ _ _)).snoc
    (.nonce _ _ testNonce_read (iff_of_true rfl hused)))
  have htruth := delivered_truthful (i := ()) rfl rfl hrun
  exact ⟨_, _, hrun, rfl, htruth.1 rfl, htruth.2⟩

end Lendoor.Cctp
