import Lendoor.Cctp.Deposits
import Mathlib.Algebra.Order.BigOperators.Group.List

/-! # The relayer's USDC across deliveries

The forwarder credits a message's amount less its executed fee, while a delivery
deposits the whole amount. A fee is then paid by the relayer: deposits stay covered
by what their messages minted exactly as long as no deposited message carried a fee.
-/

namespace Lendoor.Cctp

/-! ## Amounts drawn from a list of credits -/

section Covered

variable {κ β : Type} {R : κ → β → Prop} {credit : β → Int}

/-- Amounts with distinct keys, each covered by a credit that belongs to its key alone,
add up to no more than all the credits. -/
theorem sum_le_sum_of_covered (hkey : ∀ k k' m, R k m → R k' m → k = k') :
    ∀ {amounts : List (κ × Int)} {credits : List β}, (amounts.map Prod.fst).Nodup →
      (∀ m ∈ credits, 0 ≤ credit m) →
      (∀ d ∈ amounts, ∃ m ∈ credits, R d.1 m ∧ d.2 ≤ credit m) →
      (amounts.map Prod.snd).sum ≤ (credits.map credit).sum := by
  intro amounts
  induction amounts with
  | nil =>
      intro credits _ hnn _
      simpa using List.sum_nonneg (by simpa using hnn)
  | cons d amounts ih =>
      intro credits hnodup hnn hcovered
      rcases hcovered d (by simp) with ⟨m, hm, hR, hle⟩
      rcases List.append_of_mem hm with ⟨before, after, rfl⟩
      rcases List.nodup_cons.mp hnodup with ⟨hfresh, hnodup⟩
      -- the other amounts are covered by the other credits
      have hrest : ∀ d' ∈ amounts, ∃ m' ∈ before ++ after, R d'.1 m' ∧ d'.2 ≤ credit m' := by
        intro d' hd'
        rcases hcovered d' (by simp [hd']) with ⟨m', hm', hR', hle'⟩
        refine ⟨m', ?_, hR', hle'⟩
        rcases List.mem_append.mp hm' with hm' | hm'
        · exact List.mem_append_left _ hm'
        · rcases List.mem_cons.mp hm' with rfl | hm'
          · exact absurd (hkey _ _ _ hR hR' ▸ List.mem_map_of_mem hd') hfresh
          · exact List.mem_append_right _ hm'
      have hsum := ih hnodup (fun m' hm' => hnn m' (by
        rcases List.mem_append.mp hm' with hm' | hm' <;> simp [hm'])) hrest
      simp only [List.map_append, List.map_cons, List.sum_append, List.sum_cons] at hsum ⊢
      omega

end Covered

section Solvency

variable {ι : Type} [DecidableEq ι] {sdk : Sdk} {deps : CctpExecutorDeps}

/-! ## The books -/

/-- What the messages with a nonce credited. -/
def Ledger.mintedFor (s : Ledger ι) (nonce : Text) : Int :=
  ((s.minted.filter fun m => bytesToHex (messageNonce m) = nonce).map credited).sum

/-- What a message credits to the relayer. -/
def relayerCredit (sdk : Sdk) (deps : CctpExecutorDeps) (message : Bytes) : Int :=
  if ForRelayer sdk deps message then credited message else 0

/-- The relayer's USDC is what it began with and received, less what it deposited, and
every nonce is consumed once. -/
structure Ledger.Balanced (sdk : Sdk) (deps : CctpExecutorDeps) (opening : Int) (s : Ledger ι) :
    Prop where
  relayer : s.relayer = opening + (s.minted.map (relayerCredit sdk deps)).sum -
    (s.deposits.map Prod.snd).sum
  fresh : s.minted.Pairwise fun m m' => messageNonce m ≠ messageNonce m'

omit [DecidableEq ι] in
theorem Ledger.Balanced.mint {opening : Int} {s : Ledger ι} (h : s.Balanced sdk deps opening)
    {message : Bytes} (hfresh : ¬ s.Used (messageNonce message)) :
    (s.mint sdk deps message).Balanced sdk deps opening := by
  refine ⟨?_, ?_⟩
  · have hrelayer := h.relayer
    simp only [Ledger.mint, List.map_cons, List.sum_cons]
    rw [hrelayer, relayerCredit]
    ring
  · refine List.pairwise_cons.mpr ⟨fun m hm hnonce => hfresh ⟨m, hm, hnonce.symm⟩, h.fresh⟩

omit [DecidableEq ι] in
theorem Responds.balanced {opening : Int} {i : ι} {s s' : Ledger ι} {x : Asked}
    (h : Responds sdk deps i s x s') (hs : s.Balanced sdk deps opening) :
    s'.Balanced sdk deps opening := by
  cases h with
  | rejected | attestation | nonce => exact hs
  | mint message attestation txHash hfresh => exact hs.mint hfresh
  | deposit beneficiary assets =>
      refine ⟨?_, hs.fresh⟩
      have hrelayer := hs.relayer
      simp only [Ledger.deposit, List.map_append, List.sum_append, List.map_cons, List.map_nil,
        List.sum_cons, List.sum_nil]
      omega

theorem balanced_step {opening : Int} {v v' : World ι} {event : DeliveryEvent ι}
    (hstep : (service sdk deps).Step v event v') (h : v.shared.ledger.Balanced sdk deps opening) :
    v'.shared.ledger.Balanced sdk deps opening := by
  cases hstep with
  | start => exact h
  | exchange _ _ hrespond => exact hrespond.2.balanced h
  | settle =>
      simp only [settle_ledger]
      exact h
  | outside houtside =>
      rcases houtside with ⟨_, message, hfresh, hledger⟩
      rw [hledger]
      exact h.mint hfresh

omit [DecidableEq ι] in
/-- A nonce that one message consumed was credited what that message credits. -/
theorem Ledger.mintedFor_eq {s : Ledger ι}
    (hfresh : s.minted.Pairwise fun m m' => messageNonce m ≠ messageNonce m') {message : Bytes}
    (hmem : message ∈ s.minted) :
    s.mintedFor (bytesToHex (messageNonce message)) = credited message := by
  rcases List.append_of_mem hmem with ⟨before, after, hminted⟩
  rw [hminted] at hfresh
  rcases List.pairwise_append.mp hfresh with ⟨_, hafter, hbefore⟩
  have hnone : ∀ others : List Bytes, (∀ m ∈ others, messageNonce m ≠ messageNonce message) →
      others.filter (fun m => bytesToHex (messageNonce m) = bytesToHex (messageNonce message)) =
      [] := by
    intro others h
    refine List.filter_eq_nil_iff.mpr fun m hm heq => h m hm ?_
    exact bytesToHex_injective (of_decide_eq_true heq)
  simp only [Ledger.mintedFor, hminted, List.filter_append, List.filter_cons, decide_true, if_true,
    hnone before fun m hm => hbefore m hm message List.mem_cons_self,
    hnone after fun m hm => (((List.pairwise_cons.mp hafter).1 m hm)).symm]
  simp

theorem Ledger.count_deposits (s : Ledger ι) (i : ι) :
    (s.deposits.map Prod.fst).count i = (s.depositsFor i).length := by
  simp only [Ledger.depositsFor]
  induction s.deposits with
  | nil => rfl
  | cons d deposits ih =>
      by_cases hd : d.1 = i
      · simp [hd, ih]
      · simp [hd, ih]

/-! ## Runs of vault-mode deliveries -/

/-- What the attesters sign: one message for each nonce, its fee within its amount. -/
structure Attesters (genuine : Bytes → Prop) : Prop where
  unique : ∀ m m', genuine m → genuine m' → messageNonce m = messageNonce m' → m = m'
  fee_le : ∀ m, genuine m → messageFeeExecuted m ≤ messageAmount m

/-- Before the first delivery. -/
structure Opening (w : World ι) : Prop where
  fresh : ∀ i, Fresh i w
  minted : w.shared.ledger.minted = []
  deposits : w.shared.ledger.deposits = []
  nonces : ∀ i j, (w.shared.rows i).nonce = (w.shared.rows j).nonce → i = j

/-- Every message is signed, and those of the rows pay the relayer. -/
structure VaultMessages (sdk : Sdk) (deps : CctpExecutorDeps) (genuine : Bytes → Prop) (w : World ι)
    (events : List (DeliveryEvent ι)) : Prop where
  row : ∀ i, CarriesOnly (fun m => genuine m ∧ ForRelayer sdk deps m) (w.shared.rows i).message
  iris : ∀ i x, .exchange i x ∈ events → AnswersOnly (fun m => genuine m ∧ ForRelayer sdk deps m) x
  landed : ∀ k v event v', StepAt (service sdk deps).Step w events k v event v' →
    ∀ m ∈ v'.shared.ledger.minted, genuine m

/-- The deposits of each row are covered by what its message minted, and the relayer
has at least what it began with. -/
structure Solvent (w v : World ι) : Prop where
  covered : ∀ i, (v.shared.ledger.depositsFor i).sum ≤
    v.shared.ledger.mintedFor (v.shared.rows i).nonce
  balance : w.shared.ledger.relayer ≤ v.shared.ledger.relayer

/-- If the event lands a deposit for row `i`, no fee was executed on its message. -/
def Feeless (i : ι) (s : State ι) (event : DeliveryEvent ι) : Prop :=
  ∀ x, event = .exchange i x → landedDeposit x ≠ none →
    CarriesOnly (fun m => messageFeeExecuted m = 0) (s.rows i).message

variable {genuine P Q : Bytes → Prop} {i : ι} {w v v' : World ι} {events : List (DeliveryEvent ι)}
  {k : Nat} {event : DeliveryEvent ι}

theorem Opening.balanced (h : Opening w) :
    w.shared.ledger.Balanced sdk deps w.shared.ledger.relayer := by
  refine ⟨?_, ?_⟩
  · rw [h.minted, h.deposits]
    simp
  · rw [h.minted]
    exact List.Pairwise.nil

theorem balanced_at (hopen : Opening w)
    (hat : StepAt (service sdk deps).Step w events k v event v') :
    v'.shared.ledger.Balanced sdk deps w.shared.ledger.relayer :=
  balanced_step hat.taken (hat.before.invariant
    (P := fun v : World ι => v.shared.ledger.Balanced sdk deps w.shared.ledger.relayer)
    (fun _ _ _ h hstep => balanced_step hstep h) hopen.balanced)

/-- A row's standing before and after a step, with what is known of the deposits so far. -/
theorem standing_at (hopen : Opening w) (hmessages : VaultMessages sdk deps genuine w events)
    (hdeposit : ∀ k v event v', StepAt (service sdk deps).Step w events k v event v' →
      ∀ x, event = .exchange i x → landedDeposit x ≠ none → CarriesOnly Q (v.shared.rows i).message)
    (hat : StepAt (service sdk deps).Step w events k v event v') :
    Standing sdk deps (fun m => genuine m ∧ ForRelayer sdk deps m) Q (w.shared.rows i) i v.shared
        (v.jobs i) ∧
      Standing sdk deps (fun m => genuine m ∧ ForRelayer sdk deps m) Q (w.shared.rows i) i v'.shared
        (v'.jobs i) := by
  have hstable : (service sdk deps).Stable i
      (fun s job event => ∀ x, event = .exchange i x →
        AnswersOnly (fun m => genuine m ∧ ForRelayer sdk deps m) x ∧
          (landedDeposit x ≠ none → CarriesOnly Q (s.rows i).message)) (fun _ _ => True)
      (Standing sdk deps (fun m => genuine m ∧ ForRelayer sdk deps m) Q (w.shared.rows i) i) :=
    standing_stable (fun _ _ x h => (h x rfl).1) fun _ _ x h => (h x rfl).2
  refine hstable.at ?_ ((hopen.fresh i).standing (hmessages.row i)) hat
  rintro k v event v' hat job _ x rfl
  exact ⟨hmessages.iris i x (List.mem_of_getElem? hat.found), hdeposit k v _ v' hat x rfl⟩

/-- A deposit is the whole amount of the row's message, which minted its credit. -/
theorem Standing.minted {t₀ : CctpTransfer} {s : State ι} {o : Option Delivering}
    {opening assets : Int}
    (h : Standing sdk deps (fun m => genuine m ∧ ForRelayer sdk deps m) Q t₀ i s o)
    (hsigned : Attesters genuine) (hgenuine : ∀ m ∈ s.ledger.minted, genuine m)
    (hbalanced : s.ledger.Balanced sdk deps opening) (hmem : assets ∈ s.ledger.depositsFor i) :
    ∃ m ∈ s.ledger.minted, genuine m ∧ ForRelayer sdk deps m ∧ Q m ∧
      t₀.nonce = bytesToHex (messageNonce m) ∧ assets = 10 * messageAmount m ∧
      s.ledger.mintedFor (s.rows i).nonce = credited m := by
  rcases h.2.backed assets hmem with ⟨m, ⟨⟨hm, hrelayer⟩, hQ⟩, hnonce, hassets, m', hm', hused⟩
  have heq : m' = m := hsigned.unique m' m (hgenuine m' hm') hm hused
  subst heq
  refine ⟨m', hm', hm, hrelayer, hQ, hnonce, hassets, ?_⟩
  rw [h.1.1.2.key.nonce, hnonce]
  exact Ledger.mintedFor_eq hbalanced.fresh hm'

/-- The row's deposit is covered if no fee was executed on its message. -/
theorem Standing.covered {t₀ : CctpTransfer} {s : State ι} {o : Option Delivering} {opening : Int}
    (h : Standing sdk deps (fun m => genuine m ∧ ForRelayer sdk deps m)
      (fun m => messageFeeExecuted m = 0) t₀ i s o)
    (hsigned : Attesters genuine) (hgenuine : ∀ m ∈ s.ledger.minted, genuine m)
    (hbalanced : s.ledger.Balanced sdk deps opening) :
    (s.ledger.depositsFor i).sum ≤ s.ledger.mintedFor (s.rows i).nonce := by
  have honce := h.2.once
  cases hdeposits : s.ledger.depositsFor i with
  | nil =>
      rw [List.sum_nil, Ledger.mintedFor]
      refine List.sum_nonneg fun n hn => ?_
      rcases List.mem_map.mp hn with ⟨m, hm, rfl⟩
      have hfee := hsigned.fee_le m (hgenuine m (List.mem_filter.mp hm).1)
      simp only [credited]
      omega
  | cons assets rest =>
      rw [hdeposits, List.length_cons] at honce
      have hrest : rest = [] := List.length_eq_zero_iff.mp (by omega)
      subst hrest
      rcases h.minted hsigned hgenuine hbalanced (hdeposits ▸ List.mem_singleton.mpr rfl) with
        ⟨m, _, _, _, hfee, _, hassets, hminted⟩
      rw [hminted, hassets, credited, hfee]
      simp
      omega

/-- The relayer keeps at least its opening balance when every deposit is of a message
without a fee. -/
theorem relayer_covered {s : State ι} {jobs : ι → Option Delivering} {opening : Int}
    {nonce : ι → CctpTransfer} (hnonces : ∀ i j, (nonce i).nonce = (nonce j).nonce → i = j)
    (h : ∀ i, Standing sdk deps (fun m => genuine m ∧ ForRelayer sdk deps m)
      (fun m => messageFeeExecuted m = 0) (nonce i) i s (jobs i))
    (hsigned : Attesters genuine) (hgenuine : ∀ m ∈ s.ledger.minted, genuine m)
    (hbalanced : s.ledger.Balanced sdk deps opening) : opening ≤ s.ledger.relayer := by
  have hsum : (s.ledger.deposits.map Prod.snd).sum ≤
      (s.ledger.minted.map (relayerCredit sdk deps)).sum := by
    refine sum_le_sum_of_covered (R := fun i m => (nonce i).nonce = bytesToHex (messageNonce m))
      (fun i j m hi hj => hnonces i j (hi.trans hj.symm)) ?_ ?_ ?_
    · rw [List.nodup_iff_count]
      intro i
      rw [Ledger.count_deposits]
      exact (h i).2.once
    · intro m hm
      have hfee := hsigned.fee_le m (hgenuine m hm)
      simp only [relayerCredit, credited]
      split <;> omega
    · intro d hd
      have hmem : d.2 ∈ s.ledger.depositsFor d.1 :=
        List.mem_filterMap.mpr ⟨d, hd, by simp⟩
      rcases (h d.1).minted hsigned hgenuine hbalanced hmem with
        ⟨m, hm, _, hrelayer, hfee, hnonce, hassets, _⟩
      refine ⟨m, hm, hnonce, ?_⟩
      rw [hassets, relayerCredit, if_pos hrelayer, credited, hfee]
      simp
      omega
  have hrelayer := hbalanced.relayer
  omega

/-- A deposit is the first of its row, and its message is that of the row. -/
theorem deposit_at (hopen : Opening w) (hmessages : VaultMessages sdk deps genuine w events)
    {x : Asked} (hat : StepAt (service sdk deps).Step w events k v (.exchange i x) v')
    (hx : landedDeposit x ≠ none) : (∃ assets, v'.shared.ledger.depositsFor i = [assets]) ∧
      CarriesOnly (fun m => genuine m ∧ (w.shared.rows i).nonce = bytesToHex (messageNonce m))
        (v.shared.rows i).message := by
  have hstanding := standing_at (i := i) (Q := fun _ => True) hopen hmessages
    (fun _ _ _ _ _ _ _ _ _ _ _ _ => trivial) hat
  rcases hstanding.1 with ⟨⟨⟨hrun, htruth⟩, hcarried⟩, _⟩
  have honce := hstanding.2.2.once
  rcases Option.ne_none_iff_exists'.mp hx with ⟨assets, hx⟩
  cases hat.taken with
  | exchange hjob hawaits hrespond =>
      constructor
      · simp only at honce ⊢
        rw [hrespond.2.depositsFor, hx] at honce ⊢
        simp only [Option.toList_some, List.length_append, List.length_singleton] at honce
        have hnil : v.shared.ledger.depositsFor i = [] := List.length_eq_zero_iff.mp (by omega)
        exact ⟨assets, by rw [hnil]; rfl⟩
      · rw [hjob] at hrun
        rcases hrun.deposits hawaits hx with ⟨_, plan, hplan, _⟩
        rcases hplan.planned with ⟨hex, attestation, hmessage, hreads⟩
        have hreads := planDelivery_reads hreads
        intro hex' m hmessage' hread
        rw [hmessage] at hmessage'
        cases hmessage'
        rw [hreads.message] at hread
        cases hread
        refine ⟨(hcarried.row ?_ ?_ hex _ hmessage hreads.message).1, ?_⟩
        · rw [hplan.attested]
          decide
        · rw [hplan.attested]
          decide
        · rw [← htruth.key.nonce, ← hplan.nonce, hreads.nonce]

theorem solvent_of_feeless (hsigned : Attesters genuine) (hopen : Opening w)
    (hmessages : VaultMessages sdk deps genuine w events)
    (hfeeless : ∀ k v event v', StepAt (service sdk deps).Step w events k v event v' →
      ∀ i, Feeless i v.shared event)
    (hat : StepAt (service sdk deps).Step w events k v event v') : Solvent w v' := by
  have hgenuine := hmessages.landed k v event v' hat
  have hbalanced := balanced_at hopen hat
  have hstanding : ∀ i, Standing sdk deps (fun m => genuine m ∧ ForRelayer sdk deps m)
      (fun m => messageFeeExecuted m = 0) (w.shared.rows i) i v'.shared (v'.jobs i) := fun i =>
    (standing_at hopen hmessages (fun k v event v' hat => hfeeless k v event v' hat i) hat).2
  exact ⟨fun i => (hstanding i).covered hsigned hgenuine hbalanced,
    relayer_covered hopen.nonces hstanding hsigned hgenuine hbalanced⟩

/-- The deposits stay covered, along the whole run, if and only if no deposit lands for a
message on which a fee was executed. -/
theorem solvent_iff (hsigned : Attesters genuine) (hopen : Opening w)
    (hmessages : VaultMessages sdk deps genuine w events) :
    (∀ k v event v', StepAt (service sdk deps).Step w events k v event v' → Solvent w v') ↔
      ∀ k v event v', StepAt (service sdk deps).Step w events k v event v' →
        ∀ i, Feeless i v.shared event := by
  constructor
  · rintro hall k v event v' hat i x rfl hx hex message hmessage hread
    have hcovered := (hall k v _ v' hat).covered i
    rcases deposit_at hopen hmessages hat hx with ⟨⟨assets, hdeposits⟩, hrow⟩
    have hstanding := standing_at (i := i) (Q := fun _ => True) hopen hmessages
      (fun _ _ _ _ _ _ _ _ _ _ _ _ => trivial) hat
    rcases hstanding.2.minted hsigned (hmessages.landed k v _ v' hat) (balanced_at hopen hat)
      (hdeposits ▸ List.mem_singleton.mpr rfl) with ⟨m, _, hm, _, _, hnonce, hassets, hminted⟩
    rw [hdeposits, hminted, List.sum_singleton, hassets, credited] at hcovered
    -- the deposit was for the message of the row
    have heq : message = m := by
      rcases hrow hex message hmessage hread with ⟨hgenuine, hnonce'⟩
      exact hsigned.unique _ _ hgenuine hm (bytesToHex_injective (hnonce'.symm.trans hnonce))
    have hfee := hsigned.fee_le m hm
    rw [heq]
    omega
  · intro hfeeless k v event v' hat
    exact solvent_of_feeless hsigned hopen hmessages hfeeless hat

omit [DecidableEq ι] in
theorem Responds.minted {s s' : Ledger ι} {x : Asked} (h : Responds sdk deps i s x s') {m : Bytes}
    (hm : m ∈ s'.minted) : m ∈ s.minted ∨
      ∃ contractId attestation txHash,
        x = ⟨.submit contractId (.mintAndForward m attestation), .ok txHash⟩ := by
  cases h with
  | rejected | attestation | nonce | deposit => exact .inl hm
  | mint message attestation txHash =>
      rcases List.mem_cons.mp hm with rfl | hm
      · exact .inr ⟨_, attestation, txHash, rfl⟩
      · exact .inl hm

/-- Without mints from outside, what landed is what the rows minted. -/
theorem minted_of_events (run : Run (service sdk deps).Step w events v)
    (hinside : .outside ∉ events)
    (hmints : ∀ i contractId message attestation txHash,
      .exchange i ⟨.submit contractId (.mintAndForward message attestation), .ok txHash⟩ ∈ events →
        genuine message) (hstart : ∀ m ∈ w.shared.ledger.minted, genuine m) :
    ∀ m ∈ v.shared.ledger.minted, genuine m := by
  induction run with
  | nil => exact hstart
  | snoc _ hstep ih =>
      have hbefore := ih (fun h => hinside (List.mem_append_left _ h))
        fun i c m a h hmem => hmints i c m a h (List.mem_append_left _ hmem)
      cases hstep with
      | start => exact hbefore
      | exchange _ _ hrespond =>
          intro m hm
          rcases hrespond.2.minted hm with hm | ⟨c, a, h, rfl⟩
          · exact hbefore m hm
          · exact hmints _ c m a h (List.mem_append_right _ (List.mem_singleton.mpr rfl))
      | settle =>
          simp only [settle_ledger]
          exact hbefore
      | outside => exact absurd (List.mem_append_right _ (List.mem_singleton.mpr rfl)) hinside

end Solvency

/-! ### A fast transfer with its fee -/

/-- A delivery with its mint and its deposit. -/
def deliveryOf (message : Bytes) : List Asked :=
  [⟨.isNonceUsed testRow.nonce, .ok false⟩, mintExchange message,
    depositExchange (.ok "tx-2".toList)]

def deliveryEvents (message : Bytes) (row : CctpTransfer) : List (DeliveryEvent Unit) :=
  attemptEvents .poll (firstPoll message) (.ok (attestedRow message)) ++
    attemptEvents .deliver (deliveryOf message) (.ok row)

/-- Five USDC burned with a fee of 0.0005 executed. -/
def feeMessage : Bytes := buildTestMessage testRelayer 5000000 1000 500

def feeDelivery : List Asked :=
  [⟨.isNonceUsed testRow.nonce, .ok false⟩, mintExchange feeMessage,
    depositExchange (.ok "tx-2".toList)]

def feeDelivered : CctpTransfer :=
  { attestedRow feeMessage with
    state := .delivered
    mintTxHash := some "tx-1".toList
    depositTxHash := some "tx-2".toList }

def feeEvents : List (DeliveryEvent Unit) :=
  attemptEvents .poll (firstPoll feeMessage) (.ok (attestedRow feeMessage)) ++
    attemptEvents .deliver feeDelivery (.ok feeDelivered)

def feeStart : World Unit := rowWorld testRow ⟨[], [], 100000000⟩

def feeEnd : World Unit := rowWorld feeDelivered ⟨[feeMessage], [((), 50000000)], 99995000⟩

theorem feeMessage_credited : credited feeMessage = 49995000 := by decide +kernel

theorem feeMessage_forRelayer : ForRelayer testSdk testDeps feeMessage := by decide +kernel

/-- A poll that attests the row, the mint and the deposit, whatever the message credits. -/
theorem run_deposited {sdk : Sdk} {message : Bytes} {row : CctpTransfer} {relayer : Int}
    (hpoll : (poll testRow).replay (firstPoll message) = some (.ok (attestedRow message)))
    (hdeliver : (deliver sdk testDeps (attestedRow message)).replay (deliveryOf message) =
      some (.ok row))
    (hrelayer : ForRelayer sdk testDeps message) :
    Run (service sdk testDeps).Step (rowWorld testRow ⟨[], [], relayer⟩)
    (deliveryEvents message row)
      (rowWorld row ⟨[message], [((), 50000000)], relayer + credited message - 50000000⟩) := by
  have hmint : Responds sdk testDeps () ⟨[], [], relayer⟩ (mintExchange message)
      ⟨[message], [], relayer + credited message⟩ := by
    have hlands : (⟨[], [], relayer⟩ : Ledger Unit).mint sdk testDeps message =
        ⟨[message], [], relayer + credited message⟩ := by
      simp only [Ledger.mint, if_pos hrelayer]
    rw [← hlands]
    exact .mint message _ _ (by rintro ⟨_, ⟨⟩, _⟩)
  have hdeposit : Responds sdk testDeps () ⟨[message], [], relayer + credited message⟩
      (depositExchange (.ok "tx-2".toList))
      ⟨[message], [((), 50000000)], relayer + credited message - 50000000⟩ := .deposit _ _ _
  have hrun : Run (service sdk testDeps).Step (rowWorld (attestedRow message) ⟨[], [], relayer⟩)
      (attemptEvents .deliver (deliveryOf message) (.ok row))
      (rowWorld row ⟨[message], [((), 50000000)], relayer + credited message - 50000000⟩) :=
    run_attempt (Async.trace_of_replay hdeliver)
      ((((Run.nil _).snoc
        (.nonce _ _ testNonce_read (iff_of_false (by decide) testNonce_unused))).snoc
        hmint).snoc hdeposit)
  exact (run_firstPoll hpoll).append hrun

/-- Everything in that run is about the one message. -/
theorem deliveryEvents_messages {sdk : Sdk} {message : Bytes} {row : CctpTransfer} {relayer : Int}
    (hrelayer : ForRelayer sdk testDeps message) :
    VaultMessages sdk testDeps (· = message) (rowWorld testRow ⟨[], [], relayer⟩)
    (deliveryEvents message row) := by
  have hexchanges : ∀ x, .exchange () x ∈ deliveryEvents message row → x ∈ firstPoll message ∨
      x ∈ deliveryOf message := by
    intro x hx
    simpa [deliveryEvents, attemptEvents] using hx
  refine ⟨fun _ _ _ hmessage => (by cases hmessage), fun _ x hx => ?_, fun k v event v' hat => ?_⟩
  · rcases hexchanges x hx with hmem | hmem
    · exact firstPoll_answersOnly (P := fun m => m = message ∧ ForRelayer sdk testDeps m)
        ⟨rfl, hrelayer⟩ x hmem
    · simp only [deliveryOf, mintExchange, depositExchange, List.mem_cons, List.not_mem_nil,
        or_false] at hmem
      rcases hmem with rfl | rfl | rfl
      · exact answersOnly_isNonceUsed _ _
      · exact answersOnly_submit _ _ _
      · exact answersOnly_submit _ _ _
  · have hsub : ∀ e ∈ (deliveryEvents message row).take k ++ [event],
        e ∈ deliveryEvents message row := by
      intro e he
      rcases List.mem_append.mp he with he | he
      · exact List.mem_of_mem_take he
      · rw [List.mem_singleton.mp he]
        exact List.mem_of_getElem? hat.found
    refine minted_of_events (hat.before.snoc hat.taken) (fun h => ?_) ?_ fun m hm => (by cases hm)
    · simpa [deliveryEvents, attemptEvents] using hsub _ h
    · intro _ c m a h hmem
      rcases hexchanges _ (hsub _ hmem) with hx | hx
      · simp [firstPoll] at hx
      · simp only [deliveryOf, mintExchange, depositExchange, List.mem_cons, List.not_mem_nil,
          or_false] at hx
        rcases hx with hx | hx | hx <;> cases hx
        rfl

theorem fee_run : Run (service testSdk testDeps).Step feeStart feeEvents feeEnd := by
  have hrun : Run (service testSdk testDeps).Step feeStart (deliveryEvents feeMessage feeDelivered)
      (rowWorld feeDelivered ⟨[feeMessage], [((), 50000000)],
        100000000 + credited feeMessage - 50000000⟩) :=
    run_deposited (by decide +kernel) (by decide +kernel) feeMessage_forRelayer
  rw [feeMessage_credited] at hrun
  exact hrun

theorem fee_attesters : Attesters (· = feeMessage) := by
  refine ⟨fun m m' hm hm' _ => hm.trans hm'.symm, ?_⟩
  rintro m rfl
  decide +kernel

theorem fee_opening : Opening feeStart :=
  ⟨fun _ => ⟨rfl, nofun, rfl, rfl⟩, rfl, rfl, fun _ _ _ => rfl⟩

theorem fee_messages : VaultMessages testSdk testDeps (· = feeMessage) feeStart feeEvents :=
  deliveryEvents_messages feeMessage_forRelayer

/-- The delivery deposits more than the message minted, out of the relayer's own USDC. -/
theorem fee_relayer_pays :
    Attesters (· = feeMessage) ∧ Opening feeStart ∧
      VaultMessages testSdk testDeps (· = feeMessage) feeStart feeEvents ∧
      Run (service testSdk testDeps).Step feeStart feeEvents feeEnd ∧
      feeEnd.shared.ledger.mintedFor testRow.nonce < (feeEnd.shared.ledger.depositsFor ()).sum ∧
      feeEnd.shared.ledger.relayer < feeStart.shared.ledger.relayer :=
  ⟨fee_attesters, fee_opening, fee_messages, fee_run, by decide +kernel, by decide⟩

/-- In that run a deposit landed for a message with a fee. -/
theorem solvent_iff_fee :
    ∃ k v event v', StepAt (service testSdk testDeps).Step feeStart feeEvents k v event v' ∧
      ∃ i, ¬ Feeless i v.shared event := by
  by_contra hnone
  have hall := (solvent_iff fee_attesters fee_opening fee_messages).mpr
    fun k v event v' hat i => by_contra fun h => hnone ⟨k, v, event, v', hat, i, h⟩
  have hsplit : feeEvents = feeEvents.dropLast ++ [.settle () (.ok feeDelivered)] := rfl
  have hrun := fee_run
  rw [hsplit] at hrun hall
  rcases hrun.snoc_inv with ⟨v, before, hstep⟩
  have hbalance := (hall _ _ _ _ (StepAt.concat before hstep)).balance
  exact absurd hbalance (by decide)

end Lendoor.Cctp
