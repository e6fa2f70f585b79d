import Lendoor.Backend.TxSender
import Lendoor.Core.Paging

/-! # What has landed

The tasks of the queue, one after another, against the network: what lands stands in the
order of the tasks, and the outcome that a caller is told holds from then on.
-/

namespace Lendoor.Backend

open Cctp (Text)

namespace TxSender

open Ledger (Moves)

variable {ι ρ : Type} {env : SenderEnv} {net : Network ι ρ} {s s' t u : Ledger ι ρ} {tx : Tx ι ρ}
  {sent : List (Tx ι ρ)}
  {asked : List (Asked ι ρ)} {purpose : Text}

/-! ## A concrete network -/

/-- A hash that spells the transaction out. -/
def spelledHash (tx : Tx Unit Unit) : Text :=
  List.replicate tx.sequence '0' ++ 'a' ::
    (List.replicate tx.maxTime '0' ++ [if tx.sorobanData = none then 'b' else 'c'])

theorem spelledHash_injective : Function.Injective spelledHash := by
  intro tx tx' h
  have hsequence := congrArg (fun text : Text => (text.takeWhile (· = '0')).length) h
  have hlength := congrArg List.length h
  have htakeWhile : ∀ (n : Nat) (rest : Text),
      (List.replicate n '0' ++ 'a' :: rest).takeWhile (· = '0') = List.replicate n '0' := by
    intro n rest
    rw [List.takeWhile_append_of_pos (by simp), List.takeWhile_cons_of_neg (by decide),
      List.append_nil]
  rcases tx with ⟨⟨⟩, sequence, maxTime, data⟩
  rcases tx' with ⟨⟨⟩, sequence', maxTime', data'⟩
  simp only [spelledHash, htakeWhile, List.length_replicate] at hsequence
  simp only [spelledHash, List.length_append, List.length_cons, List.length_replicate,
    List.length_nil] at hlength
  subst hsequence
  have htime : maxTime = maxTime' := by omega
  subst htime
  cases data <;> cases data' <;> simp [spelledHash] at h ⊢

def calmNetwork : Network Unit Unit where
  hash := spelledHash
  rejects := fun _ => False
  skew := 1
  lag := 1000
  hash_injective := spelledHash_injective
  hash_hex := by
    intro tx c hc
    simp only [spelledHash, List.mem_append, List.mem_replicate, List.mem_cons,
      List.not_mem_nil, or_false] at hc
    rcases hc with ⟨-, rfl⟩ | rfl | ⟨-, rfl⟩ | rfl
    · simp
    · simp
    · simp
    · split <;> simp
  rejects_unmarked := fun _ h => h.elim

/-- Nodes that take every transaction, and land it at once or not at all. -/
def calmWorld (lands : Bool) (s : Ledger Unit Unit) :
    (ask : Ask Unit Unit) → Except SenderError (Answer ask) × Ledger Unit Unit
  | .dateNow => (.ok s.now, s)
  | .sleep ms => (.ok (), { s with now := s.now + max ms 60000 })
  | .getAccount => (.ok s.sequence, s)
  | .prepareTransaction _ => (.ok (), s)
  | .sendTransaction tx =>
      (.ok ⟨spelledHash tx, .pending⟩,
        if lands = true ∧ tx.sequence = s.sequence + 1 ∧ s.now / 1000 ≤ tx.maxTime + 1 then
          { s.queue tx with sequence := s.sequence + 1, landed := s.landed ++ [⟨tx, true, s.now⟩] }
        else s.queue tx)
  | .getTransaction hash =>
      (.ok (match s.landed.find? fun landing => spelledHash landing.tx = hash with
        | some landing => if landing.successful then .success 1 else .failed
        | none => .notFound), s)

theorem calmWorld_responds (lands : Bool) (s : Ledger Unit Unit) (ask : Ask Unit Unit) :
    Responds calmNetwork s ⟨ask, (calmWorld lands s ask).1⟩ (calmWorld lands s ask).2 := by
  cases ask with
  | dateNow => exact ⟨rfl, rfl⟩
  | sleep ms =>
      exact ⟨rfl, .single (.wait _ (Nat.le_add_right _ _)),
        Nat.add_le_add_left (Nat.le_max_left _ _) _⟩
  | getAccount => exact ⟨s, .refl, rfl, .refl⟩
  | prepareTransaction tx => exact .refl
  | sendTransaction tx =>
      refine ⟨s, .refl, rfl, ?_⟩
      change Moves calmNetwork (s.queue tx) (calmWorld lands s (.sendTransaction tx)).2
      dsimp only [calmWorld]
      split
      · rename_i hlands
        exact .single
          (.land (s := s.queue tx) tx true (List.mem_append_right _ (List.mem_singleton_self tx))
          hlands.2.1 hlands.2.2)
      · exact .refl
  | getTransaction hash =>
      refine ⟨s, .refl, ?_, .refl⟩
      split
      · rename_i landing hfound
        have hhash : spelledHash landing.tx = hash := by simpa using List.find?_some hfound
        split
        · rename_i hok
          exact ⟨landing, List.mem_of_find?_eq_some hfound, hhash, hok⟩
        · rename_i hok
          exact ⟨landing, List.mem_of_find?_eq_some hfound, hhash, by simpa using hok⟩
      · rename_i hnone
        intro landing hmem hhash
        have hother := List.find?_eq_none.mp hnone landing hmem
        exact absurd (decide_eq_true hhash) hother

/-- A task against such nodes. -/
def calmTask (lands : Bool) (s : Ledger Unit Unit) : Submission Unit Unit × Ledger Unit Unit :=
  let run :=
    Exec.simulate (calmWorld lands) s (sendLoanManagerCall fallbackEnv () "set_user_risk".toList)
  (⟨(), "set_user_risk".toList, run.1, run.2.1⟩, run.2.2)

/-- A task that is given up, then one that goes through. -/
def lostTask : Submission Unit Unit × Ledger Unit Unit := calmTask false (fresh 0 0)

def landedTask : Submission Unit Unit × Ledger Unit Unit := calmTask true lostTask.2

theorem twoTasks_run : Run (TaskStep fallbackEnv calmNetwork) (fresh 0 0)
    [some lostTask.1, some landedTask.1] landedTask.2 := by
  have htask : ∀ lands s,
      TaskStep fallbackEnv calmNetwork s (some (calmTask lands s).1) (calmTask lands s).2 :=
    fun lands s => .task (Exec.of_simulate (calmWorld_responds lands) _ s)
  exact (Run.single (htask false (fresh 0 0))).append (.single (htask true lostTask.2))

/-! ## The order of landings -/

/-- The landed transactions are among those handed in, by increasing numbers, each in its
time. Those handed in have the account's next number at most, none less than the ones
before. -/
structure Ordered (net : Network ι ρ) (sent : List (Tx ι ρ)) (s : Ledger ι ρ) : Prop where
  queued : ∀ tx ∈ s.queued, tx ∈ sent
  landed : ∀ landing ∈ s.landed, landing.tx ∈ sent ∧ landing.tx.sequence ≤ s.sequence
  increasing : s.landed.Pairwise fun l l' => l.tx.sequence < l'.tx.sequence
  built : sent.Pairwise fun tx tx' => tx.sequence ≤ tx'.sequence
  next : ∀ tx ∈ sent, tx.sequence ≤ s.sequence + 1
  inTime : ∀ landing ∈ s.landed, landing.InTime net

theorem Ordered.step (h : Ordered net sent s) (hstep : s.Step net s') : Ordered net sent s' := by
  cases hstep with
  | wait now hlater => exact ⟨h.queued, h.landed, h.increasing, h.built, h.next, h.inTime⟩
  | land tx successful hqueued hnext htime =>
      refine ⟨h.queued, fun landing hlanding => ?_, ?_, h.built,
        fun tx' hmem => (h.next tx' hmem).trans (Nat.le_succ _), fun landing hlanding => ?_⟩
      · rcases List.mem_append.mp hlanding with hold | hnew
        · exact ⟨(h.landed landing hold).1, (h.landed landing hold).2.trans (Nat.le_succ _)⟩
        · rw [List.mem_singleton.mp hnew]
          exact ⟨h.queued tx hqueued, hnext.le⟩
      · refine List.pairwise_append.mpr ⟨h.increasing, List.pairwise_singleton _ _,
          fun landing hold last hlast => ?_⟩
        rw [List.mem_singleton.mp hlast, hnext]
        exact Nat.lt_succ_of_le (h.landed landing hold).2
      · rcases List.mem_append.mp hlanding with hold | hnew
        · exact h.inTime landing hold
        · rw [List.mem_singleton.mp hnew]
          exact htime
  | other =>
      exact ⟨h.queued,
        fun landing hmem =>
        ⟨(h.landed landing hmem).1, (h.landed landing hmem).2.trans (Nat.le_succ _)⟩,
        h.increasing, h.built, fun tx hmem => (h.next tx hmem).trans (Nat.le_succ _), h.inTime⟩

theorem Ordered.exchanges (h : Ordered net sent s) (hrun : Run (Responds net) s asked s')
    (hsends : ∀ x ∈ asked, ∀ tx, x.1 = .sendTransaction tx → tx ∈ sent) : Ordered net sent s' := by
  refine (hrun.restrict hsends).invariant (fun s x s' h hx => ?_) h
  refine hx.1.keeps Ordered.step
    (fun hask h => ⟨fun tx hmem => ?_, h.landed, h.increasing, h.built, h.next, h.inTime⟩) h
  rcases List.mem_append.mp hmem with hold | hnew
  · exact h.queued tx hold
  · rw [List.mem_singleton.mp hnew]
    exact hx.2 _ hask

theorem Ordered.build (h : Ordered net sent s) (hbuilt : ∀ tx' ∈ sent, tx'.sequence ≤ tx.sequence)
    (hnext : tx.sequence ≤ s.sequence + 1) : Ordered net (sent ++ [tx]) s := by
  refine ⟨fun tx' hmem => List.mem_append_left _ (h.queued tx' hmem),
    fun landing hmem =>
    ⟨List.mem_append_left _ (h.landed landing hmem).1, (h.landed landing hmem).2⟩,
      h.increasing, ?_, ?_, h.inTime⟩
  · refine List.pairwise_append.mpr ⟨h.built, List.pairwise_singleton _ _,
      fun tx' hmem last hlast => ?_⟩
    rw [List.mem_singleton.mp hlast]
    exact hbuilt tx' hmem
  · intro tx' hmem
    rcases List.mem_append.mp hmem with hold | hnew
    · exact h.next tx' hold
    · rw [List.mem_singleton.mp hnew]
      exact hnext

/-- A task adds the transaction that it hands in. -/
theorem Ordered.task {invocation : ι} {out : Except SenderError Nat} (h : Ordered net sent s)
    (hrun : Exec (Responds net) s (sendLoanManagerCall env invocation purpose) asked out s') :
    Ordered net (sent ++ (sentTx? asked).toList) s' := by
  rcases sendLoanManagerCall_inv hrun with ⟨-, hnone, hsent⟩ |
    ⟨tx, t, before, rest, rfl, hnone, hsent, honly, hbefore, hrest, hlt, hle, -⟩
  · rw [hsent, Option.toList_none, List.append_nil]
    exact h.exchanges hrun.run fun x hx tx hask => absurd hask (hnone x hx tx)
  · rw [hsent, Option.toList_some]
    have hbuilding : Ordered net sent t :=
      h.exchanges hbefore fun x hx tx hask => absurd hask (hnone x hx tx)
    have hbuilt : Ordered net (sent ++ [tx]) t :=
      hbuilding.build (fun tx' hmem => (h.next tx' hmem).trans hlt) hle
    refine hbuilt.exchanges hrest.run fun x hx tx' hask => ?_
    rw [honly x hx tx' hask]
    exact List.mem_append_right _ (List.mem_singleton_self tx)

theorem ordered_fresh (now sequence : Nat) : Ordered net [] (fresh now sequence : Ledger ι ρ) :=
  ⟨by simp [fresh], by simp [fresh], .nil, .nil, by simp, by simp [fresh]⟩

theorem Ordered.run {labels : List (Option (Submission ι ρ))} (h : Ordered net sent s)
    (hrun : Run (TaskStep env net) s labels s') :
    Ordered net (sent ++ sentTxs labels) s' := by
  induction hrun with
  | nil => simpa [sentTxs] using h
  | snoc _ hstep ih =>
      cases hstep with
      | idle hidle => simpa [sentTxs] using ih.step hidle
      | @task _ submission hexec =>
          have htask := ih.task hexec
          cases hsent : sentTx? submission.asked <;> simpa [sentTxs, hsent] using htask

/-- Whatever fails on the way, and whatever the nodes report: what lands of the tasks of the
queue stands in the order of the tasks, and nothing lands twice. -/
theorem landed_sublist_sent {now sequence : Nat} {labels : List (Option (Submission ι ρ))}
    (hrun : Run (TaskStep env net) (fresh now sequence) labels t) :
    (t.landed.map Landing.tx).Sublist (sentTxs labels) ∧ (t.landed.map Landing.tx).Nodup := by
  have hordered : Ordered net (sentTxs labels) t := (ordered_fresh now sequence).run hrun
  have hgrow : KeysGrow Tx.sequence (t.landed.map Landing.tx) := by
    rw [KeysGrow, List.pairwise_map]
    exact hordered.increasing
  refine ⟨hgrow.sublist (fun tx hmem => ?_) hordered.built, hgrow.imp fun hlt heq => ?_⟩
  · rcases List.mem_map.mp hmem with ⟨landing, hlanding, rfl⟩
    exact (hordered.landed landing hlanding).1
  · rw [heq] at hlt
    exact Nat.lt_irrefl _ hlt

theorem landed_sublist_sent_twoTasks :
    (sentTxs [some lostTask.1, some landedTask.1]).map Tx.maxTime = [30, 330] ∧
    (landedTask.2.landed.map Landing.tx).map Tx.maxTime = [330] ∧
    (landedTask.2.landed.map Landing.tx).Sublist (sentTxs [some lostTask.1, some landedTask.1]) ∧
      (landedTask.2.landed.map Landing.tx).Nodup :=
  ⟨by decide +kernel, by decide +kernel, landed_sublist_sent twoTasks_run⟩

/-! ## What an outcome says -/

/-- A transaction whose time is up, and that has not landed, does not land. -/
theorem Later.not_landed (h : Later net s s') (hexpired : tx.maxTime + net.skew < s.now / 1000)
    (hnot : ∀ landing ∈ s.landed, landing.tx ≠ tx) : ∀ landing ∈ s'.landed, landing.tx ≠ tx := by
  rcases h.landed with ⟨more, hmore, hnew⟩
  intro landing hmem heq
  rw [hmore] at hmem
  rcases List.mem_append.mp hmem with hold | hlate
  · exact hnot landing hold heq
  · rcases hnew landing hlate with ⟨hafter, hin⟩
    rw [Landing.InTime, heq] at hin
    have htime := Nat.div_le_div_right (c := 1000) hafter
    omega

theorem Later.inTime (h : Later net s s') (hin : ∀ landing ∈ s.landed, landing.InTime net) :
    ∀ landing ∈ s'.landed, landing.InTime net := by
  rcases h.landed with ⟨more, hmore, hnew⟩
  intro landing hmem
  rw [hmore] at hmem
  rcases List.mem_append.mp hmem with hold | hlate
  · exact hin landing hold
  · exact (hnew landing hlate).2

theorem Later.mem (h : Later net s s') {landing : Landing ι ρ} (hmem : landing ∈ s.landed) :
    landing ∈ s'.landed := by
  rcases h.landed with ⟨more, hmore, -⟩
  rw [hmore]
  exact List.mem_append_left _ hmem

/-- The attempts to wait, all but the last, take longer than a transaction can still land, and
than a node may not know of it. -/
def Outlasts (env : SenderEnv) (net : Network ι ρ) : Prop :=
  1000 * (31 + net.skew) + net.lag ≤ (env.maxSendAttempts - 1) *
    (env.txConfirmTimeoutMs + 1000 * env.maxSendAttempts)

theorem Outlasts.spent (h : Outlasts env net) :
    1000 * (31 + net.skew) + net.lag ≤
      spent env.txConfirmTimeoutMs (fun attempt => 2000 * attempt) 1 (env.maxSendAttempts - 1) := by
  rw [spent_pauses]
  have hattempts : env.maxSendAttempts - 1 + 1 = env.maxSendAttempts :=
    Nat.succ_pred_eq_of_pos env.attempts_pos
  rw [Outlasts, ← hattempts] at h
  refine h.trans (le_of_eq ?_)
  generalize env.maxSendAttempts - 1 = left
  have hle : 1000 * left ≤ 1000 * left * (2 * 1 + left) := Nat.le_mul_of_pos_right _ (by omega)
  simp only [Nat.add_sub_cancel]
  zify [hle, Nat.le_add_left_of_le hle]
  ring

/-- What the outcome of a task says of its transaction, from then on. -/
structure Stands (env : SenderEnv) (net : Network ι ρ) (asked : List (Asked ι ρ))
    (out : Except SenderError Nat)
    (s : Ledger ι ρ) : Prop where
  success : ∀ ledger, out = .ok ledger → ∃ landing ∈ s.landed, sentTx? asked = some landing.tx ∧
    landing.successful = true
  failed : ∀ hash, out = .error (.txFailed hash) →
    ∃ landing ∈ s.landed, sentTx? asked = some landing.tx ∧ landing.successful = false
  timeout : ∀ hash, out = .error (.confirmTimeout hash) → Outlasts env net →
    ∀ landing ∈ s.landed, sentTx? asked ≠ some landing.tx
  finished : out ≠ .error .unfinished

theorem stands_of_send {error : SenderError} (h : error.ofSend = true) :
    Stands env net asked (.error error) s := by
  cases error with
  | tryAgainLater | sendFailed | rejected => exact ⟨by simp, by simp, by simp, by simp⟩
  | txFailed | confirmTimeout | noAttempt | unfinished => cases h

/-- A node that does not know the hash after all but the last attempt never will. -/
theorem notFound_stands (houtlasts : Outlasts env net)
    (hin : ∀ landing ∈ s.landed, landing.InTime net)
    (htime : tx.maxTime ≤ s.now / 1000 + 30)
    (hspent : s.now +
      spent env.txConfirmTimeoutMs (fun attempt => 2000 * attempt) 1 (env.maxSendAttempts - 1) ≤
      t.now)
    (hlater : Later net s t) (hanswered : Answered net t (net.hash tx) .notFound s')
    (hafter : Later net s' u) :
    ∀ landing ∈ u.landed, landing.tx ≠ tx := by
  rcases hanswered with ⟨v, hbefore, hseen, hrest⟩
  have hlong := houtlasts.spent
  have hv := hbefore.now
  refine (hrest.trans hafter).not_landed (by omega) fun landing hmem heq => ?_
  have hlag := hseen landing hmem (congrArg net.hash heq)
  have hclosed := (hlater.trans hbefore).inTime hin landing hmem
  rw [Landing.InTime, heq] at hclosed
  omega

theorem waiting_stands {all : List (Asked ι ρ)} {out : Except SenderError Nat}
    (h : Exec (Responds net) s (waitForTransactionWithRetry env (net.hash tx) purpose) asked out s')
    (hsent : sentTx? all = some tx) (htime : tx.maxTime ≤ s.now / 1000 + 30)
    (hin : ∀ landing ∈ s.landed, landing.InTime net) (hafter : Later net s' u) :
    Stands env net all out u := by
  rcases waitForTransactionWithRetry_inv h with ⟨t, hlater, hends, hspent⟩
  rcases hends with ⟨ledger, rfl, v, -, ⟨landing, hmem, hhash, hok⟩, hrest⟩ |
    ⟨rfl, v, -, ⟨landing, hmem, hhash, hok⟩, hrest⟩ |
    ⟨rfl, -, hanswered⟩ | ⟨text, -, rfl⟩
  · have htx : landing.tx = tx := net.hash_injective hhash
    exact ⟨fun _ _ => ⟨landing, (hrest.trans hafter).mem hmem, by rw [hsent, htx], hok⟩,
      by simp, by simp, by simp⟩
  · have htx : landing.tx = tx := net.hash_injective hhash
    exact ⟨by simp, fun _ _ => ⟨landing, (hrest.trans hafter).mem hmem, by rw [hsent, htx], hok⟩,
      by simp, by simp⟩
  · refine ⟨by simp, by simp, fun _ _ houtlasts landing hmem heq => ?_, by simp⟩
    have hnotFound := hanswered (Nat.lt_add_of_pos_right env.timeout_pos)
    rw [hsent] at heq
    exact notFound_stands houtlasts hin htime (hspent rfl) hlater hnotFound hafter landing hmem
      (Option.some.inj heq).symm
  · exact stands_of_send rfl

theorem task_stands {invocation : ι} {out : Except SenderError Nat}
    (hin : ∀ landing ∈ s.landed, landing.InTime net)
    (h : Exec (Responds net) s (sendLoanManagerCall env invocation purpose) asked out s')
    (hafter : Later net s' u) :
    Stands env net asked out u := by
  rcases sendLoanManagerCall_inv h with ⟨⟨text, rfl⟩, -⟩ |
    ⟨tx, t, before, rest, rfl, -, hsent, -, hbefore, hsubmit, -, -, htime⟩
  · exact stands_of_send rfl
  · rcases hsubmit.bind_inv with ⟨error, hsend, rfl⟩ |
      ⟨result, v, sending, waiting, rfl, hsend, hwait⟩
    · exact stands_of_send ((sendPreparedTransaction_inv hsend).2.2 error rfl)
    · rw [(sendPreparedTransaction_inv hsend).2.1 result rfl] at hwait
      have hsending : Later net t v := .exchanges hsend.run
      have hnow := Nat.div_le_div_right (c := 1000) hsending.now
      exact waiting_stands hwait hsent (htime.trans (Nat.add_le_add_right hnow 30))
        (((Later.exchanges hbefore).trans hsending).inTime hin) hafter

theorem TaskStep.later {label : Option (Submission ι ρ)} (h : TaskStep env net s label s') :
    Later net s s' := by
  cases h with
  | idle hstep => exact hstep.later
  | task hrun => exact .exchanges hrun.run

/-- What a task of the queue tells its caller holds from then on, whatever later tasks do: a
call said to be confirmed has landed, one said to have failed has landed without effect, and
one given up for the time, where the attempts outlast the time bound, never lands. -/
theorem outcome_stands {now sequence : Nat} {labels : List (Option (Submission ι ρ))}
    {submission : Submission ι ρ}
    (hrun : Run (TaskStep env net) (fresh now sequence) labels t)
    (hmem : some submission ∈ labels) :
    Stands env net submission.asked submission.out t := by
  rcases List.append_of_mem hmem with ⟨before, after, rfl⟩
  rcases hrun.append_inv with ⟨s₁, hbefore, hrest⟩
  rcases hrest.cons_inv with ⟨s₂, hstep, hafter⟩
  have hordered : Ordered net ([] ++ sentTxs before) s₁ := (ordered_fresh now sequence).run hbefore
  have hlater : Later net s₂ t :=
    hafter.invariant (P := Later net s₂) (fun _ _ _ hlater h => hlater.trans h.later) (.refl s₂)
  cases hstep with
  | task hexec => exact task_stands hordered.inTime hexec hlater

theorem outcome_stands_twoTasks :
    Outlasts fallbackEnv calmNetwork ∧ (∃ hash, lostTask.1.out = .error (.confirmTimeout hash)) ∧
    Stands fallbackEnv calmNetwork lostTask.1.asked lostTask.1.out landedTask.2 :=
  ⟨by unfold Outlasts; decide, ⟨_, rfl⟩, outcome_stands twoTasks_run (by simp)⟩

end TxSender

end Lendoor.Backend
