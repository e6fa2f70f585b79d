import Lendoor.Core.Retries
import Lendoor.Cctp.Message
import Mathlib.Data.List.Infix
import Mathlib.Logic.Relation

/-! # The transaction sender

`sendLoanManagerCall` of `sorobanConfig`: what a task of the queue does. It builds a
transaction for the operator's account, hands it in until a node takes it, and asks for it
until it has landed or the time is up. The queue runs its tasks one after another.

The operator's account has a sequence number. A ledger takes a transaction with the next
number whose time bound has not passed, and the number moves on.
-/

namespace Lendoor.Backend

open Cctp (Text)

namespace TxSender

open Async (call retrying Exchange AsksOnly)

/-! ## The code -/

/-- `CLM_TX_CONFIRM_TIMEOUT_MS` and `CLM_SEND_MAX_ATTEMPTS`, as `positiveIntEnv` admits
them. -/
structure SenderEnv where
  txConfirmTimeoutMs : Nat
  maxSendAttempts : Nat
  timeout_pos : 0 < txConfirmTimeoutMs
  attempts_pos : 0 < maxSendAttempts

/-- What the two are where the environment does not say. -/
def fallbackEnv : SenderEnv := ⟨60000, 3, by decide, by decide⟩

/-- A signed transaction: a method with its arguments, and what the simulation adds. -/
structure Tx (ι ρ : Type) where
  invocation : ι
  sequence : Nat
  maxTime : Nat
  sorobanData : Option ρ
  deriving DecidableEq

inductive SendStatus
  | pending
  | duplicate
  | tryAgainLater
  | error
  deriving DecidableEq

structure SendResponse where
  hash : Text
  status : SendStatus

inductive TxStatus
  | success (ledger : Nat)
  | failed
  | notFound

/-- What the sender throws, and what the client of the node rejects with. -/
inductive SenderError
  | tryAgainLater (hash : Text)
  | sendFailed (purpose hash : Text)
  | txFailed (hash : Text)
  | confirmTimeout (hash : Text)
  | noAttempt (text : Text)
  | rejected (text : Text)
  | unfinished
  deriving DecidableEq

def SenderError.message (env : SenderEnv) : SenderError → Text
  | .tryAgainLater hash => "TRY_AGAIN_LATER ".toList ++ hash
  | .sendFailed purpose hash => "Soroban send failed for ".toList ++ purpose ++ ": ".toList ++ hash
  | .txFailed hash => "Soroban tx failed: ".toList ++ hash
  | .confirmTimeout hash => "TX_CONFIRM_TIMEOUT: ".toList ++ hash ++ " not confirmed in ".toList ++
      (toString env.txConfirmTimeoutMs).toList ++ "ms".toList
  | .noAttempt text => text
  | .rejected text => text
  | .unfinished => []

/-- The calls of a task. Between two calls there is no await, and no time passes. -/
inductive Ask (ι ρ : Type)
  | dateNow
  | getAccount
  | prepareTransaction (tx : Tx ι ρ)
  | sendTransaction (tx : Tx ι ρ)
  | getTransaction (hash : Text)
  | sleep (ms : Nat)

variable {ι ρ : Type}

abbrev Answer : Ask ι ρ → Type
  | .dateNow => Nat
  | .getAccount => Nat
  | .prepareTransaction _ => ρ
  | .sendTransaction _ => SendResponse
  | .getTransaction _ => TxStatus
  | .sleep _ => Unit

abbrev Asked (ι ρ : Type) : Type := Exchange (Ask ι ρ) Answer SenderError

abbrev Prog (ι ρ : Type) : Type → Type := Async (Ask ι ρ) Answer SenderError

variable (env : SenderEnv)

def isRetryableSendError (error : SenderError) : Bool :=
  "TRY_AGAIN_LATER".toList <:+: error.message env

/-- `/TX_CONFIRM_TIMEOUT/i` -/
def confirmMarked (text : Text) : Bool := "TX_CONFIRM_TIMEOUT".toList <:+: text.map Char.toUpper

def isRetryableConfirmError (error : SenderError) : Bool := confirmMarked (error.message env)

/-- `await sleep(2000 * attempt)` -/
def pause (attempt : Nat) : Prog ι ρ Unit := call (Ask.sleep (2000 * attempt))

/-- The body of the loop that hands a transaction in. -/
def sendOnce (purpose : Text) (prepared : Tx ι ρ) : Prog ι ρ SendResponse := do
  let result ← call (.sendTransaction prepared)
  match result.status with
  | .tryAgainLater => .throw (.tryAgainLater result.hash)
  | .error => .throw (.sendFailed purpose result.hash)
  | .pending | .duplicate => pure result

def sendPreparedTransaction (purpose : Text) (prepared : Tx ι ρ) : Prog ι ρ SendResponse :=
  retrying (isRetryableSendError env) pause (sendOnce purpose prepared)
    (.noAttempt (purpose ++ " send failed".toList)) 1
    env.maxSendAttempts

/-- The loop of `waitForTransaction`, for at most `fuel` rounds. -/
def poll (hash : Text) (start : Nat) : Nat → Prog ι ρ Nat
  | 0 => .throw .unfinished
  | fuel + 1 => do
      let now ← call .dateNow
      if now - start < env.txConfirmTimeoutMs then
        let status ← call (.getTransaction hash)
        match (status : TxStatus) with
        | .success ledger => pure ledger
        | .failed => .throw (.txFailed hash)
        | .notFound => do
            call (Ask.sleep 1000)
            poll hash start fuel
      else .throw (.confirmTimeout hash)

/-- Each round but the last sleeps a second, so that the rounds suffice. -/
def waitForTransaction (hash : Text) : Prog ι ρ Nat := do
  let start ← call .dateNow
  poll env hash start (env.txConfirmTimeoutMs / 1000 + 2)

def waitForTransactionWithRetry (hash purpose : Text) : Prog ι ρ Nat :=
  retrying (isRetryableConfirmError env) pause (waitForTransaction env hash)
    (.noAttempt (purpose ++ " confirmation failed for ".toList ++ hash)) 1 env.maxSendAttempts

/-- The builder takes the number after the account's, and `setTimeout(30)` bounds the time. -/
def buildContractTransaction (invocation : ι) : Prog ι ρ (Tx ι ρ) := do
  let sequence ← call .getAccount
  let now ← call .dateNow
  pure ⟨invocation, sequence + 1, now / 1000 + 30, none⟩

/-- Hand in, then wait. -/
def submit (prepared : Tx ι ρ) (purpose : Text) : Prog ι ρ Nat := do
  let sent ← sendPreparedTransaction env (purpose ++ ":send".toList) prepared
  waitForTransactionWithRetry env sent.hash purpose

def sendLoanManagerCall (invocation : ι) (purpose : Text) : Prog ι ρ Nat := do
  let tx ← buildContractTransaction invocation
  let data ← call (.prepareTransaction tx)
  submit env { tx with sorobanData := some data } purpose

/-! ## The operator's account -/

structure Landing (ι ρ : Type) where
  tx : Tx ι ρ
  successful : Bool
  closedAt : Nat

/-- The clock, in ms, the operator's sequence number, the transactions that nodes have
taken, and those that have landed, in order. -/
structure Ledger (ι ρ : Type) where
  now : Nat
  sequence : Nat
  queued : List (Tx ι ρ)
  landed : List (Landing ι ρ)

/-- The network: hashes tell transactions apart, the clocks of the ledgers are at most `skew`
seconds behind, and a node knows what landed `lag` ms ago. -/
structure Network (ι ρ : Type) where
  hash : Tx ι ρ → Text
  rejects : Text → Prop
  skew : Nat
  lag : Nat
  hash_injective : Function.Injective hash
  hash_hex : ∀ tx, ∀ c ∈ hash tx, c ∈ "0123456789abcdef".toList
  rejects_unmarked : ∀ text, rejects text → confirmMarked text = false

namespace Ledger

/-- The network on its own. A node may drop what it has taken, or land it at any time. -/
inductive Step (net : Network ι ρ) : Ledger ι ρ → Ledger ι ρ → Prop
  | wait {s : Ledger ι ρ} (now : Nat) (hlater : s.now ≤ now) : Step net s { s with now := now }
  | land {s : Ledger ι ρ} (tx : Tx ι ρ) (successful : Bool) (hqueued : tx ∈ s.queued)
      (hnext : tx.sequence = s.sequence + 1)
      (htime : s.now / 1000 ≤ tx.maxTime + net.skew) :
      Step net s
        { s with sequence := s.sequence + 1, landed := s.landed ++ [⟨tx, successful, s.now⟩] }
  | other {s : Ledger ι ρ} : Step net s { s with sequence := s.sequence + 1 }

abbrev Moves (net : Network ι ρ) : Ledger ι ρ → Ledger ι ρ → Prop :=
  Relation.ReflTransGen (Step net)

def queue (s : Ledger ι ρ) (tx : Tx ι ρ) : Ledger ι ρ := { s with queued := s.queued ++ [tx] }

end Ledger

open Ledger (Moves)

def SendStatus.taken : SendStatus → Bool
  | .pending | .duplicate => true
  | .tryAgainLater | .error => false

/-- What a node may answer about a hash. -/
def Seen (net : Network ι ρ) (s : Ledger ι ρ) (hash : Text) : TxStatus → Prop
  | .success _ => ∃ landing ∈ s.landed, net.hash landing.tx = hash ∧ landing.successful = true
  | .failed => ∃ landing ∈ s.landed, net.hash landing.tx = hash ∧ landing.successful = false
  | .notFound => ∀ landing ∈ s.landed, net.hash landing.tx = hash →
      s.now < landing.closedAt + net.lag

/-- The answers to a task, the network going on meanwhile. A call that fails on the way may
have handed the transaction in. -/
def Responds (net : Network ι ρ) : Ledger ι ρ → Asked ι ρ → Ledger ι ρ → Prop
  | s, ⟨.dateNow, r⟩, s' => r = .ok s.now ∧ s' = s
  | s, ⟨.sleep ms, r⟩, s' => r = .ok () ∧ Moves net s s' ∧ s.now + ms ≤ s'.now
  | s, ⟨.getAccount, .ok sequence⟩, s' =>
      ∃ t, Moves net s t ∧ sequence = t.sequence ∧ Moves net t s'
  | s, ⟨.prepareTransaction _, .ok _⟩, s' => Moves net s s'
  | s, ⟨.sendTransaction tx, .ok response⟩, s' => ∃ t, Moves net s t ∧ response.hash = net.hash tx ∧
      Moves net (if response.status.taken then t.queue tx else t) s'
  | s, ⟨.getTransaction hash, .ok status⟩, s' =>
      ∃ t, Moves net s t ∧ Seen net t hash status ∧ Moves net t s'
  | s, ⟨ask, .error error⟩, s' => (∃ text, net.rejects text ∧ error = .rejected text) ∧
      ∃ t, Moves net s t ∧
      (Moves net t s' ∨ ∃ tx, ask = .sendTransaction tx ∧ Moves net (t.queue tx) s')

/-! ## The queue's tasks, one after another -/

/-- A task that has run: its call, what it exchanged and how it ended. -/
structure Submission (ι ρ : Type) where
  invocation : ι
  purpose : Text
  asked : List (Asked ι ρ)
  out : Except SenderError Nat

/-- The transaction that a task hands in. -/
def sentTx? (asked : List (Asked ι ρ)) : Option (Tx ι ρ) :=
  asked.findSome? fun
    | ⟨.sendTransaction tx, _⟩ => some tx
    | _ => none

/-- A task runs to its end, or the network goes on. -/
inductive TaskStep (net : Network ι ρ) : Ledger ι ρ → Option (Submission ι ρ) → Ledger ι ρ → Prop
  | idle {s s' : Ledger ι ρ} (hstep : s.Step net s') : TaskStep net s none s'
  | task {s s' : Ledger ι ρ} {submission : Submission ι ρ}
      (hrun : Exec (Responds net) s
        (sendLoanManagerCall env submission.invocation submission.purpose) submission.asked
        submission.out s') : TaskStep net s (some submission) s'

/-- The transactions handed in, in the order of the tasks. -/
def sentTxs (labels : List (Option (Submission ι ρ))) : List (Tx ι ρ) :=
  labels.filterMap fun label => label.bind fun submission => sentTx? submission.asked

/-- The account before the first task. -/
def fresh (now sequence : Nat) : Ledger ι ρ := ⟨now, sequence, [], []⟩

variable {env : SenderEnv} {net : Network ι ρ} {s s' t u : Ledger ι ρ} {tx : Tx ι ρ}
  {sent : List (Tx ι ρ)}
  {asked : List (Asked ι ρ)} {hash purpose : Text}

/-! ## What a call leaves -/

def Landing.InTime (net : Network ι ρ) (landing : Landing ι ρ) : Prop :=
  landing.closedAt / 1000 ≤ landing.tx.maxTime + net.skew

/-- A ledger and a later one. -/
structure Later (net : Network ι ρ) (s s' : Ledger ι ρ) : Prop where
  now : s.now ≤ s'.now
  sequence : s.sequence ≤ s'.sequence
  landed : ∃ more, s'.landed = s.landed ++ more ∧
    ∀ landing ∈ more, s.now ≤ landing.closedAt ∧ landing.InTime net

theorem Later.refl (s : Ledger ι ρ) : Later net s s := ⟨le_rfl, le_rfl, [], by simp⟩

theorem Later.trans (h : Later net s t) (h' : Later net t u) : Later net s u := by
  rcases h.landed with ⟨more, hmore, hnew⟩
  rcases h'.landed with ⟨more', hmore', hnew'⟩
  refine ⟨h.now.trans h'.now, h.sequence.trans h'.sequence, more ++ more',
    by rw [hmore', hmore, List.append_assoc], ?_⟩
  intro landing hlanding
  rcases List.mem_append.mp hlanding with hfirst | hsecond
  · exact hnew landing hfirst
  · exact ⟨h.now.trans (hnew' landing hsecond).1, (hnew' landing hsecond).2⟩

theorem Ledger.Step.later (h : s.Step net s') : Later net s s' := by
  cases h with
  | wait now hlater => exact ⟨hlater, le_rfl, [], by simp⟩
  | land tx successful hqueued hnext htime =>
      exact ⟨le_rfl, Nat.le_succ _, _, rfl, by simpa [Landing.InTime] using htime⟩
  | other => exact ⟨le_rfl, Nat.le_succ _, [], by simp⟩

theorem Later.moves (h : Moves net s s') : Later net s s' := by
  induction h with
  | refl => exact .refl s
  | tail _ hstep ih => exact ih.trans hstep.later

theorem Later.queue (h : Later net (s.queue tx) s') : Later net s s' :=
  ⟨h.now, h.sequence, h.landed⟩

/-- What the network keeps, and keeps with a transaction more, every exchange keeps. -/
theorem Responds.keeps {P : Ledger ι ρ → Prop} {x : Asked ι ρ} (hx : Responds net s x s')
    (hstep : ∀ {s s' : Ledger ι ρ}, P s → s.Step net s' → P s')
    (hqueue : ∀ {s : Ledger ι ρ} {tx}, x.1 = .sendTransaction tx → P s → P (s.queue tx)) (h : P s) :
    P s' := by
  have hmoves : ∀ {s s' : Ledger ι ρ}, P s → Moves net s s' → P s' := by
    intro s s' h hmoves
    induction hmoves with
    | refl => exact h
    | tail _ hnext ih => exact hstep ih hnext
  rcases x with ⟨ask, error | answer⟩
  · have herror : ∃ t, Moves net s t ∧
        (Moves net t s' ∨ ∃ tx, ask = .sendTransaction tx ∧ Moves net (t.queue tx) s') ∨
        s' = s := by
      cases ask with
      | dateNow => cases hx.1
      | sleep => cases hx.1
      | _ => exact hx.2.imp fun _ => .inl
    rcases herror with ⟨t, ⟨hbefore, hafter | ⟨tx, rfl, hafter⟩⟩ | rfl⟩
    · exact hmoves (hmoves h hbefore) hafter
    · exact hmoves (hqueue rfl (hmoves h hbefore)) hafter
    · exact h
  cases ask with
  | dateNow =>
      rw [hx.2]
      exact h
  | sleep ms => exact hmoves h hx.2.1
  | getAccount =>
      rcases hx with ⟨t, hbefore, -, hafter⟩
      exact hmoves (hmoves h hbefore) hafter
  | prepareTransaction tx => exact hmoves h hx
  | sendTransaction tx =>
      rcases hx with ⟨t, hbefore, -, hafter⟩
      refine hmoves ?_ hafter
      split
      · exact hqueue rfl (hmoves h hbefore)
      · exact hmoves h hbefore
  | getTransaction hash =>
      rcases hx with ⟨t, hbefore, -, hafter⟩
      exact hmoves (hmoves h hbefore) hafter

theorem Responds.later {x : Asked ι ρ} (hx : Responds net s x s') : Later net s s' :=
  hx.keeps (P := Later net s) (fun h hstep => h.trans hstep.later)
    (fun _ h => ⟨h.now, h.sequence, h.landed⟩) (.refl s)

theorem Later.exchanges (h : Run (Responds net) s asked s') : Later net s s' :=
  h.invariant (P := Later net s) (fun _ _ _ hlater hx => hlater.trans hx.later) (.refl s)

/-! ## Waiting -/

/-- A node has answered about a hash on the way. -/
def Answered (net : Network ι ρ) (s : Ledger ι ρ) (hash : Text) (status : TxStatus)
    (s' : Ledger ι ρ) : Prop :=
  ∃ t, Later net s t ∧ Seen net t hash status ∧ Later net t s'

theorem Answered.of_later {status : TxStatus} (h : Later net s t)
    (h' : Answered net t hash status s') :
    Answered net s hash status s' := by
  rcases h' with ⟨u, hbefore, hseen, hafter⟩
  exact ⟨u, h.trans hbefore, hseen, hafter⟩

/-- How a wait ends: a node has said that the transaction landed, or that it failed, or the
time is up, or the client of the node has rejected. -/
def WaitEnds (env : SenderEnv) (net : Network ι ρ) (s : Ledger ι ρ) (start : Nat) (hash : Text)
    (out : Except SenderError Nat)
    (s' : Ledger ι ρ) : Prop :=
  (∃ ledger, out = .ok ledger ∧ Answered net s hash (.success ledger) s') ∨
    (out = .error (.txFailed hash) ∧ Answered net s hash .failed s') ∨
    (out = .error (.confirmTimeout hash) ∧ start + env.txConfirmTimeoutMs ≤ s'.now ∧
      (s.now < start + env.txConfirmTimeoutMs → Answered net s hash .notFound s')) ∨
    ∃ text, net.rejects text ∧ out = .error (.rejected text)

theorem poll_inv {start fuel : Nat} {out : Except SenderError Nat}
    (h : Exec (Responds net) s (poll env hash start (fuel + 1)) asked out s')
    (hstart : start ≤ s.now) (hfuel : env.txConfirmTimeoutMs ≤ s.now - start + 1000 * fuel) :
    WaitEnds env net s start hash out s' := by
  induction fuel generalizing s asked with
  | zero =>
      rcases h.call_bind_inv with ⟨error, -, hx, -⟩ | ⟨now, t, rest, -, hx, hrest⟩
      · cases hx.1
      · rcases hx with ⟨hnow, rfl⟩
        cases hnow
        rw [if_neg (by omega)] at hrest
        rcases Exec.throw_iff.mp hrest with ⟨-, rfl, rfl⟩
        exact .inr (.inr (.inl ⟨rfl, by omega, fun hin => by omega⟩))
  | succ fuel ih =>
      rcases h.call_bind_inv with ⟨error, -, hx, -⟩ | ⟨now, t, rest, -, hx, hrest⟩
      · cases hx.1
      rcases hx with ⟨hnow, rfl⟩
      cases hnow
      by_cases hin : t.now - start < env.txConfirmTimeoutMs
      · rw [if_pos hin] at hrest
        rcases hrest.call_bind_inv with ⟨error, -, hx, rfl⟩ | ⟨status, v, rest', -, hx, hrest'⟩
        · rcases hx.1 with ⟨text, hrejects, rfl⟩
          exact .inr (.inr (.inr ⟨text, hrejects, rfl⟩))
        have hlater := hx.later
        rcases hx with ⟨w, hbefore, hseen, hafter⟩
        have hanswered : Answered net t hash status v := ⟨w, .moves hbefore, hseen, .moves hafter⟩
        cases status with
        | success ledger =>
            rcases Exec.pure_iff.mp hrest' with ⟨-, rfl, rfl⟩
            exact .inl ⟨ledger, rfl, hanswered⟩
        | failed =>
            rcases Exec.throw_iff.mp hrest' with ⟨-, rfl, rfl⟩
            exact .inr (.inl ⟨rfl, hanswered⟩)
        | notFound =>
            rcases hrest'.call_bind_inv with ⟨error, -, hx, -⟩ | ⟨_, y, rest'', -, hx, hmore⟩
            · cases hx.1
            have hslept := hlater.trans hx.later
            have htime : v.now + 1000 ≤ y.now := hx.2.2
            have hv := hlater.now
            have hnext := ih hmore (by omega) (by omega)
            rcases hnext with ⟨ledger, rfl, hok⟩ | ⟨rfl, hfailed⟩ | ⟨rfl, hup, -⟩ | hrejected
            · exact .inl ⟨ledger, rfl, .of_later hslept hok⟩
            · exact .inr (.inl ⟨rfl, .of_later hslept hfailed⟩)
            · rcases hanswered with ⟨w, hbefore, hseen, hafter⟩
              refine .inr (.inr (.inl ⟨rfl, hup, fun _ => ⟨w, hbefore, hseen, ?_⟩⟩))
              exact hafter.trans (hx.later.trans (.exchanges hmore.run))
            · exact .inr (.inr (.inr hrejected))
      · rw [if_neg hin] at hrest
        rcases Exec.throw_iff.mp hrest with ⟨-, rfl, rfl⟩
        exact .inr (.inr (.inl ⟨rfl, by omega, fun hin => by omega⟩))

theorem waitForTransaction_inv {out : Except SenderError Nat}
    (h : Exec (Responds net) s (waitForTransaction env hash) asked out s') :
    WaitEnds env net s s.now hash out s' := by
  rcases h.call_bind_inv with ⟨error, -, hx, -⟩ | ⟨now, t, rest, -, hx, hrest⟩
  · cases hx.1
  · rcases hx with ⟨hnow, rfl⟩
    cases hnow
    exact poll_inv hrest le_rfl (by omega)

theorem confirmMarked_iff {text : Text} :
    confirmMarked text = true ↔ "TX_CONFIRM_TIMEOUT".toList <:+: text.map Char.toUpper :=
  decide_eq_true_iff

/-- What is marked has an underscore. -/
theorem confirmMarked_of_plain {text : Text} (h : '_' ∉ text.map Char.toUpper) :
    confirmMarked text = false := by
  rw [Bool.eq_false_iff, ne_eq, confirmMarked_iff]
  intro hwithin
  exact h (hwithin.subset (by simp))

theorem confirmMarked_prefix (rest : Text) :
    confirmMarked ("TX_CONFIRM_TIMEOUT: ".toList ++ rest) = true := by
  have hupper : "TX_CONFIRM_TIMEOUT: ".toList.map Char.toUpper = "TX_CONFIRM_TIMEOUT".toList ++
      ": ".toList := by decide +kernel
  rw [confirmMarked_iff, List.map_append, hupper, List.append_assoc]
  exact (List.prefix_append _ _).isInfix

theorem isRetryableConfirmError_txFailed (env : SenderEnv) (net : Network ι ρ) (tx : Tx ι ρ) :
    isRetryableConfirmError env (.txFailed (net.hash tx)) = false := by
  change confirmMarked ("Soroban tx failed: ".toList ++ net.hash tx) = false
  refine confirmMarked_of_plain ?_
  rw [List.map_append, List.mem_append, not_or]
  refine ⟨by decide +kernel, fun hmem => ?_⟩
  rcases List.mem_map.mp hmem with ⟨c, hc, hupper⟩
  have hhex : "0123456789abcdef".toList.all (fun c => c.toUpper != '_') = true := by decide +kernel
  exact absurd hupper (bne_iff_ne.mp (List.all_eq_true.mp hhex c (net.hash_hex tx c hc)))

theorem isRetryableConfirmError_confirmTimeout (env : SenderEnv) (hash : Text) :
    isRetryableConfirmError env (.confirmTimeout hash) = true := by
  change confirmMarked ("TX_CONFIRM_TIMEOUT: ".toList ++ hash ++ " not confirmed in ".toList ++
    (toString env.txConfirmTimeoutMs).toList ++ "ms".toList) = true
  rw [List.append_assoc, List.append_assoc, List.append_assoc]
  exact confirmMarked_prefix _

theorem pause_inv {attempt : Nat} {out : Except SenderError Unit}
    (h : Exec (Responds net) s (pause attempt) asked out s') :
    out = .ok () ∧ s.now + 2000 * attempt ≤ s'.now :=
  ⟨h.call_inv.2.1, h.call_inv.2.2.2⟩

/-- Each attempt but the last has waited for the whole time, and paused. -/
theorem waitForTransactionWithRetry_inv {out : Except SenderError Nat}
    (h : Exec (Responds net) s (waitForTransactionWithRetry env (net.hash tx)
      purpose) asked out s') :
    ∃ t, Later net s t ∧ WaitEnds env net t t.now (net.hash tx) out s' ∧
      (out = .error (.confirmTimeout (net.hash tx)) →
      s.now + spent env.txConfirmTimeoutMs (fun attempt => 2000 * attempt) 1
        (env.maxSendAttempts - 1) ≤ t.now) := by
  have hattempts : env.maxSendAttempts - 1 + 1 = env.maxSendAttempts :=
    Nat.succ_pred_eq_of_pos env.attempts_pos
  rw [waitForTransactionWithRetry, ← hattempts] at h
  have hbody : ∀ {s s' : Ledger ι ρ} {asked error},
      Exec (Responds net) s (waitForTransaction env (net.hash tx)) asked (.error error) s' →
        isRetryableConfirmError env error = true → s.now + env.txConfirmTimeoutMs ≤ s'.now := by
    intro s s' asked error hrun hretry
    rcases waitForTransaction_inv hrun with ⟨ledger, hout, -⟩ | ⟨hout, -⟩ | ⟨-, hup, -⟩ |
      ⟨text, hrejects, hout⟩
    · cases hout
    · cases hout
      rw [isRetryableConfirmError_txFailed] at hretry
      cases hretry
    · exact hup
    · cases hout
      have hunmarked : confirmMarked text = true := hretry
      rw [net.rejects_unmarked text hrejects] at hunmarked
      cases hunmarked
  rcases Exec.retrying_last Ledger.now hbody pause_inv h
    with ⟨t, before, after, rfl, hrun, hlast, htime⟩
  exact ⟨t, .exchanges hrun, waitForTransaction_inv hlast,
    fun hout => htime _ hout (isRetryableConfirmError_confirmTimeout env _)⟩

theorem spent_pauses (time attempt left : Nat) :
    spent time (fun attempt => 2000 * attempt) attempt left = left * time + 1000 * left *
      (2 * attempt + left) - 1000 * left := by
  induction left generalizing attempt with
  | zero => simp [spent]
  | succ left ih =>
      rw [spent, ih]
      have hle : 1000 * left ≤ 1000 * left * (2 * (attempt + 1) + left) :=
        Nat.le_mul_of_pos_right _ (by omega)
      have hle' : 1000 * (left + 1) ≤ 1000 * (left + 1) * (2 * attempt + (left + 1)) :=
        Nat.le_mul_of_pos_right _ (by omega)
      zify [hle, hle', Nat.le_add_left_of_le hle, Nat.le_add_left_of_le hle']
      ring

/-! ## One task -/

/-- The exchanges hand in one transaction only. -/
def SendsOnly (tx : Tx ι ρ) (asked : List (Asked ι ρ)) : Prop :=
  ∀ x ∈ asked, ∀ tx', x.1 = .sendTransaction tx' → tx' = tx

/-- The exchanges hand in nothing. -/
def Sendless (asked : List (Asked ι ρ)) : Prop := ∀ x ∈ asked, ∀ tx, x.1 ≠ .sendTransaction tx

theorem sentTx?_eq (honly : SendsOnly tx asked) (hsent : ∃ x ∈ asked, x.1 = .sendTransaction tx) :
    sentTx? asked = some tx := by
  induction asked with
  | nil => simp at hsent
  | cons x rest ih =>
      rcases x with ⟨ask, r⟩
      by_cases hsend : ∃ tx', ask = .sendTransaction tx'
      · rcases hsend with ⟨tx', rfl⟩
        rw [honly _ List.mem_cons_self tx' rfl]
        rfl
      · have hrest : ∃ x ∈ rest, x.1 = .sendTransaction tx := by
          rcases hsent with ⟨y, hy, hyask⟩
          rcases List.mem_cons.mp hy with rfl | hy
          · exact absurd ⟨tx, hyask⟩ hsend
          · exact ⟨y, hy, hyask⟩
        rw [← ih (fun y hy => honly y (List.mem_cons_of_mem _ hy)) hrest]
        cases ask with
        | sendTransaction tx' => exact absurd ⟨tx', rfl⟩ hsend
        | _ => rfl

/-- What the calls of a task may ask, once its transaction is built. -/
def Sends (tx : Tx ι ρ) : Ask ι ρ → Prop
  | .sendTransaction tx' => tx' = tx
  | _ => True

theorem submit_asks (env : SenderEnv) (tx : Tx ι ρ) (purpose : Text) :
    (submit env tx purpose).AsksOnly (Sends tx) := by
  have hpause : ∀ attempt, (pause attempt : Prog ι ρ Unit).AsksOnly (Sends tx) :=
    fun attempt => .call trivial
  have hpoll : ∀ hash start fuel,
      (poll env hash start fuel : Prog ι ρ Nat).AsksOnly (Sends tx) := by
    intro hash start fuel
    induction fuel with
    | zero => trivial
    | succ fuel ih =>
        refine .bind (.call trivial) fun now => ?_
        split
        · refine .bind (.call trivial) fun status => ?_
          cases status with
          | notFound => exact .bind (.call trivial) fun _ => ih
          | success | failed => trivial
        · trivial
  have hsend : ∀ purpose, (sendOnce purpose tx : Prog ι ρ SendResponse).AsksOnly (Sends tx) := by
    intro purpose
    refine .bind (.call rfl) fun result => ?_
    cases result.status <;> trivial
  have hwait : ∀ hash, (waitForTransaction env hash : Prog ι ρ Nat).AsksOnly (Sends tx) :=
    fun hash => .bind (.call trivial) fun start => hpoll hash start _
  exact .bind (.retrying hpause (hsend _) _ _) fun sent => .retrying hpause (hwait _) _ _

theorem sendOnce_ok {result : SendResponse}
    (h : Exec (Responds net) s (sendOnce purpose tx) asked (.ok result) s') :
    result.hash = net.hash tx := by
  rcases h.call_bind_inv with ⟨error, -, -, hout⟩ | ⟨response, t, rest, -, hx, hrest⟩
  · cases hout
  · rcases hx with ⟨u, -, hhash, -⟩
    rcases response with ⟨hash, status⟩
    cases status with
    | pending | duplicate =>
        rcases Exec.pure_iff.mp hrest with ⟨-, hout, -⟩
        cases hout
        exact hhash
    | tryAgainLater | error =>
        rcases Exec.throw_iff.mp hrest with ⟨-, hout, -⟩
        cases hout

/-- What handing in throws. -/
def SenderError.ofSend : SenderError → Bool
  | .tryAgainLater _ | .sendFailed _ _ | .rejected _ => true
  | _ => false

theorem sendOnce_error {error : SenderError}
    (h : Exec (Responds net) s (sendOnce purpose tx) asked (.error error) s') :
    error.ofSend = true := by
  rcases h.call_bind_inv with ⟨error', -, hx, hout⟩ | ⟨response, t, rest, -, -, hrest⟩
  · cases hout
    rcases hx.1 with ⟨text, -, rfl⟩
    rfl
  · rcases response with ⟨hash, status⟩
    cases status with
    | pending | duplicate =>
        rcases Exec.pure_iff.mp hrest with ⟨-, hout, -⟩
        cases hout
    | tryAgainLater | error =>
        rcases Exec.throw_iff.mp hrest with ⟨-, hout, -⟩
        cases hout
        rfl

theorem sendPreparedTransaction_inv {out : Except SenderError SendResponse}
    (h : Exec (Responds net) s (sendPreparedTransaction env purpose tx) asked out s') :
    (∃ x ∈ asked, x.1 = .sendTransaction tx) ∧
      (∀ result, out = .ok result → result.hash = net.hash tx) ∧
      ∀ error, out = .error error → error.ofSend = true := by
  have hattempts : env.maxSendAttempts - 1 + 1 = env.maxSendAttempts :=
    Nat.succ_pred_eq_of_pos env.attempts_pos
  rw [sendPreparedTransaction, ← hattempts] at h
  have hbody : ∀ {s s' : Ledger ι ρ} {asked error},
      Exec (Responds net) s (sendOnce purpose tx) asked (.error error) s' →
      isRetryableSendError env error = true → s.now + 0 ≤ s'.now :=
      fun hrun _ => (Later.exchanges hrun.run).now
  rcases Exec.retrying_last Ledger.now hbody pause_inv h with ⟨t, before, after, rfl, -, hlast, -⟩
  refine ⟨?_, fun result hout => ?_, fun error hout => ?_⟩
  · rcases hlast.call_bind_inv with ⟨error, rfl, -⟩ | ⟨response, u, rest, rfl, -⟩
    · exact ⟨_, List.mem_append_right _ List.mem_cons_self, rfl⟩
    · exact ⟨_, List.mem_append_right _ List.mem_cons_self, rfl⟩
  · rw [hout] at hlast
    exact sendOnce_ok hlast
  · rw [hout] at hlast
    exact sendOnce_error hlast

/-- A task throws before it has a transaction to hand in, or hands in one that it has built
with the account's next number, and for the next half minute. -/
theorem sendLoanManagerCall_inv {invocation : ι} {out : Except SenderError Nat}
    (h : Exec (Responds net) s (sendLoanManagerCall env invocation purpose) asked out s') :
    (∃ text, out = .error (.rejected text)) ∧ Sendless asked ∧ sentTx? asked = none ∨
      ∃ tx t before rest, asked = before ++ rest ∧ Sendless before ∧
        sentTx? asked = some tx ∧ SendsOnly tx rest ∧
        Run (Responds net) s before t ∧ Exec (Responds net) t (submit env tx purpose) rest out s' ∧
        s.sequence < tx.sequence ∧ tx.sequence ≤ t.sequence + 1 ∧
          tx.maxTime ≤ t.now / 1000 + 30 := by
  rcases h.bind_inv with ⟨error, hbuild, rfl⟩ | ⟨built, t₁, asked₁, rest₁, rfl, hbuild, hprepare⟩
  · rcases hbuild.call_bind_inv with ⟨error', rfl, hx, hout⟩ | ⟨sequence, t, rest, rfl, -, hrest⟩
    · rcases hx.1 with ⟨text, -, rfl⟩
      cases hout
      exact .inl ⟨⟨text, rfl⟩, by simp [Sendless], rfl⟩
    · rcases hrest.call_bind_inv with ⟨error', -, hx, -⟩ | ⟨now, t', rest', -, -, hrest'⟩
      · cases hx.1
      · rcases Exec.pure_iff.mp hrest' with ⟨-, hout, -⟩
        cases hout
  · rcases hbuild.call_bind_inv with ⟨error', -, -, hout⟩ | ⟨sequence, v, rest, rfl, hget, hrest⟩
    · cases hout
    rcases hrest.call_bind_inv with ⟨error', -, hx, -⟩ | ⟨now, v', rest', rfl, hnow, hrest'⟩
    · cases hx.1
    rcases Exec.pure_iff.mp hrest' with ⟨rfl, hbuilt, rfl⟩
    cases hbuilt
    rcases hnow with ⟨hnow, rfl⟩
    cases hnow
    rcases hprepare.call_bind_inv with ⟨error, rfl, hx, rfl⟩ | ⟨data, t, rest, rfl, hx, hsubmit⟩
    · rcases hx.1 with ⟨text, -, rfl⟩
      exact .inl ⟨⟨text, rfl⟩, by simp [Sendless], rfl⟩
    · let tx : Tx ι ρ := ⟨invocation, sequence + 1, t₁.now / 1000 + 30, some data⟩
      have honly : SendsOnly tx rest := by
        intro x hx tx' hask
        have hsends := (submit_asks env tx purpose).of_mem_trace hsubmit.trace x hx
        rwa [hask] at hsends
      have hsent : ∃ x ∈ rest, x.1 = .sendTransaction tx := by
        rcases hsubmit.bind_inv with ⟨error, hsend, -⟩ |
          ⟨result, u, sending, waiting, rfl, hsend, -⟩
        · exact (sendPreparedTransaction_inv hsend).1
        · rcases (sendPreparedTransaction_inv hsend).1 with ⟨x, hx, hask⟩
          exact ⟨x, List.mem_append_left _ hx, hask⟩
      have hfirst := sentTx?_eq honly hsent
      have hlater := hx.later
      rcases hget with ⟨w, hbefore, rfl, hafter⟩
      have hnext := (Later.moves hafter).sequence
      refine .inr ⟨tx, t, [⟨.getAccount, .ok w.sequence⟩, ⟨.dateNow, .ok t₁.now⟩,
        ⟨.prepareTransaction _, .ok data⟩], rest, rfl, by simp [Sendless], hfirst, honly, ?_,
        hsubmit, ?_, ?_, ?_⟩
      · exact hbuild.run.append (.single hx)
      · exact Nat.lt_succ_of_le (Later.moves hbefore).sequence
      · exact Nat.succ_le_succ (hnext.trans hlater.sequence)
      · exact Nat.add_le_add_right (Nat.div_le_div_right hlater.now) 30

end TxSender

end Lendoor.Backend
