import Lendoor.Core.Runs
import Mathlib.Algebra.GroupWithZero.Nat
import Mathlib.Data.List.Perm.Basic
import Mathlib.Data.List.Nodup
import Mathlib.Logic.Function.Basic

/-! # The transaction queue

The queue of the backend's signer: two lanes, a flag and callbacks of the event loop.
`sorobanConfig` and `contractConfig` hold the same code. A step is an arrival, a
callback of the loop, the end of a task's function, or its `finally`; arrivals may come
between any two others.
-/

namespace Lendoor.Backend

inductive TxPriority
  | high
  | low
  deriving DecidableEq, Repr

variable {ε α : Type}

/-- The module's state and what the event loop holds for it: `setImmediate(dispatch)`
callbacks that have not run, the tasks whose `finally` has not run, each with whether
its function has ended, and the promises of the callers. -/
structure TxQueue (ε α : Type) where
  highQueue : List Nat
  lowQueue : List Nat
  processing : Bool
  immediates : Nat
  running : List (Nat × Bool)
  promises : Nat → Option (Except ε α)
  next : Nat

namespace TxQueue

def empty : TxQueue ε α := ⟨[], [], false, 0, [], fun _ => none, 0⟩

/-- The lane of a priority. -/
def lane (s : TxQueue ε α) : TxPriority → List Nat
  | .high => s.highQueue
  | .low => s.lowQueue

/-- `processing = true; next()` -/
def start (s : TxQueue ε α) (task : Nat) : TxQueue ε α :=
  { s with processing := true, running := (task, false) :: s.running }

/-- The callback, with what it picked. -/
def dispatch (s : TxQueue ε α) : TxQueue ε α × Option (TxPriority × Nat) :=
  if s.processing then (s, none)
  else
    match s.highQueue with
    | task :: rest => ({ s with highQueue := rest }.start task, some (.high, task))
    | [] =>
        match s.lowQueue with
        | task :: rest => ({ s with lowQueue := rest }.start task, some (.low, task))
        | [] => (s, none)

/-- `setImmediate(dispatch)` -/
def setImmediate (s : TxQueue ε α) : TxQueue ε α := { s with immediates := s.immediates + 1 }

/-- `enqueueSoroban`, `enqueue`: the task goes to its lane and a callback is scheduled. -/
def enqueue (s : TxQueue ε α) (priority : TxPriority) : TxQueue ε α :=
  let pushed : TxQueue ε α :=
    match priority with
    | .high => { s with highQueue := s.highQueue ++ [s.next] }
    | .low => { s with lowQueue := s.lowQueue ++ [s.next] }
  { pushed with next := s.next + 1 }.setImmediate

/-- Resolve or reject a caller's promise, which settles once. -/
def settlePromise (s : TxQueue ε α) (task : Nat) (outcome : Except ε α) : TxQueue ε α :=
  { s with promises := Function.update s.promises task (some ((s.promises task).getD outcome)) }

/-- `try { resolve(await fn()) } catch (e) { reject(e) }` -/
def wrapped (s : TxQueue ε α) (task : Nat) (outcome : Except ε α) : TxQueue ε α :=
  let ended := { s with running := s.running.map fun r : Nat × Bool =>
    if r.1 = task then (task, true) else r }
  match outcome with
  | .ok value => ended.settlePromise task (.ok value)
  | .error e => ended.settlePromise task (.error e)

/-- The `finally` of a task. -/
def finish (s : TxQueue ε α) (task : Nat) : TxQueue ε α :=
  { s with processing := false, running := s.running.filter fun r : Nat ×
    Bool => r.1 ≠ task }.setImmediate

end TxQueue

inductive QueueEvent (ε α : Type)
  | enqueue (task : Nat) (priority : TxPriority)
  | dispatch (picked : Option (TxPriority × Nat))
  | settle (task : Nat) (outcome : Except ε α)
  | finish (task : Nat)

namespace TxQueue

/-- A running task's function may end at any time, with any outcome. -/
inductive Step : TxQueue ε α → QueueEvent ε α → TxQueue ε α → Prop
  | enqueue (s : TxQueue ε α) (priority : TxPriority) :
      Step s (.enqueue s.next priority) (s.enqueue priority)
  | dispatch (s : TxQueue ε α) : 0 < s.immediates →
      Step s (.dispatch s.dispatch.2) { s.dispatch.1 with immediates := s.immediates - 1 }
  | settle (s : TxQueue ε α) (task : Nat) (outcome : Except ε α) : (task, false) ∈ s.running →
      Step s (.settle task outcome) (s.wrapped task outcome)
  | finish (s : TxQueue ε α) (task : Nat) : (task, true) ∈ s.running →
      Step s (.finish task) (s.finish task)

/-- What a callback does: nothing while a task runs or with empty lanes, else it starts
the first task of the first lane that is not empty. -/
theorem dispatch_cases (s : TxQueue ε α) :
    (s.dispatch = (s, none) ∧
      (s.processing = true ∨ s.highQueue = [] ∧ s.lowQueue = [])) ∨
    (∃ task rest, s.processing = false ∧ s.highQueue = task :: rest ∧
      s.dispatch = ({ s with highQueue := rest }.start task, some (.high, task))) ∨
    ∃ task rest, s.processing = false ∧ s.highQueue = [] ∧ s.lowQueue = task :: rest ∧
      s.dispatch = ({ s with lowQueue := rest }.start task, some (.low, task)) := by
  unfold dispatch
  cases hprocessing : s.processing with
  | true => exact .inl ⟨rfl, .inl rfl⟩
  | false =>
      cases hhigh : s.highQueue with
      | cons task rest => exact .inr (.inl ⟨task, rest, rfl, rfl, rfl⟩)
      | nil =>
          cases hlow : s.lowQueue with
          | cons task rest => exact .inr (.inr ⟨task, rest, rfl, rfl, rfl, rfl⟩)
          | nil => exact .inl ⟨rfl, .inr ⟨rfl, rfl⟩⟩

/-! ## Histories -/

/-- The tasks enqueued with a priority, in order. -/
def enqueued (p : TxPriority) (events : List (QueueEvent ε α)) : List Nat :=
  events.filterMap fun
    | .enqueue task priority => if priority = p then some task else none
    | _ => none

/-- The tasks picked by callbacks, in order, each with the lane it was in. -/
def picked (events : List (QueueEvent ε α)) : List (TxPriority × Nat) :=
  events.filterMap fun
    | .dispatch picked => picked
    | _ => none

def started (p : TxPriority) (events : List (QueueEvent ε α)) : List Nat :=
  ((picked events).filter fun pick => pick.1 = p).map Prod.snd

/-- The steps of the event loop itself. -/
def loopSteps (events : List (QueueEvent ε α)) : Nat :=
  events.countP fun
    | .enqueue _ _ => false
    | _ => true

/-- How many tasks were enqueued. -/
def arrivals (events : List (QueueEvent ε α)) : Nat :=
  (enqueued .high events).length + (enqueued .low events).length

/-- What an end of the history adds to the tasks picked. -/
theorem picked_snoc (events : List (QueueEvent ε α)) (event : QueueEvent ε α) :
    picked (events ++ [event]) = picked events ++ picked [event] := by
  simp [picked]

/-- An event that picks nothing. -/
theorem picked_quiet {event : QueueEvent ε α} (h : picked [event] = [])
    (events : List (QueueEvent ε α)) :
    picked (events ++ [event]) = picked events := by
  rw [picked_snoc, h, List.append_nil]

theorem started_snoc (p : TxPriority) (events : List (QueueEvent ε α)) (event : QueueEvent ε α) :
    started p (events ++ [event]) = started p events ++ started p [event] := by
  simp [started, picked_snoc]

theorem enqueued_snoc (p : TxPriority) (events : List (QueueEvent ε α)) (event : QueueEvent ε α) :
    enqueued p (events ++ [event]) = enqueued p events ++ enqueued p [event] := by
  simp [enqueued]

theorem loopSteps_snoc (events : List (QueueEvent ε α)) (event : QueueEvent ε α) :
    loopSteps (events ++ [event]) = loopSteps events + loopSteps [event] := by
  simp [loopSteps]

theorem arrivals_snoc (events : List (QueueEvent ε α)) (event : QueueEvent ε α) :
    arrivals (events ++ [event]) = arrivals events + arrivals [event] := by
  simp only [arrivals, enqueued_snoc, List.length_append]
  omega

/-! ## The invariant -/

/-- Work left in the event loop. Every step of the loop takes some of it away. -/
def potential (s : TxQueue ε α) : Nat :=
  4 * (s.highQueue.length + s.lowQueue.length) +
    (s.running.map fun r => if r.2 then 2 else 3).sum + s.immediates

/-- What holds after every history. -/
structure Serial (events : List (QueueEvent ε α)) (s : TxQueue ε α) : Prop where
  order : ∀ p, started p events ++ s.lane p = enqueued p events
  placed : ((picked events).map Prod.snd ++ (s.highQueue ++ s.lowQueue)).Perm (List.range s.next)
  idle : s.processing = false → s.running = []
  busy : s.processing = true → ∃ r, s.running = [r]
  awake : s.processing = false → s.highQueue ++ s.lowQueue ≠ [] → 0 < s.immediates
  settled : ∀ task outcome, s.promises task = some outcome ↔ .settle task outcome ∈ events
  unsettled : ∀ task, (task, false) ∈ s.running → s.promises task = none
  flying : ∀ r ∈ s.running, r.1 ∈ (picked events).map Prod.snd
  begun : ∀ task, s.promises task ≠ none → task ∈ (picked events).map Prod.snd
  ended : ∀ task ∈ (picked events).map Prod.snd, (task, false) ∈ s.running ∨ s.promises task ≠ none
  spent : potential s + loopSteps events ≤ 5 * arrivals events

theorem serial_empty : Serial ([] : List (QueueEvent ε α)) empty where
  order := fun p => by cases p <;> rfl
  placed := List.Perm.refl []
  idle := fun _ => rfl
  busy := fun h => absurd h (by simp [empty])
  awake := fun _ h => absurd rfl h
  settled := fun _ _ => by simp [empty]
  unsettled := fun _ h => absurd h (by simp [empty])
  flying := fun _ h => absurd h (by simp [empty])
  begun := fun _ h => absurd rfl h
  ended := fun _ h => absurd h (by simp [picked])
  spent := Nat.le_refl 0

namespace Serial

variable {events : List (QueueEvent ε α)} {s : TxQueue ε α}

theorem enqueue (h : Serial events s) (priority : TxPriority) :
    Serial (events ++ [.enqueue s.next priority]) (s.enqueue priority) where
  order := by
    intro p
    rw [started_snoc, enqueued_snoc, ← h.order p]
    cases priority <;> cases p <;>
      simp [TxQueue.enqueue, setImmediate, lane, started, picked, enqueued]
  placed := by
    have hmore : ((picked events).map Prod.snd ++ (s.highQueue ++ s.lowQueue) ++ [s.next]).Perm
        (List.range (s.next + 1)) := by
      rw [List.range_succ]
      exact h.placed.append_right _
    rw [picked_quiet rfl]
    refine List.Perm.trans ?_ hmore
    rw [List.append_assoc]
    refine List.Perm.append_left _ ?_
    cases priority with
    | high =>
        change (s.highQueue ++ [s.next] ++ s.lowQueue).Perm _
        rw [List.append_assoc, List.append_assoc]
        exact List.Perm.append_left _ List.perm_append_comm
    | low =>
        change (s.highQueue ++ (s.lowQueue ++ [s.next])).Perm _
        rw [List.append_assoc]
  idle := by cases priority <;> exact h.idle
  busy := by cases priority <;> exact h.busy
  awake := by
    intro _ _
    cases priority <;> exact Nat.succ_pos _
  settled := by
    intro task outcome
    rw [List.mem_append, ← h.settled task outcome]
    cases priority <;> simp [TxQueue.enqueue, setImmediate]
  unsettled := by cases priority <;> exact h.unsettled
  flying := by
    rw [picked_quiet rfl]
    cases priority <;> exact h.flying
  begun := by
    rw [picked_quiet rfl]
    cases priority <;> exact h.begun
  ended := by
    rw [picked_quiet rfl]
    cases priority <;> exact h.ended
  spent := by
    have hspent := h.spent
    have hloop : loopSteps (events ++ [.enqueue s.next priority]) = loopSteps events := by
      rw [loopSteps_snoc]
      rfl
    have harrivals : arrivals (events ++ [.enqueue s.next priority]) = arrivals events + 1 := by
      rw [arrivals_snoc]
      cases priority <;> rfl
    rw [hloop, harrivals]
    cases priority <;>
      simp only [potential, TxQueue.enqueue, setImmediate, List.length_append,
        List.length_singleton] at hspent ⊢ <;> omega

/-- A callback that starts nothing. -/
theorem dispatch_idle (h : Serial events s) (hpending : 0 < s.immediates)
    (hidle : s.processing = true ∨ s.highQueue = [] ∧ s.lowQueue = []) :
    Serial (events ++ [.dispatch none]) { s with immediates := s.immediates - 1 } := by
  have hpicked : picked (events ++ [.dispatch none]) = picked events := picked_quiet rfl events
  constructor
  · intro p
    rw [started, hpicked, enqueued_snoc]
    simpa [enqueued, lane, started] using h.order p
  · rw [hpicked]
    exact h.placed
  · exact h.idle
  · exact h.busy
  · intro hprocessing hqueued
    rcases hidle with hbusy | ⟨hhigh, hlow⟩
    · rw [hbusy] at hprocessing
      exact absurd hprocessing (by decide)
    · exact absurd (by rw [hhigh, hlow]; rfl) hqueued
  · intro task outcome
    rw [List.mem_append, ← h.settled task outcome]
    simp
  · exact h.unsettled
  · rw [hpicked]
    exact h.flying
  · rw [hpicked]
    exact h.begun
  · rw [hpicked]
    exact h.ended
  · have hspent := h.spent
    have hloop : loopSteps (events ++ [.dispatch none]) = loopSteps events + 1 := loopSteps_snoc _ _
    have harrivals : arrivals (events ++ [.dispatch none]) = arrivals events := arrivals_snoc _ _
    rw [hloop, harrivals]
    simp only [potential] at hspent ⊢
    omega

/-- A callback that starts the first task of lane `p`. -/
structure Picks (s : TxQueue ε α) (p : TxPriority) (task : Nat) (t : TxQueue ε α) : Prop where
  taken : s.lane p = task :: t.lane p
  kept : ∀ p', p' ≠ p → t.lane p' = s.lane p'
  processing : t.processing = true
  running : t.running = [(task, false)]
  promises : t.promises = s.promises
  next : t.next = s.next
  immediates : t.immediates + 1 = s.immediates

/-- The tasks waiting lose the one that was picked. -/
theorem Picks.waiting {p : TxPriority} {task : Nat} {t : TxQueue ε α} (hpick : Picks s p task t) :
    (s.highQueue ++ s.lowQueue).Perm (task :: (t.highQueue ++ t.lowQueue)) := by
  cases p with
  | high =>
      have htaken : s.highQueue = task :: t.highQueue := hpick.taken
      have hkept : t.lowQueue = s.lowQueue := hpick.kept .low (by decide)
      rw [htaken, hkept]
      exact List.Perm.refl _
  | low =>
      have htaken : s.lowQueue = task :: t.lowQueue := hpick.taken
      have hkept : t.highQueue = s.highQueue := hpick.kept .high (by decide)
      rw [htaken, hkept]
      exact List.perm_middle

theorem dispatch_picks (h : Serial events s) (hidle : s.processing = false) {p : TxPriority}
    {task : Nat} {t : TxQueue ε α} (hpick : Picks s p task t) :
    Serial (events ++ [.dispatch (some (p, task))]) t := by
  have hpicked : picked (events ++ [.dispatch (some (p, task))]) = picked events ++ [(p, task)] :=
    picked_snoc _ _
  have hplaced : (((picked events).map Prod.snd ++ [task]) ++ (t.highQueue ++ t.lowQueue)).Perm
      (List.range s.next) := by
    refine List.Perm.trans ?_ h.placed
    rw [List.append_assoc]
    exact (hpick.waiting.symm).append_left _
  have hfresh : s.promises task = none := by
    by_contra hpromise
    have hbegun := h.begun task hpromise
    have hnodup := (hplaced.nodup_iff.mpr List.nodup_range).of_append_left
    exact (List.disjoint_of_nodup_append hnodup) hbegun (List.mem_singleton.mpr rfl)
  constructor
  · intro p'
    have horder := h.order p'
    rw [started_snoc, enqueued_snoc, ← horder]
    by_cases hp : p' = p
    · subst hp
      rw [hpick.taken]
      simp [started, picked, enqueued]
    · rw [hpick.kept p' hp]
      simp [started, picked, enqueued, Ne.symm hp]
  · rw [hpicked, List.map_append, hpick.next]
    exact hplaced
  · intro hfalse
    rw [hpick.processing] at hfalse
    exact absurd hfalse (by decide)
  · intro _
    exact ⟨_, hpick.running⟩
  · intro hfalse
    rw [hpick.processing] at hfalse
    exact absurd hfalse (by decide)
  · intro task' outcome
    rw [List.mem_append, ← h.settled task' outcome, hpick.promises]
    simp
  · intro task' hrunning
    rw [hpick.running, List.mem_singleton] at hrunning
    rw [hpick.promises, (Prod.mk.inj hrunning).1]
    exact hfresh
  · intro r hr
    rw [hpick.running, List.mem_singleton] at hr
    rw [hpicked, hr]
    simp
  · intro task' hpromise
    rw [hpick.promises] at hpromise
    rw [hpicked, List.map_append]
    exact List.mem_append_left _ (h.begun task' hpromise)
  · intro task' hmem
    rw [hpicked, List.map_append] at hmem
    rw [hpick.running, hpick.promises]
    rcases List.mem_append.mp hmem with hold | hnew
    · rcases h.ended task' hold with hrunning | hpromise
      · rw [h.idle hidle] at hrunning
        exact absurd hrunning (by simp)
      · exact .inr hpromise
    · have heq : task' = task := by simpa using hnew
      exact .inl (by simp [heq])
  · have hspent := h.spent
    have hloop : loopSteps (events ++ [.dispatch (some (p, task))]) = loopSteps events + 1 :=
      loopSteps_snoc _ _
    have hwaiting := hpick.waiting.length_eq
    have himmediates := hpick.immediates
    have harrivals : arrivals (events ++ [.dispatch (some (p, task))]) = arrivals events :=
      arrivals_snoc _ _
    rw [hloop, harrivals]
    simp only [potential, hpick.running, h.idle hidle, List.map_cons, List.map_nil, List.sum_cons,
      List.sum_nil, List.length_append, List.length_cons] at hspent hwaiting ⊢
    simp only [Bool.false_eq_true, if_false]
    omega

/-- The step of a callback. -/
theorem dispatch (h : Serial events s) (hpending : 0 < s.immediates) :
    Serial (events ++ [.dispatch s.dispatch.2])
      { s.dispatch.1 with immediates := s.immediates - 1 } := by
  rcases dispatch_cases s with ⟨heq, hidle⟩ | ⟨task, rest, hidle, hhigh, heq⟩ |
      ⟨task, rest, hidle, hhigh, hlow, heq⟩
  · rw [heq]
    exact h.dispatch_idle hpending hidle
  · rw [heq]
    refine h.dispatch_picks hidle ⟨hhigh, ?_, rfl, ?_, rfl, rfl, by simp only; omega⟩
    · intro p' hp
      cases p' with
      | high => exact absurd rfl hp
      | low => rfl
    · simp [TxQueue.start, h.idle hidle]
  · rw [heq]
    refine h.dispatch_picks hidle ⟨hlow, ?_, rfl, ?_, rfl, rfl, by simp only; omega⟩
    · intro p' hp
      cases p' with
      | high => rfl
      | low => exact absurd rfl hp
    · simp [TxQueue.start, h.idle hidle]

/-- Nothing else runs beside a running task. -/
theorem running_eq (h : Serial events s) {r : Nat × Bool} (hr : r ∈ s.running) :
    s.processing = true ∧ s.running = [r] := by
  cases hprocessing : s.processing with
  | false =>
      rw [h.idle hprocessing] at hr
      exact absurd hr (by simp)
  | true =>
      rcases h.busy hprocessing with ⟨r', hr'⟩
      rw [hr', List.mem_singleton] at hr
      exact ⟨rfl, by rw [hr', hr]⟩

theorem settle (h : Serial events s) {task : Nat} (outcome : Except ε α)
    (hrunning : (task, false) ∈ s.running) :
    Serial (events ++ [.settle task outcome]) (s.wrapped task outcome) := by
  rcases h.running_eq hrunning with ⟨hprocessing, honly⟩
  have hwrapped : s.wrapped task outcome =
      { s with
        running := [(task, true)]
        promises := Function.update s.promises task (some outcome) } := by
    cases outcome <;> simp [wrapped, settlePromise, honly, h.unsettled task hrunning]
  have hpicked : picked (events ++ [.settle task outcome]) = picked events :=
    picked_quiet rfl events
  rw [hwrapped]
  constructor
  · intro p
    rw [started, hpicked, enqueued_snoc]
    simpa [enqueued, lane, started] using h.order p
  · rw [hpicked]
    exact h.placed
  · intro hfalse
    rw [hprocessing] at hfalse
    exact absurd hfalse (by decide)
  · exact fun _ => ⟨_, rfl⟩
  · intro hfalse
    rw [hprocessing] at hfalse
    exact absurd hfalse (by decide)
  · intro task' outcome'
    rw [List.mem_append, ← h.settled task' outcome', List.mem_singleton]
    by_cases heq : task' = task
    · subst heq
      simp [h.unsettled task' hrunning, eq_comm]
    · simp [heq]
  · intro task' hunsettled
    simp at hunsettled
  · intro r hr
    rw [List.mem_singleton.mp hr, hpicked]
    exact h.flying (task, false) hrunning
  · intro task' hpromise
    rw [hpicked]
    by_cases heq : task' = task
    · subst heq
      exact h.flying _ hrunning
    · simp only [Function.update_of_ne heq] at hpromise
      exact h.begun task' hpromise
  · intro task' hmem
    rw [hpicked] at hmem
    right
    simp only
    by_cases heq : task' = task
    · subst heq
      rw [Function.update_self]
      simp
    · rw [Function.update_of_ne heq]
      rcases h.ended task' hmem with hold | hpromise
      · rw [honly, List.mem_singleton] at hold
        exact absurd (Prod.mk.inj hold).1 heq
      · exact hpromise
  · have hspent := h.spent
    have hloop : loopSteps (events ++ [.settle task outcome]) = loopSteps events + 1 :=
      loopSteps_snoc _ _
    have harrivals : arrivals (events ++ [.settle task outcome]) = arrivals events :=
      arrivals_snoc _ _
    rw [hloop, harrivals]
    simp only [potential, honly, List.map_cons, List.map_nil, List.sum_cons, List.sum_nil]
      at hspent ⊢
    simp only [Bool.false_eq_true, if_false, if_true] at hspent ⊢
    omega

theorem finish (h : Serial events s) {task : Nat} (hrunning : (task, true) ∈ s.running) :
    Serial (events ++ [.finish task]) (s.finish task) := by
  rcases h.running_eq hrunning with ⟨-, honly⟩
  have hfinish : s.finish task =
      { s with processing := false, running := [], immediates := s.immediates + 1 } := by
    simp [TxQueue.finish, setImmediate, honly]
  have hpicked : picked (events ++ [.finish task]) = picked events := picked_quiet rfl events
  rw [hfinish]
  constructor
  · intro p
    rw [started, hpicked, enqueued_snoc]
    simpa [enqueued, lane, started] using h.order p
  · rw [hpicked]
    exact h.placed
  · exact fun _ => rfl
  · intro htrue
    exact absurd htrue (by simp)
  · intro _ _
    exact Nat.succ_pos _
  · intro task' outcome
    rw [List.mem_append, ← h.settled task' outcome]
    simp
  · intro task' hunsettled
    simp at hunsettled
  · intro r hr
    simp at hr
  · rw [hpicked]
    exact h.begun
  · intro task' hmem
    rw [hpicked] at hmem
    rcases h.ended task' hmem with hold | hpromise
    · rw [honly, List.mem_singleton] at hold
      exact absurd (Prod.mk.inj hold).2 (by decide)
    · exact .inr hpromise
  · have hspent := h.spent
    have hloop : loopSteps (events ++ [.finish task]) = loopSteps events + 1 := loopSteps_snoc _ _
    have harrivals : arrivals (events ++ [.finish task]) = arrivals events := arrivals_snoc _ _
    rw [hloop, harrivals]
    simp only [potential, honly, List.map_cons, List.map_nil, List.sum_cons, List.sum_nil]
      at hspent ⊢
    simp only [if_true] at hspent
    omega

theorem step (h : Serial events s) {event : QueueEvent ε α} {t : TxQueue ε α}
    (hstep : Step s event t) : Serial (events ++ [event]) t := by
  cases hstep with
  | enqueue priority => exact h.enqueue priority
  | dispatch hpending => exact h.dispatch hpending
  | settle task outcome hrunning => exact h.settle outcome hrunning
  | finish task hrunning => exact h.finish hrunning

end Serial

theorem serial_run {events : List (QueueEvent ε α)} {s : TxQueue ε α}
    (run : Run Step empty events s) : Serial events s := by
  induction run with
  | nil => exact serial_empty
  | snoc _ hstep ih => exact ih.step hstep

/-! ## The queue's law -/

/-- The loop has nothing left to do: no callback is pending and every task has ended. -/
def Quiet (s : TxQueue ε α) : Prop := s.immediates = 0 ∧ s.running = []

theorem Serial.not_processing {events : List (QueueEvent ε α)} {s : TxQueue ε α}
    (h : Serial events s) (hidle : s.running = []) : s.processing = false := by
  cases hprocessing : s.processing with
  | false => rfl
  | true =>
      rcases h.busy hprocessing with ⟨r, hr⟩
      rw [hidle] at hr
      exact absurd hr (by simp)

/-- A quiet loop has emptied its lanes. -/
theorem Serial.lanes_empty {events : List (QueueEvent ε α)} {s : TxQueue ε α}
    (h : Serial events s) (hquiet : s.Quiet) (p : TxPriority) : s.lane p = [] := by
  rcases hquiet with ⟨hpending, hidle⟩
  have hlanes : s.highQueue ++ s.lowQueue = [] := by
    by_contra hqueued
    have hawake := h.awake (h.not_processing hidle) hqueued
    omega
  rcases List.append_eq_nil_iff.mp hlanes with ⟨hhigh, hlow⟩
  cases p with
  | high => exact hhigh
  | low => exact hlow

/-- A callback picks from the high lane while that is not empty. -/
theorem dispatch_prefers_high {s : TxQueue ε α} {p : TxPriority} {task : Nat}
    (hpick : s.dispatch.2 = some (p, task)) (hwaiting : s.highQueue ≠ []) : p = .high := by
  rcases dispatch_cases s with ⟨heq, -⟩ | ⟨task', rest, -, -, heq⟩ | ⟨task', rest, -, hhigh, -, heq⟩
  · rw [heq] at hpick
    exact absurd hpick (by simp)
  · rw [heq] at hpick
    exact (Prod.mk.inj (Option.some.inj hpick)).1.symm
  · exact absurd hhigh hwaiting

/-- The queue serializes. After every history: at most one task runs; each lane starts
its tasks in the order they came and none twice; a callback prefers the high lane; with
tasks waiting and nothing running a callback is pending; a promise holds the outcome of
its own task and no other; and the loop takes at most five steps for each arrival. Once
it is quiet, every task was started and every promise has settled. -/
theorem serialized {events : List (QueueEvent ε α)} {s : TxQueue ε α}
    (run : Run Step empty events s) :
    s.running.length ≤ 1 ∧
      (∀ p, started p events ++ s.lane p = enqueued p events) ∧
      ((picked events).map Prod.snd).Nodup ∧
      (∀ k u p task t, StepAt Step empty events k u (.dispatch (some (p, task))) t →
        u.highQueue ≠ [] → p = .high) ∧
      (s.running = [] → (∃ p, s.lane p ≠ []) → 0 < s.immediates) ∧
      (∀ task outcome, s.promises task = some outcome ↔ .settle task outcome ∈ events) ∧
      loopSteps events ≤ 5 * arrivals events ∧
      (s.Quiet → ∀ p, started p events = enqueued p events ∧
        ∀ task ∈ enqueued p events, ∃ outcome, s.promises task = some outcome) := by
  have h := serial_run run
  refine ⟨?_, h.order, ?_, ?_, ?_, h.settled, ?_, ?_⟩
  · cases hprocessing : s.processing with
    | false => simp [h.idle hprocessing]
    | true =>
        rcases h.busy hprocessing with ⟨r, hr⟩
        simp [hr]
  · exact (h.placed.nodup_iff.mpr List.nodup_range).of_append_left
  · intro k u p task t hat hwaiting
    have htaken := hat.taken
    generalize hevent : QueueEvent.dispatch (some (p, task)) = event at htaken
    cases htaken with
    | enqueue => cases hevent
    | dispatch _ => exact dispatch_prefers_high (QueueEvent.dispatch.inj hevent).symm hwaiting
    | settle => cases hevent
    | finish => cases hevent
  · rintro hidle ⟨p, hp⟩
    refine h.awake (h.not_processing hidle) ?_
    intro hlanes
    rcases List.append_eq_nil_iff.mp hlanes with ⟨hhigh, hlow⟩
    cases p with
    | high => exact hp hhigh
    | low => exact hp hlow
  · have hspent := h.spent
    omega
  · intro hquiet p
    have horder := h.order p
    rw [h.lanes_empty hquiet p, List.append_nil] at horder
    refine ⟨horder, ?_⟩
    intro task htask
    rw [← horder] at htask
    rcases List.mem_map.mp htask with ⟨pick, hpick, rfl⟩
    have hmem : pick.2 ∈ (picked events).map Prod.snd :=
      List.mem_map_of_mem (List.mem_filter.mp hpick).1
    rcases h.ended _ hmem with hrunning | hpromise
    · rw [hquiet.2] at hrunning
      exact absurd hrunning (by simp)
    · exact Option.ne_none_iff_exists'.mp hpromise

/-- A high task overtakes a waiting low one while a task runs that then fails. -/
def overtaking : List (QueueEvent Unit Unit) :=
  [.enqueue 0 .low, .enqueue 1 .low, .dispatch (some (.low, 0)), .enqueue 2 .high,
    .settle 0 (.error ()), .finish 0, .dispatch (some (.high, 2)), .settle 2 (.ok ()), .finish 2,
    .dispatch (some (.low, 1)), .dispatch none, .settle 1 (.ok ()), .finish 1, .dispatch none]

/-- Take a step, if it can be taken. -/
def next? (s : TxQueue ε α) : QueueEvent ε α → Option (TxQueue ε α)
  | .enqueue task priority => if task = s.next then some (s.enqueue priority) else none
  | .dispatch picked =>
      if 0 < s.immediates ∧ picked = s.dispatch.2 then
        some { s.dispatch.1 with immediates := s.immediates - 1 }
      else none
  | .settle task outcome => if (task, false) ∈ s.running then some (s.wrapped task outcome)
      else none
  | .finish task => if (task, true) ∈ s.running then some (s.finish task) else none

theorem next?_step (s : TxQueue ε α) (event : QueueEvent ε α)
    (t : TxQueue ε α) (h : s.next? event = some t) : Step s event t := by
  cases event with
  | enqueue task priority =>
      rcases Option.ite_none_right_eq_some.mp h with ⟨rfl, heq⟩
      cases heq
      exact .enqueue s priority
  | dispatch picked =>
      rcases Option.ite_none_right_eq_some.mp h with ⟨⟨hpending, rfl⟩, heq⟩
      cases heq
      exact .dispatch s hpending
  | settle task outcome =>
      rcases Option.ite_none_right_eq_some.mp h with ⟨hrunning, heq⟩
      cases heq
      exact .settle s task outcome hrunning
  | finish task =>
      rcases Option.ite_none_right_eq_some.mp h with ⟨hrunning, heq⟩
      cases heq
      exact .finish s task hrunning

theorem serialized_overtaking :
    ∃ s : TxQueue Unit Unit, overtaking.foldlM next? empty = some s ∧
      started .low overtaking = [0, 1] ∧ s.promises 0 = some (.error ()) :=
  match h : overtaking.foldlM next? (empty : TxQueue Unit Unit) with
  | some s =>
      have hlaw := serialized (Run.of_foldlM next?_step h)
      ⟨s, rfl, by decide, (hlaw.2.2.2.2.2.1 0 (.error ())).mpr (by simp [overtaking])⟩
  | none => absurd h (by decide)

end TxQueue

end Lendoor.Backend
