import Lendoor.Core.Async
import Lendoor.Core.Runs
import Mathlib.Logic.Function.Basic

/-! # Concurrent calls on a shared state

Calls that run procedures against one shared state. Each thread has at most one call
under way, and calls of different threads interleave at every await. The rule for
whole runs asks for one assertion per thread: its own steps carry the assertion on,
and the steps of the others leave it alone.
-/

namespace Lendoor

open Async

section Service

variable {σ ι κ Ask : Type} {Answer : Ask → Type} {ε α : Type}

/-- What the calls run and what their steps do to the shared state. -/
structure Service (σ ι κ Ask : Type) (Answer : Ask → Type) (ε α : Type) where
  /-- The procedure of a call, with what it reads as it starts. -/
  program : σ → ι → κ → Async Ask Answer ε α
  /-- An exchange of a thread. -/
  respond : ι → σ → Exchange Ask Answer ε → σ → Prop
  /-- A call ends. -/
  settle : σ → ι → κ → Except ε α → σ
  /-- What others do. -/
  outside : σ → σ → Prop

/-- A call under way. -/
structure Job (κ Ask : Type) (Answer : Ask → Type) (ε α : Type) where
  call : κ
  program : Async Ask Answer ε α
  asked : List (Exchange Ask Answer ε)

structure ThreadPool (σ ι κ Ask : Type) (Answer : Ask → Type) (ε α : Type) where
  shared : σ
  jobs : ι → Option (Job κ Ask Answer ε α)

inductive ThreadEvent (ι κ Ask : Type) (Answer : Ask → Type) (ε α : Type)
  | start (i : ι) (call : κ)
  | exchange (i : ι) (x : Exchange Ask Answer ε)
  | settle (i : ι) (out : Except ε α)
  | outside

namespace Service

variable (S : Service σ ι κ Ask Answer ε α)

/-- An assertion on thread `i` that no step breaks, as long as the events during its
calls are the ones that `guard` admits. `Base` is what is known of the thread already. -/
structure Stable (i : ι) (guard : σ → Job κ Ask Answer ε α → ThreadEvent ι κ Ask Answer ε α → Prop)
    (Base A : σ → Option (Job κ Ask Answer ε α) → Prop) : Prop where
  start : ∀ s call, A s none → A s (some ⟨call, S.program s i call, []⟩)
  exchange : ∀ s job x s', Base s (some job) → A s (some job) →
    Awaits job.program job.asked x.1 → S.respond i s x s' → guard s job (.exchange i x) →
    A s' (some ⟨job.call, job.program, job.asked ++ [x]⟩)
  settle : ∀ s job out, Base s (some job) → A s (some job) →
    Trace job.program job.asked out → guard s job (.settle i out) →
    A (S.settle s i job.call out) none
  others_exchange : ∀ j s o x s', A s o → j ≠ i → S.respond j s x s' → A s' o
  others_settle : ∀ j s o call out, A s o → j ≠ i → A (S.settle s j call out) o
  outside : ∀ s o s', A s o → S.outside s s' → A s' o

variable {S} {i : ι} {guard : σ → Job κ Ask Answer ε α → ThreadEvent ι κ Ask Answer ε α → Prop}
  {Base A B : σ → Option (Job κ Ask Answer ε α) → Prop}

/-- Assertions are proved in layers, each over what is known already. -/
theorem Stable.layer (hA : S.Stable i guard Base A)
    (hB : S.Stable i guard (fun s o => Base s o ∧ A s o) B) :
    S.Stable i guard Base fun s o => A s o ∧ B s o where
  start s call h := ⟨hA.start s call h.1, hB.start s call h.2⟩
  exchange s job x s' hbase h hawaits hrespond hguard :=
    ⟨hA.exchange s job x s' hbase h.1 hawaits hrespond hguard,
      hB.exchange s job x s' ⟨hbase, h.1⟩ h.2 hawaits hrespond hguard⟩
  settle s job out hbase h htrace hguard :=
    ⟨hA.settle s job out hbase h.1 htrace hguard,
      hB.settle s job out ⟨hbase, h.1⟩ h.2 htrace hguard⟩
  others_exchange j s o x s' h hne hrespond :=
    ⟨hA.others_exchange j s o x s' h.1 hne hrespond, hB.others_exchange j s o x s' h.2 hne hrespond⟩
  others_settle j s o call out h hne :=
    ⟨hA.others_settle j s o call out h.1 hne, hB.others_settle j s o call out h.2 hne⟩
  outside s o s' h houtside := ⟨hA.outside s o s' h.1 houtside, hB.outside s o s' h.2 houtside⟩

variable [DecidableEq ι]

variable (S) in
inductive Step : ThreadPool σ ι κ Ask Answer ε α → ThreadEvent ι κ Ask Answer ε α →
    ThreadPool σ ι κ Ask Answer ε α → Prop
  | start {w : ThreadPool σ ι κ Ask Answer ε α} {i : ι} {call : κ} : w.jobs i = none →
      Step w (.start i call)
        ⟨w.shared, Function.update w.jobs i (some ⟨call, S.program w.shared i call, []⟩)⟩
  | exchange {w : ThreadPool σ ι κ Ask Answer ε α} {i : ι} {job : Job κ Ask Answer ε α}
      {x : Exchange Ask Answer ε} {s : σ} : w.jobs i = some job → Awaits job.program job.asked x.1 →
      S.respond i w.shared x s →
      Step w (.exchange i x)
        ⟨s, Function.update w.jobs i (some ⟨job.call, job.program, job.asked ++ [x]⟩)⟩
  | settle {w : ThreadPool σ ι κ Ask Answer ε α} {i : ι} {job : Job κ Ask Answer ε α}
      {out : Except ε α} :
      w.jobs i = some job → Trace job.program job.asked out →
      Step w (.settle i out) ⟨S.settle w.shared i job.call out, Function.update w.jobs i none⟩
  | outside {w : ThreadPool σ ι κ Ask Answer ε α} {s : σ} : S.outside w.shared s →
      Step w .outside ⟨s, w.jobs⟩

/-- The call of thread `i` under way, if there is one, admits the event. -/
def Admits (i : ι) (guard : σ → Job κ Ask Answer ε α → ThreadEvent ι κ Ask Answer ε α → Prop)
    (w : ThreadPool σ ι κ Ask Answer ε α) (event : ThreadEvent ι κ Ask Answer ε α) : Prop :=
  ∀ job, w.jobs i = some job → guard w.shared job event

theorem Stable.step (hstable : S.Stable i guard Base A) {w w' : ThreadPool σ ι κ Ask Answer ε α}
    {event : ThreadEvent ι κ Ask Answer ε α} (hstep : S.Step w event w')
    (hguard : Admits i guard w event)
    (hbase : Base w.shared (w.jobs i)) (hA : A w.shared (w.jobs i)) :
    A w'.shared (w'.jobs i) := by
  cases hstep with
  | @start j call hidle =>
      by_cases hji : j = i
      · subst hji
        simp only [Function.update_self]
        exact hstable.start _ call (hidle ▸ hA)
      · simp only [Function.update_of_ne (Ne.symm hji)]
        exact hA
  | @exchange j job x s hjob hawaits hrespond =>
      by_cases hji : j = i
      · subst hji
        simp only [Function.update_self]
        exact hstable.exchange _ job x s (hjob ▸ hbase) (hjob ▸ hA) hawaits hrespond
          (hguard job hjob)
      · simp only [Function.update_of_ne (Ne.symm hji)]
        exact hstable.others_exchange j _ _ x s hA hji hrespond
  | @settle j job out hjob htrace =>
      by_cases hji : j = i
      · subst hji
        simp only [Function.update_self]
        exact hstable.settle _ job out (hjob ▸ hbase) (hjob ▸ hA) htrace (hguard job hjob)
      · simp only [Function.update_of_ne (Ne.symm hji)]
        exact hstable.others_settle j _ _ job.call out hA hji
  | outside houtside => exact hstable.outside _ _ _ hA houtside

variable {w w' : ThreadPool σ ι κ Ask Answer ε α} {events : List (ThreadEvent ι κ Ask Answer ε α)}

/-- A thread's assertion holds along every run whose events are admitted. -/
theorem Stable.run (hstable : S.Stable i guard (fun _ _ => True) A) (run : Run S.Step w events w')
    (hguard : ∀ k v event v', StepAt S.Step w events k v event v' → Admits i guard v event)
    (hA : A w.shared (w.jobs i)) : A w'.shared (w'.jobs i) :=
  (run.with_steps hguard).invariant (P := fun w => A w.shared (w.jobs i))
    (fun _ _ _ hA hstep => hstable.step hstep.1 hstep.2 trivial hA) hA

/-- A call under way was started in the run, and what it has asked it has asked there. -/
theorem events_of_job (run : Run S.Step w events w') (hidle : ∀ i, w.jobs i = none)
    {job : Job κ Ask Answer ε α} (hjob : w'.jobs i = some job) :
    .start i job.call ∈ events ∧ ∀ x ∈ job.asked, .exchange i x ∈ events := by
  induction run generalizing job with
  | nil =>
      rw [hidle i] at hjob
      cases hjob
  | @snoc _ _ labels next before hstep ih =>
      have hpast : ∀ {other : Job κ Ask Answer ε α},
          .start i other.call ∈ labels ∧ (∀ x ∈ other.asked, .exchange i x ∈ labels) →
            .start i other.call ∈ labels ++ [next] ∧
              ∀ x ∈ other.asked, .exchange i x ∈ labels ++ [next] :=
        fun h => ⟨List.mem_append_left _ h.1, fun x hx => List.mem_append_left _ (h.2 x hx)⟩
      cases hstep with
      | @start j call hfree =>
          by_cases hij : i = j
          · subst hij
            simp only [Function.update_self, Option.some.injEq] at hjob
            subst hjob
            exact ⟨List.mem_append_right _ (List.mem_singleton_self _), by simp⟩
          · simp only [Function.update_of_ne hij] at hjob
            exact hpast (ih hjob)
      | @exchange j other y s hother hawaits hrespond =>
          by_cases hij : i = j
          · subst hij
            simp only [Function.update_self, Option.some.injEq] at hjob
            subst hjob
            have hbefore := hpast (ih hother)
            refine ⟨hbefore.1, fun x hx => ?_⟩
            rcases List.mem_append.mp hx with hold | hlast
            · exact hbefore.2 x hold
            · rw [List.mem_singleton.mp hlast]
              exact List.mem_append_right _ (List.mem_singleton_self _)
          · simp only [Function.update_of_ne hij] at hjob
            exact hpast (ih hjob)
      | @settle j other out hother htrace =>
          by_cases hij : i = j
          · subst hij
            simp at hjob
          · simp only [Function.update_of_ne hij] at hjob
            exact hpast (ih hjob)
      | outside houtside => exact hpast (ih hjob)

/-- It holds before each step of the run, and after. -/
theorem Stable.at (hstable : S.Stable i guard (fun _ _ => True) A)
    (hguard : ∀ k v event v', StepAt S.Step w events k v event v' → Admits i guard v event)
    (hA : A w.shared (w.jobs i)) {k : Nat} {v v' : ThreadPool σ ι κ Ask Answer ε α}
    {event : ThreadEvent ι κ Ask Answer ε α} (hat : StepAt S.Step w events k v event v') :
    A v.shared (v.jobs i) ∧ A v'.shared (v'.jobs i) := by
  have hbefore : A v.shared (v.jobs i) :=
    hstable.run hat.before (fun k' u event u' hat' => hguard k' u event u' hat'.of_take.2) hA
  exact ⟨hbefore, hstable.step hat.taken (hguard k v event v' hat) trivial hbefore⟩

/-! ### A call on its own -/

theorem run_exchanges {i : ι} {call : κ} {program : Async Ask Answer ε α} {out : Except ε α}
    {trace : List (Exchange Ask Answer ε)} {s s' : σ} (chain : Run (S.respond i) s trace s') :
    ∀ {after : List (Exchange Ask Answer ε)}, Trace program (trace ++ after) out →
      ∀ jobs : ι → Option (Job κ Ask Answer ε α), jobs i = some ⟨call, program, []⟩ →
        Run S.Step ⟨s, jobs⟩ (trace.map (.exchange i))
          ⟨s', Function.update jobs i (some ⟨call, program, trace⟩)⟩ := by
  induction chain with
  | nil =>
      intro after htrace jobs hjob
      rw [← hjob, Function.update_eq_self]
      exact Run.nil _
  | @snoc t u trace x _ hrespond ih =>
      intro after htrace jobs hjob
      rw [List.append_assoc] at htrace
      have hstep :=
        Step.exchange (S := S) (w := ⟨t, Function.update jobs i (some ⟨call, program, trace⟩)⟩)
        (i := i) (x := x) (Function.update_self ..) htrace.awaits hrespond
      rw [Function.update_idem] at hstep
      rw [List.map_append]
      exact (ih htrace jobs hjob).snoc hstep

/-- A call whose exchanges nobody disturbs is a run. -/
theorem run_call {i : ι} {call : κ} {out : Except ε α} {trace : List (Exchange Ask Answer ε)}
    {s' : σ}
    (hidle : w.jobs i = none) (htrace : Trace (S.program w.shared i call) trace out)
    (chain : Run (S.respond i) w.shared trace s') :
    Run S.Step w (.start i call :: (trace.map (.exchange i) ++ [.settle i out]))
      ⟨S.settle s' i call out, w.jobs⟩ := by
  have hstart : Run S.Step w [.start i call] ⟨w.shared, Function.update w.jobs i
      (some ⟨call, S.program w.shared i call, []⟩)⟩ := Run.single (.start hidle)
  have hwhole : Trace (S.program w.shared i call) (trace ++ []) out := by rwa [List.append_nil]
  have hexchanges := run_exchanges chain hwhole
    (Function.update w.jobs i (some ⟨call, S.program w.shared i call, []⟩))
    (Function.update_self ..)
  rw [Function.update_idem] at hexchanges
  have hsettle := Step.settle (S := S)
    (w := ⟨s', Function.update w.jobs i (some ⟨call, S.program w.shared i call, trace⟩)⟩)
    (Function.update_self ..) htrace
  have hidle' : Function.update w.jobs i none = w.jobs := by
    rw [← hidle, Function.update_eq_self]
  rw [Function.update_idem, hidle'] at hsettle
  exact hstart.append (hexchanges.snoc hsettle)

/-! ### Programs and schedules -/

/-- A call under way runs the program it was started with. -/
theorem run_program (run : Run S.Step w events w') (hidle : ∀ i, w.jobs i = none) :
    ∀ i job, w'.jobs i = some job → ∃ s, job.program = S.program s i job.call := by
  intro i
  have hstable : S.Stable i (fun _ _ _ => True) (fun _ _ => True)
      fun _ o => ∀ job, o = some job → ∃ s, job.program = S.program s i job.call := by
    constructor
    · intro s call _ job hjob
      cases hjob
      exact ⟨s, rfl⟩
    · intro s job x s' _ h _ _ _ job' hjob'
      cases hjob'
      exact h job rfl
    · intro s job out _ _ _ _ job' hjob'
      cases hjob'
    · intro j s o x s' h _ _
      exact h
    · intro j s o call out h _
      exact h
    · intro s o s' h _
      exact h
  refine hstable.run run (fun _ _ _ _ _ _ _ => trivial) ?_
  intro job hjob
  rw [hidle i] at hjob
  cases hjob

/-- A step of a thread asks what its program permits after what it has asked. -/
theorem asked_permitted {P : List (Exchange Ask Answer ε) → Ask → Prop}
    (hasks : ∀ s i call, (S.program s i call).AsksAfter P [])
    (hidle : ∀ i, w.jobs i = none) {k : Nat}
    {v v' : ThreadPool σ ι κ Ask Answer ε α} {i : ι} {x : Exchange Ask Answer ε}
    (hat : StepAt S.Step w events k v (.exchange i x) v') :
    ∃ job, v.jobs i = some job ∧ P job.asked x.1 := by
  cases hat.taken with
  | exchange hjob hawaits hrespond =>
      rcases run_program hat.before hidle _ _ hjob with ⟨s, hprogram⟩
      rw [hprogram] at hawaits
      exact ⟨_, hjob, (hasks s _ _).awaits hawaits⟩

/-- What every permitted exchange keeps of the shared state, every end of a call, and
everybody else, a run keeps. -/
theorem shared_invariant {P : List (Exchange Ask Answer ε) → Ask → Prop} {I : σ → Prop}
    (hasks : ∀ s i call, (S.program s i call).AsksAfter P [])
    (hrespond : ∀ {past i s x s'}, I s → P past x.1 → S.respond i s x s' → I s')
    (hsettle : ∀ {s i call out}, I s → I (S.settle s i call out))
    (houtside : ∀ {s s'}, I s → S.outside s s' → I s')
    (run : Run S.Step w events w') (hidle : ∀ i, w.jobs i = none) (start : I w.shared) :
    I w'.shared := by
  induction run with
  | nil => exact start
  | snoc hbefore hstep ih =>
      have hI := ih
      cases hstep with
      | start => exact hI
      | exchange hjob hawaits hx =>
          rcases run_program hbefore hidle _ _ hjob with ⟨s, hprogram⟩
          rw [hprogram] at hawaits
          exact hrespond hI ((hasks s _ _).awaits hawaits) hx
      | settle => exact hsettle hI
      | outside hout => exact houtside hI hout

/-- What a call that goes through leaves, where the state gives its answer. -/
def effectOf? (answers : σ → (ask : Ask) → Answer ask → Bool) (effect : σ → Ask → σ) (s : σ) :
    Exchange Ask Answer ε → Option σ
  | ⟨ask, .ok answer⟩ => if answers s ask answer = true then some (effect s ask) else none
  | ⟨_, .error _⟩ => none

theorem effectOf?_eq_some {answers : σ → (ask : Ask) → Answer ask → Bool}
    {effect : σ → Ask → σ} {s s' : σ}
    {x : Exchange Ask Answer ε} : effectOf? answers effect s x = some s' ↔
      ∃ ask answer, x = ⟨ask, .ok answer⟩ ∧ answers s ask answer = true ∧ s' = effect s ask := by
  constructor
  · intro h
    rcases x with ⟨ask, error | answer⟩
    · cases h
    · rcases Option.ite_none_right_eq_some.mp h with ⟨hanswers, heffect⟩
      cases heffect
      exact ⟨ask, answer, rfl, hanswers, rfl⟩
  · rintro ⟨ask, answer, rfl, hanswers, rfl⟩
    exact if_pos hanswers

/-- Take the step of an event, with `effect?` for what an exchange does. -/
def next? [DecidableEq Ask] [DecidableEq ε] [DecidableEq α] (S : Service σ ι κ Ask Answer ε α)
    (effect? : ι → σ → Exchange Ask Answer ε → Option σ) (w : ThreadPool σ ι κ Ask Answer ε α) :
    ThreadEvent ι κ Ask Answer ε α → Option (ThreadPool σ ι κ Ask Answer ε α)
  | .start i call =>
      match w.jobs i with
      | none =>
          some ⟨w.shared, Function.update w.jobs i (some ⟨call, S.program w.shared i call, []⟩)⟩
      | some _ => none
  | .exchange i x =>
      match w.jobs i with
      | none => none
      | some job =>
          if job.program.awaiting? job.asked = some x.1 then
            (effect? i w.shared x).map fun s =>
              ⟨s, Function.update w.jobs i (some ⟨job.call, job.program, job.asked ++ [x]⟩)⟩
          else none
  | .settle i out =>
      match w.jobs i with
      | none => none
      | some job =>
          match job.program.replay job.asked, out with
          | some (.ok a), .ok b =>
              if a = b then
                some ⟨S.settle w.shared i job.call (.ok b), Function.update w.jobs i none⟩
              else none
          | some (.error e), .error e' =>
              if e = e' then
                some ⟨S.settle w.shared i job.call (.error e'), Function.update w.jobs i none⟩
              else none
          | _, _ => none
  | .outside => none

theorem next?_step [DecidableEq Ask] [DecidableEq ε] [DecidableEq α]
    {effect? : ι → σ → Exchange Ask Answer ε → Option σ}
    (sound : ∀ i s x s', effect? i s x = some s' → S.respond i s x s')
    (w : ThreadPool σ ι κ Ask Answer ε α) (event : ThreadEvent ι κ Ask Answer ε α)
    (w' : ThreadPool σ ι κ Ask Answer ε α) (h : S.next? effect? w event = some w') :
    S.Step w event w' := by
  cases event with
  | start i call =>
      simp only [next?] at h
      split at h
      · rename_i hidle
        cases h
        exact .start hidle
      · cases h
  | exchange i x =>
      simp only [next?] at h
      split at h
      · cases h
      · rename_i job hjob
        rcases Option.ite_none_right_eq_some.mp h with ⟨hawaits, heffect⟩
        rcases Option.map_eq_some_iff.mp heffect with ⟨s, hs, rfl⟩
        exact .exchange hjob (awaits_of_awaiting? hawaits) (sound i _ x s hs)
  | settle i out =>
      simp only [next?] at h
      split at h
      · cases h
      · rename_i job hjob
        split at h
        · rename_i a b hreplay
          rcases Option.ite_none_right_eq_some.mp h with ⟨rfl, heq⟩
          cases heq
          exact .settle hjob (trace_of_replay hreplay)
        · rename_i e e' hreplay
          rcases Option.ite_none_right_eq_some.mp h with ⟨rfl, heq⟩
          cases heq
          exact .settle hjob (trace_of_replay hreplay)
        · cases h
  | outside => cases h

theorem next?_unique [DecidableEq Ask] [DecidableEq ε] [DecidableEq α]
    {effect? : ι → σ → Exchange Ask Answer ε → Option σ}
    (unique : ∀ i s x t u, effect? i s x = some t → S.respond i s x u → u = t)
    (w : ThreadPool σ ι κ Ask Answer ε α) (event : ThreadEvent ι κ Ask Answer ε α)
    (v v' : ThreadPool σ ι κ Ask Answer ε α) (h : S.next? effect? w event = some v)
    (hstep : S.Step w event v') :
    v' = v := by
  cases hstep with
  | start hidle =>
      simp only [next?, hidle] at h
      cases h
      rfl
  | exchange hjob hawaits hresponds =>
      simp only [next?, hjob] at h
      rcases Option.ite_none_right_eq_some.mp h with ⟨-, heffect⟩
      rcases Option.map_eq_some_iff.mp heffect with ⟨s, hs, rfl⟩
      rw [unique _ _ _ _ _ hs hresponds]
  | settle hjob htrace =>
      simp only [next?, hjob] at h
      split at h
      · rcases Option.ite_none_right_eq_some.mp h with ⟨-, heq⟩
        cases heq
        rfl
      · rcases Option.ite_none_right_eq_some.mp h with ⟨-, heq⟩
        cases heq
        rfl
      · cases h
  | outside houtside => cases h

end Service

end Service

end Lendoor
