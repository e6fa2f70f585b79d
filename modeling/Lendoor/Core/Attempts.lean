import Lendoor.Core.Service

/-! # Bounded attempts

A secret that may be guessed a bounded number of times. A row counts the wrong guesses;
a thread compares its guess with the row and writes the count back in a second step. As
long as nobody compares or writes between the two, the count bounds the guesses.
-/

namespace Lendoor

namespace Attempts

/-- What a thread goes on to write after its comparison: one wrong guess more, or that the
secret is used up. -/
inductive Hold
  | wrong (count : Nat)
  | right
  deriving DecidableEq

/-- What a step shows. -/
inductive Shown
  | issued
  | wrong
  | granted
  deriving DecidableEq

/-- The count in the row while a secret is live, and what the threads go on to write. -/
structure Guesses (ι : Type) where
  live : Option Nat
  held : ι → Option Hold

/-- Nobody is between a comparison and its write. -/
def Guesses.Idle {ι : Type} (g : Guesses ι) : Prop := ∀ i, g.held i = none

section Steps

variable {ι : Type} [DecidableEq ι] (limit : Nat)

inductive Step : Guesses ι → Option Shown → Guesses ι → Prop
  | quiet (g : Guesses ι) : Step g none g
  | issue {g : Guesses ι} : g.Idle → Step g (some .issued) { g with live := some 0 }
  | clear {g : Guesses ι} : g.Idle → Step g none { g with live := none }
  | wrong {g : Guesses ι} {i : ι} {n : Nat} : g.Idle → g.live = some n → n < limit →
      Step g (some .wrong) { g with held := Function.update g.held i (some (.wrong (n + 1))) }
  | right {g : Guesses ι} {i : ι} {n : Nat} : g.Idle → g.live = some n →
      Step g none { g with held := Function.update g.held i (some .right) }
  | count {g : Guesses ι} {i : ι} {n : Nat} : g.held i = some (.wrong n) →
      Step g none ⟨some n, Function.update g.held i none⟩
  | grant {g : Guesses ι} {i : ι} : g.held i = some .right →
      Step g (some .granted) ⟨none, Function.update g.held i none⟩
  | drop {g : Guesses ι} {i : ι} : g.held i = some .right →
      Step g none { g with held := Function.update g.held i none }

/-- One thread at most goes on to write, and the row is as it was compared. -/
def Consistent (g : Guesses ι) : Prop :=
  ∀ i hold, g.held i = some hold → (∀ j, j ≠ i → g.held j = none) ∧
    ∃ n, g.live = some n ∧ ∀ count, hold = .wrong count → count = n + 1 ∧ n < limit

variable {limit} {g g' : Guesses ι} {shown : Option Shown} {i : ι}

omit [DecidableEq ι] in
theorem consistent_of_idle (h : g.Idle) : Consistent limit g := by
  intro i hold hheld
  rw [h i] at hheld
  cases hheld

/-- After its write nobody holds anything. -/
theorem Consistent.idle_update (h : Consistent limit g) {hold : Hold}
    (hheld : g.held i = some hold) :
    ∀ j, Function.update g.held i none j = none := by
  intro j
  by_cases hj : j = i
  · rw [hj, Function.update_self]
  · rw [Function.update_of_ne hj]
    exact (h i hold hheld).1 j hj

/-- A comparison by one thread while nobody else is at it. -/
theorem Guesses.Idle.consistent_update (h : g.Idle) {hold : Hold} {n : Nat}
    (hlive : g.live = some n)
    (hcount : ∀ count, hold = .wrong count → count = n + 1 ∧ n < limit) :
    Consistent limit { g with held := Function.update g.held i (some hold) } := by
  intro j hold' hheld
  dsimp only at hheld ⊢
  by_cases hj : j = i
  · subst hj
    rw [Function.update_self] at hheld
    cases hheld
    exact ⟨fun k hk => by rw [Function.update_of_ne hk, h k], n, hlive, hcount⟩
  · rw [Function.update_of_ne hj, h j] at hheld
    cases hheld

theorem Consistent.step (h : Consistent limit g) (hstep : Step limit g shown g') :
    Consistent limit g' := by
  cases hstep with
  | quiet => exact h
  | issue hidle => exact consistent_of_idle hidle
  | clear hidle => exact consistent_of_idle hidle
  | wrong hidle hlive hlimit =>
      refine hidle.consistent_update hlive ?_
      rintro count ⟨⟩
      exact ⟨rfl, hlimit⟩
  | right hidle hlive =>
      refine hidle.consistent_update hlive ?_
      rintro count ⟨⟩
  | count hheld => exact consistent_of_idle (h.idle_update hheld)
  | grant hheld => exact consistent_of_idle (h.idle_update hheld)
  | drop hheld => exact consistent_of_idle (h.idle_update hheld)

/-- What the guesses since the last issue come to: the row's count bounds the wrong ones,
but for one whose count is still to be written, and a secret that was granted is used up. -/
structure Spent (limit : Nat) (g : Guesses ι) (wrong granted : Nat) : Prop where
  limit : wrong ≤ limit
  once : granted ≤ 1
  live : ∀ n, g.live = some n → granted = 0 ∧ wrong ≤ n + 1 ∧
    ((∀ i count, g.held i ≠ some (.wrong count)) → wrong ≤ n)

omit [DecidableEq ι] in
theorem Guesses.Idle.none_wrong (h : g.Idle) (i : ι) (count : Nat) :
    g.held i ≠ some (.wrong count) := by
  rw [h i]
  rintro ⟨⟩

/-- A step that issues nothing spends from the limit. -/
theorem Spent.step {wrong granted : Nat} (h : Spent limit g wrong granted)
    (hconsistent : Consistent limit g)
    (hstep : Step limit g shown g') (hshown : shown ≠ some .issued) :
    Spent limit g' (wrong + [shown].count (some .wrong))
    (granted + [shown].count (some .granted)) := by
  cases hstep with
  | quiet => exact h
  | issue => exact absurd rfl hshown
  | clear => exact ⟨h.limit, h.once, by rintro n ⟨⟩⟩
  | @wrong i n hidle hlive hlimit =>
      rcases h.live n hlive with ⟨hgranted, -, hcount⟩
      have hwrong := hcount hidle.none_wrong
      refine ⟨Nat.succ_le_of_lt (Nat.lt_of_le_of_lt hwrong hlimit), h.once, fun m hm => ?_⟩
      cases hlive.symm.trans hm
      refine ⟨hgranted, Nat.succ_le_succ hwrong, fun hnone => ?_⟩
      exact absurd (Function.update_self i _ g.held) (hnone i (n + 1))
  | @right i n hidle hlive =>
      rcases h.live n hlive with ⟨hgranted, hbound, hcount⟩
      refine ⟨h.limit, h.once, fun m hm => ?_⟩
      cases hlive.symm.trans hm
      exact ⟨hgranted, hbound, fun _ => hcount hidle.none_wrong⟩
  | @count i m hheld =>
      rcases (hconsistent i _ hheld).2 with ⟨n, hlive, hm⟩
      rcases hm m rfl with ⟨rfl, -⟩
      rcases h.live n hlive with ⟨hgranted, hbound, -⟩
      refine ⟨h.limit, h.once, ?_⟩
      rintro k ⟨⟩
      exact ⟨hgranted, Nat.le_succ_of_le hbound, fun _ => hbound⟩
  | @grant i hheld =>
      rcases (hconsistent i _ hheld).2 with ⟨n, hlive, -⟩
      have hgranted := (h.live n hlive).1
      refine ⟨h.limit, Nat.le_of_eq (by rw [hgranted]; rfl), ?_⟩
      rintro k ⟨⟩
  | @drop i hheld =>
      refine ⟨h.limit, h.once, fun n hlive => ?_⟩
      rcases h.live n hlive with ⟨hgranted, hbound, hcount⟩
      refine ⟨hgranted, hbound, fun _ => hcount fun j count hwrong => ?_⟩
      by_cases hj : j = i
      · rw [hj, hheld] at hwrong
        cases hwrong
      · rw [(hconsistent i _ hheld).1 j hj] at hwrong
        cases hwrong

/-- Between two issues there are at most as many wrong guesses as the limit says, and the
secret is granted at most once. -/
def Bounded (limit : Nat) (shown : List (Option Shown)) : Prop :=
  ∀ past recent, shown = past ++ recent → some Shown.issued ∉ recent →
    recent.count (some .wrong) ≤ limit ∧ recent.count (some .granted) ≤ 1

theorem spent_of_run {recent : List (Option Shown)} (run : Run (Step limit) g recent g')
    (h : Consistent limit g)
    (hissued : some Shown.issued ∉ recent) :
    Consistent limit g' ∧ Spent limit g' (recent.count (some .wrong))
    (recent.count (some .granted)) := by
  induction run with
  | nil =>
      exact ⟨h, Nat.zero_le _, Nat.zero_le _,
        fun n _ => ⟨rfl, Nat.zero_le _, fun _ => Nat.zero_le _⟩⟩
  | @snoc t u labels label _ hstep ih =>
      rw [List.mem_append, not_or] at hissued
      rcases ih hissued.1 with ⟨hconsistent, hspent⟩
      rw [List.count_append, List.count_append]
      refine ⟨hconsistent.step hstep, hspent.step hconsistent hstep fun hlabel => hissued.2 ?_⟩
      rw [hlabel]
      exact List.mem_singleton_self _

theorem bounded_of_run {all : List (Option Shown)} (run : Run (Step limit) g all g')
    (h : Consistent limit g) :
    Bounded limit all := by
  rintro past recent rfl hissued
  rcases run.append_inv with ⟨t, before, after⟩
  have hconsistent := before.invariant (P := Consistent limit) (fun _ _ _ h hstep => h.step hstep) h
  have hspent := (spent_of_run after hconsistent hissued).2
  exact ⟨hspent.limit, hspent.once⟩

end Steps

/-! ## Services -/

/-- Steps labelled with what they show as well. -/
def Shows {σ ℓ ο : Type} (step : σ → ℓ → σ → Prop) (observe : σ → ℓ → ο) (s : σ)
    (label : ℓ × ο) (s' : σ) : Prop :=
  step s label.1 s' ∧ label.2 = observe s label.1

/-- Take a step that shows what is written beside it. -/
def Shows.next? {σ ℓ : Type} (next? : σ → ℓ → Option σ) (observe : σ → ℓ → Option Shown) (s : σ)
    (label : ℓ × Option Shown) : Option σ :=
  if label.2 = observe s label.1 then next? s label.1 else none

section Shows

variable {σ ℓ : Type} {step : σ → ℓ → σ → Prop} {observe : σ → ℓ → Option Shown} {s s' : σ}
  {labels : List (ℓ × Option Shown)}

theorem Shows.run (run : Run (Shows step observe) s labels s') :
    Run step s (labels.map Prod.fst) s' := by
  induction run with
  | nil => exact Run.nil _
  | snoc _ hstep ih =>
      rw [List.map_append]
      exact ih.snoc hstep.1

theorem Shows.next?_step {next? : σ → ℓ → Option σ}
    (sound : ∀ s label t, next? s label = some t → step s label t)
    (s : σ) (label : ℓ × Option Shown) (t : σ) (h : Shows.next? next? observe s label = some t) :
    Shows step observe s label t := by
  rcases Option.ite_none_right_eq_some.mp h with ⟨hshown, hnext⟩
  exact ⟨sound s label.1 t hnext, hshown⟩

/-- A system whose steps are steps of the guesses. -/
theorem bounded_of_steps {ι : Type} [DecidableEq ι] {limit : Nat} (abstract : σ → Guesses ι)
    (run : Run (Shows step observe) s labels s') (hstart : Consistent limit (abstract s))
    (hsteps : ∀ k t label t', StepAt (Shows step observe) s labels k t label t' →
      Step limit (abstract t) (observe t label.1) (abstract t')) :
    Bounded limit (labels.map Prod.snd) := by
  have hguesses : Run (Step limit) (abstract s) (labels.map Prod.snd) (abstract s') := by
    have hrun := run.with_steps hsteps
    clear run hsteps
    induction hrun with
    | nil => exact Run.nil _
    | snoc _ hstep ih =>
        rw [List.map_append, List.map_singleton, hstep.1.2]
        exact ih.snoc hstep.2
  exact bounded_of_run hguesses hstart

end Shows

/-! ### Calls that guess -/

section Services

variable {σ ι κ Ask : Type} {Answer : Ask → Type} {ε α : Type} [DecidableEq ι]

open Async (Exchange Awaits Trace)

/-- A call after one exchange more. -/
def next (job : Job κ Ask Answer ε α) (x : Exchange Ask Answer ε) : Job κ Ask Answer ε α :=
  ⟨job.call, job.program, job.asked ++ [x]⟩

/-- How the calls of a service guess: the count in the row, what a call goes on to write,
which exchanges compare or write, whether an exchange works on the row as it is, and what
an exchange shows. -/
structure Guessing (σ κ Ask : Type) (Answer : Ask → Type) (ε α : Type) where
  live : σ → Option Nat
  holding : Job κ Ask Answer ε α → Option Hold
  touches : Job κ Ask Answer ε α → Exchange Ask Answer ε → Prop
  current : σ → Job κ Ask Answer ε α → Exchange Ask Answer ε → Prop
  shows : Job κ Ask Answer ε α → Exchange Ask Answer ε → Option Shown

variable (G : Guessing σ κ Ask Answer ε α) {w w' : ThreadPool σ ι κ Ask Answer ε α}

/-- What the calls of a pool go on to write. -/
def Guessing.guesses (w : ThreadPool σ ι κ Ask Answer ε α) : Guesses ι :=
  ⟨G.live w.shared, fun i => (w.jobs i).bind G.holding⟩

def Guessing.observe (w : ThreadPool σ ι κ Ask Answer ε α) :
    ThreadEvent ι κ Ask Answer ε α → Option Shown
  | .exchange i x => (w.jobs i).bind fun job => G.shows job x
  | _ => none

/-- A call compares and writes while no other call is between its comparison and its
write, it works on the row as it is, and the write of a wrong guess goes through. -/
def Guessing.Apart (w : ThreadPool σ ι κ Ask Answer ε α) (event : ThreadEvent ι κ Ask Answer ε α) :
    Prop :=
  ∀ i x job, event = .exchange i x → w.jobs i = some job →
    (G.touches job x → ∀ j other, j ≠ i → w.jobs j = some other → G.holding other = none) ∧
      G.current w.shared job x ∧
      ∀ n, G.holding job = some (.wrong n) → ∃ answer, x.2 = .ok answer

/-- What an exchange does to the row and its call. -/
inductive Guessing.Act (G : Guessing σ κ Ask Answer ε α) (limit : Nat) (s : σ)
    (job : Job κ Ask Answer ε α) (x : Exchange Ask Answer ε) (s' : σ) :
    Option Shown → Prop
  | quiet : G.holding job = none → G.holding (next job x) = none → G.live s' = G.live s →
      Guessing.Act G limit s job x s' none
  | issue : G.touches job x → G.holding job = none → G.holding (next job x) = none →
      G.live s' = some 0 →
      Guessing.Act G limit s job x s' (some .issued)
  | clear : G.touches job x → G.holding job = none → G.holding (next job x) =
      none → G.live s' = none →
      Guessing.Act G limit s job x s' none
  | wrong {n : Nat} : G.touches job x → G.holding job = none → G.holding (next job x) =
      some (.wrong (n + 1)) →
      G.live s = some n → n < limit → G.live s' = G.live s →
      Guessing.Act G limit s job x s' (some .wrong)
  | right {n : Nat} : G.touches job x → G.holding job = none →
      G.holding (next job x) = some .right →
      G.live s = some n → G.live s' = G.live s → Guessing.Act G limit s job x s' none
  | count {n : Nat} : G.holding job = some (.wrong n) → G.holding (next job x) = none →
      G.live s' = some n →
      Guessing.Act G limit s job x s' none
  | grant : G.holding job = some .right → G.holding (next job x) = none → G.live s' = none →
      Guessing.Act G limit s job x s' (some .granted)
  | drop : G.holding job = some .right → G.holding (next job x) = none → G.live s' = G.live s →
      Guessing.Act G limit s job x s' none

/-- A service whose exchanges act so. -/
structure Guessing.Guarded (S : Service σ ι κ Ask Answer ε α) (limit : Nat) : Prop where
  start : ∀ s i call, G.holding ⟨call, S.program s i call, []⟩ = none
  exchange : ∀ s i job x s', (∃ t, job.program = S.program t i job.call) →
    Awaits job.program job.asked x.1 →
    S.respond i s x s' → G.current s job x →
    (∀ n, G.holding job = some (.wrong n) → ∃ answer, x.2 = .ok answer) →
    G.Act limit s job x s' (G.shows job x)
  settle : ∀ s i job out, (∃ t, job.program = S.program t i job.call) →
    Trace job.program job.asked out →
    G.holding job = none ∧ G.live (S.settle s i job.call out) = G.live s
  outside : ∀ s s', S.outside s s' → G.live s' = G.live s

variable {G} {S : Service σ ι κ Ask Answer ε α} {limit : Nat}

theorem Guessing.guesses_update (s : σ) (jobs : ι → Option (Job κ Ask Answer ε α)) (i : ι)
    (o : Option (Job κ Ask Answer ε α)) : G.guesses ⟨s, Function.update jobs i o⟩ =
      ⟨G.live s, Function.update (fun j => (jobs j).bind G.holding) i (o.bind G.holding)⟩ := by
  rw [Guessing.guesses, Guesses.mk.injEq]
  exact ⟨rfl, funext fun j => Function.apply_update (fun _ o => Option.bind o G.holding) jobs i o j⟩

omit [DecidableEq ι] in
/-- Nobody else holds anything while a call compares or writes. -/
theorem Guessing.idle_of_alone {i : ι} {job : Job κ Ask Answer ε α} (hjob : w.jobs i = some job)
    (hfree : G.holding job = none)
    (halone : ∀ j other, j ≠ i → w.jobs j = some other → G.holding other = none) :
    (G.guesses w).Idle := by
  intro j
  change (w.jobs j).bind G.holding = none
  by_cases hj : j = i
  · rw [hj, hjob, Option.bind_some, hfree]
  · cases hother : w.jobs j with
    | none => rfl
    | some other => exact halone j other hj hother

theorem Guessing.Act.step {s' : σ} {i : ι} {job : Job κ Ask Answer ε α} {x : Exchange Ask Answer ε}
    {shown : Option Shown} (h : G.Act limit w.shared job x s' shown) (hjob : w.jobs i = some job)
    (halone : G.touches job x → ∀ j other, j ≠ i → w.jobs j = some other → G.holding other = none) :
    Step limit (G.guesses w) shown
      (G.guesses ⟨s', Function.update w.jobs i (some (next job x))⟩) := by
  have hheld : (G.guesses w).held i = G.holding job := by
    change (w.jobs i).bind G.holding = _
    rw [hjob, Option.bind_some]
  rw [Guessing.guesses_update, Option.bind_some]
  -- where the call holds nothing before and after, the table of holds is the same
  have hsame : G.holding job = none → G.holding (next job x) = none →
      Function.update (fun j => (w.jobs j).bind G.holding) i (G.holding (next job x)) =
      (G.guesses w).held := by
    intro hbefore hafter
    rw [hafter, ← hbefore, ← hheld]
    exact Function.update_eq_self i _
  cases h with
  | quiet hbefore hafter hlive =>
      rw [hsame hbefore hafter, hlive]
      exact .quiet _
  | issue htouches hbefore hafter hlive =>
      rw [hsame hbefore hafter, hlive]
      exact .issue (Guessing.idle_of_alone hjob hbefore (halone htouches))
  | clear htouches hbefore hafter hlive =>
      rw [hsame hbefore hafter, hlive]
      exact .clear (Guessing.idle_of_alone hjob hbefore (halone htouches))
  | wrong htouches hbefore hafter hrow hlimit hlive =>
      rw [hafter, hlive]
      exact .wrong (Guessing.idle_of_alone hjob hbefore (halone htouches)) hrow hlimit
  | right htouches hbefore hafter hrow hlive =>
      rw [hafter, hlive]
      exact .right (Guessing.idle_of_alone hjob hbefore (halone htouches)) hrow
  | count hbefore hafter hlive =>
      rw [hafter, hlive]
      exact .count (hheld.trans hbefore)
  | grant hbefore hafter hlive =>
      rw [hafter, hlive]
      exact .grant (hheld.trans hbefore)
  | drop hbefore hafter hlive =>
      rw [hafter, hlive]
      exact .drop (hheld.trans hbefore)

/-- Of a call that starts or ends nothing changes. -/
theorem Guessing.guesses_update_free {s : σ} {i : ι} {o : Option (Job κ Ask Answer ε α)}
    (hlive : G.live s = G.live w.shared) (hbefore : (w.jobs i).bind G.holding = none)
    (hafter : o.bind G.holding = none) :
    G.guesses ⟨s, Function.update w.jobs i o⟩ = G.guesses w := by
  rw [Guessing.guesses_update, hlive, hafter, ← hbefore]
  exact congrArg (Guesses.mk _) (Function.update_eq_self i fun j => (w.jobs j).bind G.holding)

theorem Guessing.Guarded.step (h : G.Guarded S limit) {event : ThreadEvent ι κ Ask Answer ε α}
    (hprogram : ∀ i job, w.jobs i = some job → ∃ t, job.program = S.program t i job.call)
    (hstep : S.Step w event w') (hapart : G.Apart w event) :
    Step limit (G.guesses w) (G.observe w event) (G.guesses w') := by
  cases hstep with
  | @start i call hidle =>
      rw [Guessing.guesses_update_free (o := some ⟨call, S.program w.shared i call, []⟩) rfl
        (by rw [hidle]; rfl)
        (h.start w.shared i call)]
      exact .quiet _
  | @exchange i job x s hjob hawaits hresponds =>
      rcases hapart i x job rfl hjob with ⟨halone, hcurrent, hcounted⟩
      have hact :=
        h.exchange w.shared i job x s (hprogram i job hjob) hawaits hresponds hcurrent hcounted
      have hshown : G.observe w (.exchange i x) = G.shows job x := by
        change (w.jobs i).bind _ = _
        rw [hjob, Option.bind_some]
      rw [hshown]
      exact hact.step hjob halone
  | @settle i job out hjob htrace =>
      rcases h.settle w.shared i job out (hprogram i job hjob) htrace with ⟨hfree, hlive⟩
      rw [Guessing.guesses_update_free hlive (by rw [hjob, Option.bind_some, hfree]) rfl]
      exact .quiet _
  | @outside s houtside =>
      have hsame : G.guesses ⟨s, w.jobs⟩ = G.guesses w := by
        rw [Guessing.guesses, h.outside w.shared s houtside]
        rfl
      rw [hsame]
      exact .quiet _

/-- A run from a pool with nothing under way, whose calls keep apart. -/
structure ApartRun (G : Guessing σ κ Ask Answer ε α) (S : Service σ ι κ Ask Answer ε α)
    (w : ThreadPool σ ι κ Ask Answer ε α)
    (labels : List (ThreadEvent ι κ Ask Answer ε α × Option Shown))
    (w' : ThreadPool σ ι κ Ask Answer ε α) : Prop where
  idle : ∀ i, w.jobs i = none
  run : Run (Shows S.Step G.observe) w labels w'
  apart : ∀ k u label u', StepAt (Shows S.Step G.observe) w labels k u label u' → G.Apart u label.1

/-- The guesses of a guarded service are bounded where its calls keep apart. -/
theorem Guessing.Guarded.bounded (h : G.Guarded S limit)
    {labels : List (ThreadEvent ι κ Ask Answer ε α × Option Shown)}
    (hrun : ApartRun G S w labels w') : Bounded limit (labels.map Prod.snd) := by
  refine bounded_of_steps G.guesses hrun.run (consistent_of_idle fun i => ?_)
    fun k u label u' hat => ?_
  · change (w.jobs i).bind G.holding = none
    rw [hrun.idle i]
    rfl
  · exact h.step (Service.run_program (Shows.run hat.before) hrun.idle) hat.taken.1
      (hrun.apart k u label u' hat)

/-! ### Runs that can be computed -/

section Computed

variable [DecidableEq Ask] [DecidableEq ε] [DecidableEq α] (G) (S)
  (effect? : ι → σ → Exchange Ask Answer ε → Option σ)

/-- Take the step of an event that shows what is written beside it. -/
def showing? : ThreadPool σ ι κ Ask Answer ε α → ThreadEvent ι κ Ask Answer ε α × Option Shown →
    Option (ThreadPool σ ι κ Ask Answer ε α) :=
  Shows.next? (S.next? effect?) G.observe

/-- Take it where a check passes. -/
def apart? (check : ThreadPool σ ι κ Ask Answer ε α → ThreadEvent ι κ Ask Answer ε α → Bool) :
    ThreadPool σ ι κ Ask Answer ε α → ThreadEvent ι κ Ask Answer ε α × Option Shown →
      Option (ThreadPool σ ι κ Ask Answer ε α) :=
  checked? (fun w label => check w label.1) (showing? G S effect?)

variable {G S effect?} {labels : List (ThreadEvent ι κ Ask Answer ε α × Option Shown)}

theorem run_of_showing (sound : ∀ i s x s', effect? i s x = some s' → S.respond i s x s')
    (h : labels.foldlM (showing? G S effect?) w = some w') :
    Run (Shows S.Step G.observe) w labels w' :=
  Run.of_foldlM (Shows.next?_step (Service.next?_step sound)) h

theorem ApartRun.of_foldlM {check : ThreadPool σ ι κ Ask Answer ε α →
    ThreadEvent ι κ Ask Answer ε α → Bool}
    (sound : ∀ i s x s', effect? i s x = some s' → S.respond i s x s')
    (unique : ∀ i s x t u, effect? i s x = some t → S.respond i s x u → u = t)
    (hcheck : ∀ w event, check w event = true → G.Apart w event) (hidle : ∀ i, w.jobs i = none)
    (h : labels.foldlM (apart? G S effect? check) w = some w') : ApartRun G S w labels w' := by
  refine ⟨hidle, Run.of_foldlM (fun w label v hv => ?_) h, fun k u label u' hat => ?_⟩
  · exact Shows.next?_step (Service.next?_step sound) w label v (checked?_next hv)
  · unfold apart? at h
    have hunique : ∀ w label v v', showing? G S effect? w label = some v →
        Shows S.Step G.observe w label v' → v' = v := fun w label v v' hv hstep =>
      Service.next?_unique unique w label.1 v v' (Option.ite_none_right_eq_some.mp hv).2 hstep.1
    have hpasses := hat.checked hunique h
    exact hcheck u label.1 hpasses

end Computed

end Services

end Attempts

end Lendoor
