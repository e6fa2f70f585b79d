import Lendoor.Core.Service

/-! # What has happened

Facts about the events of a run so far: what the calls have exchanged, and what that shows
of everything that is stored. A fact once recorded stays; so what a call was answered is
still known when it goes on to write, whatever the others did meanwhile.
-/

namespace Lendoor

open Async

section Within

variable {Ask Ask' : Type} {Answer : Ask' → Type} {ε α : Type} (inj : Ask → Ask')

/-- A procedure of a part, among the calls of the whole. -/
def Async.within : Async Ask (fun ask => Answer (inj ask)) ε α → Async Ask' Answer ε α
  | .pure a => .pure a
  | .throw error => .throw error
  | .await ask next => .await (inj ask) fun r => (next r).within

/-- An exchange of the part. -/
def outer (x : Exchange Ask (fun ask => Answer (inj ask)) ε) :
    Exchange Ask' Answer ε := ⟨inj x.1, x.2⟩

variable {inj} {P : List (Exchange Ask' Answer ε) → Ask' → Prop}
  {p : Async Ask (fun ask => Answer (inj ask)) ε α}
  {past : List (Exchange Ask (fun ask => Answer (inj ask)) ε)}

theorem Async.AsksAfter.imp {Q : List (Exchange Ask (fun ask => Answer (inj ask)) ε) → Ask → Prop}
    {R : List (Exchange Ask (fun ask => Answer (inj ask)) ε) → Ask → Prop} (h : p.AsksAfter Q past)
    (himp : ∀ past ask, Q past ask → R past ask) : p.AsksAfter R past := by
  induction p generalizing past with
  | pure | throw => trivial
  | await ask next ih => exact ⟨himp _ _ h.1, fun r => ih r (h.2 r)⟩

theorem Async.AsksAfter.within
    (h : p.AsksAfter (fun asked ask => P (asked.map (outer inj)) (inj ask)) past) :
    (p.within inj).AsksAfter P (past.map (outer inj)) := by
  induction p generalizing past with
  | pure | throw => trivial
  | await ask next ih =>
      refine ⟨h.1, fun r => ?_⟩
      have hnext := ih r (h.2 r)
      rwa [List.map_append] at hnext

end Within

section History

variable {σ ι κ Ask : Type} {Answer : Ask → Type} {ε α : Type} [DecidableEq ι]

variable (S : Service σ ι κ Ask Answer ε α) (w : ThreadPool σ ι κ Ask Answer ε α)

/-- Event `k` is an exchange that thread `i` made while it ran the call. -/
def Exchanged (events : List (ThreadEvent ι κ Ask Answer ε α)) (k : Nat) (i : ι) (call : κ)
    (x : Exchange Ask Answer ε) : Prop :=
  ∃ v v' job, StepAt S.Step w events k v (.exchange i x) v' ∧ v.jobs i = some job ∧ job.call = call

variable {S w} {events : List (ThreadEvent ι κ Ask Answer ε α)} {k : Nat} {i : ι} {call : κ}
  {x : Exchange Ask Answer ε}

theorem Exchanged.snoc (h : Exchanged S w events k i call x)
    (event : ThreadEvent ι κ Ask Answer ε α) :
    Exchanged S w (events ++ [event]) k i call x := by
  rcases h with ⟨v, v', job, hat, hjob, hcall⟩
  exact ⟨v, v', job, hat.snoc, hjob, hcall⟩

theorem Exchanged.lt (h : Exchanged S w events k i call x) : k < events.length := by
  rcases h with ⟨v, v', job, hat, -⟩
  exact (List.getElem?_eq_some_iff.mp hat.found).choose

variable (S)

/-- What may become of the shared state at once. -/
inductive Change : σ → σ → Prop
  | rest (s : σ) : Change s s
  | respond {i : ι} {s s' : σ} {x : Exchange Ask Answer ε} : S.respond i s x s' → Change s s'
  | settle (s : σ) (i : ι) (call : κ) (out : Except ε α) : Change s (S.settle s i call out)
  | outside {s s' : σ} : S.outside s s' → Change s s'

variable (w)

/-- What is recorded of the shared state by the events so far, and of what each call under
way has exchanged. `P` is what the procedures permit themselves to ask. -/
structure Records (P : κ → List (Exchange Ask Answer ε) → Ask → Prop)
    (I : List (ThreadEvent ι κ Ask Answer ε α) → σ → Prop)
    (A : List (ThreadEvent ι κ Ask Answer ε α) → σ → ι → κ → List (Exchange Ask Answer ε) → Prop) :
    Prop where
  keep : ∀ events event s, I events s → I (events ++ [event]) s
  settle : ∀ events s i call out, I events s → I events (S.settle s i call out)
  outside : ∀ events s s', I events s → S.outside s s' → I events s'
  fresh : ∀ events s i call, I events s → A events s i call []
  remember : ∀ events event s s' i call asked, I events s → Change S s s' →
    A events s i call asked →
    A (events ++ [event]) s' i call asked
  exchange : ∀ events s i call asked x s', I events s → A events s i call asked → P call asked x.1 →
    S.respond i s x s' → Exchanged S w (events ++ [.exchange i x]) events.length i call x →
    I (events ++ [.exchange i x]) s' ∧ A (events ++ [.exchange i x]) s' i call (asked ++ [x])

/-- The calls under way run the programs they were started with. -/
def Started (w : ThreadPool σ ι κ Ask Answer ε α) : Prop :=
  ∀ i job, w.jobs i = some job → ∃ s, job.program = S.program s i job.call

/-- The record of a pool. -/
structure Kept (I : List (ThreadEvent ι κ Ask Answer ε α) → σ → Prop)
    (A : List (ThreadEvent ι κ Ask Answer ε α) → σ → ι → κ → List (Exchange Ask Answer ε) → Prop)
    (events : List (ThreadEvent ι κ Ask Answer ε α)) (w : ThreadPool σ ι κ Ask Answer ε α) :
    Prop where
  started : Started S w
  shared : I events w.shared
  asked : ∀ i job, w.jobs i = some job → A events w.shared i job.call job.asked

variable {S w} {P : κ → List (Exchange Ask Answer ε) → Ask → Prop}
  {I : List (ThreadEvent ι κ Ask Answer ε α) → σ → Prop}
  {A : List (ThreadEvent ι κ Ask Answer ε α) → σ → ι → κ → List (Exchange Ask Answer ε) → Prop}

omit [DecidableEq ι] in
theorem Kept.of_idle (hidle : ∀ i, w.jobs i = none) (h : I [] w.shared) : Kept S I A [] w := by
  refine ⟨fun i job hjob => ?_, h, fun i job hjob => ?_⟩
  · rw [hidle i] at hjob
    cases hjob
  · rw [hidle i] at hjob
    cases hjob

/-- What holds of the jobs of the others and of the new one holds of all. -/
theorem forall_update {Q : ι → Job κ Ask Answer ε α → Prop}
    {jobs : ι → Option (Job κ Ask Answer ε α)} {i : ι}
    {o : Option (Job κ Ask Answer ε α)} (hold : ∀ j job, jobs j = some job → Q j job)
    (hnew : ∀ job, o = some job → Q i job) (j : ι) (job : Job κ Ask Answer ε α)
    (hjob : Function.update jobs i o j = some job) : Q j job := by
  by_cases hj : j = i
  · subst hj
    rw [Function.update_self] at hjob
    exact hnew job hjob
  · rw [Function.update_of_ne hj] at hjob
    exact hold j job hjob

theorem Started.step {w' : ThreadPool σ ι κ Ask Answer ε α} {event : ThreadEvent ι κ Ask Answer ε α}
    (h : Started S w) (hstep : S.Step w event w') : Started S w' := by
  cases hstep with
  | start =>
      refine forall_update h ?_
      rintro job ⟨⟩
      exact ⟨_, rfl⟩
  | @exchange i job x s hjob =>
      refine forall_update h ?_
      rintro job' ⟨⟩
      exact h i job hjob
  | settle =>
      refine forall_update h ?_
      rintro job ⟨⟩
  | outside => exact h

theorem Records.run {w' : ThreadPool σ ι κ Ask Answer ε α} (hrecords : Records S w P I A)
    (hasks : ∀ s i call, (S.program s i call).AsksAfter (P call) []) (hstart : Kept S I A [] w)
    (run : Run S.Step w events w') : Kept S I A events w' := by
  induction run with
  | nil => exact hstart
  | @snoc v v' events event before hstep ih =>
      have hothers : ∀ s', Change S v.shared s' → ∀ i job, v.jobs i = some job →
          A (events ++ [event]) s' i job.call job.asked := fun s' hchange i job hjob =>
        hrecords.remember _ _ _ s' _ _ _ ih.shared hchange (ih.asked i job hjob)
      have hshared := hrecords.keep events event _ ih.shared
      have hstarted := ih.started.step hstep
      cases hstep with
      | start =>
          refine ⟨hstarted, hshared, forall_update (hothers _ (.rest _)) ?_⟩
          rintro job ⟨⟩
          exact hrecords.fresh _ _ _ _ hshared
      | @exchange i job x s hjob hawaits hresponds =>
          rcases ih.started i job hjob with ⟨t, hprogram⟩
          have hpermitted : P job.call job.asked x.1 := by
            rw [hprogram] at hawaits
            exact (hasks t i job.call).awaits hawaits
          have hexchanged : Exchanged S w (events ++ [.exchange i x]) events.length i job.call x :=
            ⟨_, _, job, StepAt.concat before (.exchange hjob hawaits hresponds), hjob, rfl⟩
          rcases hrecords.exchange events _ i job.call job.asked x s ih.shared (ih.asked i job hjob)
            hpermitted hresponds
            hexchanged with ⟨hafter, hasked⟩
          refine ⟨hstarted, hafter, forall_update (hothers _ (.respond hresponds)) ?_⟩
          rintro job' ⟨⟩
          exact hasked
      | @settle i job out =>
          refine ⟨hstarted, hrecords.settle _ _ _ _ _ hshared,
            forall_update (hothers _ (.settle _ _ _ _)) ?_⟩
          rintro job' ⟨⟩
      | outside houtside =>
          exact ⟨hstarted, hrecords.outside _ _ _ hshared houtside, hothers _ (.outside houtside)⟩

/-- A step of a call is one that its procedure permits itself. -/
theorem Kept.permitted {w' : ThreadPool σ ι κ Ask Answer ε α} (h : Kept S I A events w)
    (hasks : ∀ s i call, (S.program s i call).AsksAfter (P call) [])
    (hstep : S.Step w (.exchange i x) w') :
    ∃ job, w.jobs i = some job ∧ P job.call job.asked x.1 ∧ S.respond i w.shared x w'.shared := by
  cases hstep with
  | @exchange _ job _ s hjob hawaits hresponds =>
      rcases h.started i job hjob with ⟨t, hprogram⟩
      rw [hprogram] at hawaits
      exact ⟨job, hjob, (hasks t i job.call).awaits hawaits, hresponds⟩

/-! ### Facts about events -/

variable (S w) (F : List (ThreadEvent ι κ Ask Answer ε α) → Nat → Exchange Ask Answer ε → Prop)

/-- The exchanges of a call are events of the run, in order, each with what it shows. -/
structure Happened (events : List (ThreadEvent ι κ Ask Answer ε α)) (i : ι) (call : κ)
    (asked : List (Exchange Ask Answer ε)) :
    Prop where
  times : ∃ time : Nat → Nat, (∀ n m, n < m → m < asked.length → time n < time m) ∧
    ∀ n x, asked[n]? = some x → Exchanged S w events (time n) i call x ∧ F events (time n) x

variable {S w F} {asked : List (Exchange Ask Answer ε)}

theorem Happened.nil : Happened S w F events i call [] :=
  ⟨id, fun _ _ hlt _ => hlt, by simp⟩

theorem Happened.remember {event : ThreadEvent ι κ Ask Answer ε α}
    (hmono : ∀ events event k x, F events k x → F (events ++ [event]) k x)
    (h : Happened S w F events i call asked) :
    Happened S w F (events ++ [event]) i call asked := by
  rcases h with ⟨time, hsorted, hfacts⟩
  exact ⟨time, hsorted,
    fun n x hx => ⟨(hfacts n x hx).1.snoc event, hmono _ _ _ _ (hfacts n x hx).2⟩⟩

theorem Happened.snoc {event : ThreadEvent ι κ Ask Answer ε α}
    (hmono : ∀ events event k x, F events k x → F (events ++ [event]) k x)
    (h : Happened S w F events i call asked)
    (hx : Exchanged S w (events ++ [event]) events.length i call x)
    (hfact : F (events ++ [event]) events.length x) :
    Happened S w F (events ++ [event]) i call (asked ++ [x]) := by
  rcases h with ⟨time, hsorted, hfacts⟩
  have hold : ∀ n, n < asked.length → Function.update time asked.length events.length n = time n :=
    fun n hn => Function.update_of_ne (Nat.ne_of_lt hn) _ _
  refine ⟨Function.update time asked.length events.length, fun n m hlt hm => ?_, fun n y hy => ?_⟩
  · rw [List.length_append, List.length_singleton] at hm
    rw [hold n (by omega)]
    by_cases hlast : m = asked.length
    · rw [hlast, Function.update_self]
      exact (hfacts n _ (List.getElem?_eq_getElem (by omega))).1.lt
    · rw [hold m (by omega)]
      exact hsorted n m hlt (by omega)
  · rcases getElem?_snoc_cases hy with ⟨hn, hy⟩ | ⟨rfl, rfl⟩
    · rw [hold n hn]
      exact ⟨(hfacts n y hy).1.snoc event, hmono _ _ _ _ (hfacts n y hy).2⟩
    · rw [Function.update_self]
      exact ⟨hx, hfact⟩

theorem Happened.at {n : Nat} (h : Happened S w F events i call asked) (hx : asked[n]? = some x) :
    ∃ k, Exchanged S w events k i call x ∧ F events k x := by
  rcases h with ⟨time, -, hfacts⟩
  exact ⟨time n, hfacts n x hx⟩

/-- Of two exchanges, the earlier is the earlier event. -/
theorem Happened.order {n m : Nat} {y : Exchange Ask Answer ε}
    (h : Happened S w F events i call asked) (hlt : n < m)
    (hx : asked[n]? = some x) (hy : asked[m]? = some y) :
    ∃ k l, k < l ∧ F events k x ∧ Exchanged S w events l i call y := by
  rcases h with ⟨time, hsorted, hfacts⟩
  exact ⟨time n, time m, hsorted n m hlt (List.getElem?_eq_some_iff.mp hy).choose,
    (hfacts n x hx).2, (hfacts m y hy).1⟩

/-- Facts about events are recorded of the calls. -/
theorem Records.of_facts (hkeep : ∀ events event s, I events s → I (events ++ [event]) s)
    (hmono : ∀ events event k x, F events k x → F (events ++ [event]) k x)
    (hsettle : ∀ events s i call out, I events s → I events (S.settle s i call out))
    (houtside : ∀ events s s', I events s → S.outside s s' → I events s')
    (hexchange : ∀ events s i call asked x s', I events s → Happened S w F events i call asked →
      P call asked x.1 →
      S.respond i s x s' → Exchanged S w (events ++ [.exchange i x]) events.length i call x →
      I (events ++ [.exchange i x]) s' ∧ F (events ++ [.exchange i x]) events.length x) :
    Records S w P I fun events _ i call asked => Happened S w F events i call asked where
  keep := hkeep
  settle := hsettle
  outside := houtside
  fresh _ _ _ _ _ := Happened.nil
  remember _ _ _ _ _ _ _ _ _ h := h.remember hmono
  exchange events s i call asked x s' hI h hP hresponds hx := by
    rcases hexchange events s i call asked x s' hI h hP hresponds hx with ⟨hI', hfact⟩
    exact ⟨hI', h.snoc hmono hx hfact⟩

end History

end Lendoor
