import Lendoor.Core.Async
import Lendoor.Core.Runs

/-! # Procedures against a world

A procedure run on its own, from its first call to its end, against a world that
answers its calls and changes with them. Inverting an execution peels the procedure
apart call by call.
-/

namespace Lendoor

open Async

section Exec

variable {σ Ask : Type} {Answer : Ask → Type} {ε α β : Type}

/-- `Exec respond s p asked out s'`: from `s` the procedure exchanges `asked` with the
world, ends with `out` and leaves `s'`. -/
inductive Exec (respond : σ → Exchange Ask Answer ε → σ → Prop) :
    σ → Async Ask Answer ε α → List (Exchange Ask Answer ε) → Except ε α → σ → Prop
  | pure (s : σ) (a : α) : Exec respond s (.pure a) [] (.ok a) s
  | throw (s : σ) (error : ε) : Exec respond s (.throw error) [] (.error error) s
  | await {s t u : σ} {ask : Ask} {next : Except ε (Answer ask) → Async Ask Answer ε α}
      {r : Except ε (Answer ask)} {asked : List (Exchange Ask Answer ε)} {out : Except ε α} :
      respond s ⟨ask, r⟩ t → Exec respond t (next r) asked out u →
      Exec respond s (.await ask next) (⟨ask, r⟩ :: asked) out u

namespace Exec

variable {respond : σ → Exchange Ask Answer ε → σ → Prop} {s s' t : σ}
  {asked : List (Exchange Ask Answer ε)}

theorem pure_iff {a : α} {out : Except ε α} :
    Exec respond s (.pure a : Async Ask Answer ε α) asked out s' ↔
      asked = [] ∧ out = .ok a ∧ s' = s := by
  constructor
  · intro h
    cases h
    exact ⟨rfl, rfl, rfl⟩
  · rintro ⟨rfl, rfl, rfl⟩
    exact .pure _ _

theorem throw_iff {error : ε} {out : Except ε α} :
    Exec respond s (.throw error : Async Ask Answer ε α) asked out s' ↔
      asked = [] ∧ out = .error error ∧ s' = s := by
  constructor
  · intro h
    cases h
    exact ⟨rfl, rfl, rfl⟩
  · rintro ⟨rfl, rfl, rfl⟩
    exact .throw _ _

/-- An execution is a trace along which the world responds. -/
theorem of_trace {p : Async Ask Answer ε α} {out : Except ε α} (htrace : Trace p asked out)
    (hrun : Run respond s asked s') : Exec respond s p asked out s' := by
  induction htrace generalizing s with
  | pure a =>
      rw [← hrun.nil_inv]
      exact .pure _ _
  | throw error =>
      rw [← hrun.nil_inv]
      exact .throw _ _
  | @await ask next r rest out _ ih =>
      rcases hrun.cons_inv with ⟨t, hfirst, hrest⟩
      exact .await hfirst (ih hrest)

theorem trace {p : Async Ask Answer ε α} {out : Except ε α} (h : Exec respond s p asked out s') :
    Trace p asked out := by
  induction h with
  | pure _ a => exact .pure a
  | throw _ error => exact .throw error
  | await _ _ ih => exact .await ih

theorem run {p : Async Ask Answer ε α} {out : Except ε α} (h : Exec respond s p asked out s') :
    Run respond s asked s' := by
  induction h with
  | pure s | throw s => exact Run.nil s
  | await hrespond _ ih => exact (Run.single hrespond).append ih

/-- An execution against a world is one against a world that does more. -/
theorem mono {weaker : σ → Exchange Ask Answer ε → σ → Prop}
    {p : Async Ask Answer ε α} {out : Except ε α}
    (h : Exec respond s p asked out s') (weaken : ∀ s x t, respond s x t → weaker s x t) :
    Exec weaker s p asked out s' := by
  induction h with
  | pure s a => exact .pure s a
  | throw s error => exact .throw s error
  | await hrespond _ ih => exact .await (weaken _ _ _ hrespond) ih

/-- What a run of the world keeps, an execution keeps. -/
theorem invariant {P : σ → Prop} {p : Async Ask Answer ε α} {out : Except ε α}
    (h : Exec respond s p asked out s') (keep : ∀ s x s', P s → respond s x s' → P s')
    (start : P s) :
    P s' := by
  induction h with
  | pure | throw => exact start
  | await hrespond _ ih => exact ih (keep _ _ _ start hrespond)

/-- What each exchange keeps that the procedure may ask for, beside the exchanges so far. -/
theorem after {I : List (Exchange Ask Answer ε) → σ → Prop}
    {P : List (Exchange Ask Answer ε) → Ask → Prop}
    {p : Async Ask Answer ε α} {past : List (Exchange Ask Answer ε)} {out : Except ε α}
    (h : Exec respond s p asked out s') (asks : p.AsksAfter P past)
    (keep : ∀ past s x s', I past s → P past x.1 → respond s x s' → I (past ++ [x]) s')
    (start : I past s) :
    I (past ++ asked) s' := by
  induction h generalizing past with
  | pure | throw => simpa using start
  | await hrespond _ ih => simpa using ih (asks.2 _) (keep _ _ _ _ start asks.1 hrespond)

/-- A sequence throws in its first part, or goes through it and on to the second. -/
theorem bind_inv {p : Async Ask Answer ε α} {f : α → Async Ask Answer ε β} {out : Except ε β}
    (h : Exec respond s (p >>= f) asked out s') :
    (∃ error, Exec respond s p asked (.error error) s' ∧ out = .error error) ∨
      ∃ a t before after, asked = before ++ after ∧ Exec respond s p before (.ok a) t ∧
        Exec respond t (f a) after out s' := by
  induction p generalizing s asked with
  | pure a => exact .inr ⟨a, s, [], asked, rfl, .pure s a, h⟩
  | throw error =>
      rcases throw_iff.mp h with ⟨rfl, rfl, rfl⟩
      exact .inl ⟨error, .throw _ _, rfl⟩
  | await ask next ih =>
      cases h with
      | await hrespond hrest =>
          rcases ih _ hrest with ⟨error, hfirst, hout⟩ | ⟨a, t, before, after, rfl, hfirst, hsecond⟩
          · exact .inl ⟨error, .await hrespond hfirst, hout⟩
          · exact .inr ⟨a, t, _ :: before, after, rfl, .await hrespond hfirst, hsecond⟩

/-- What the first part establishes, where the rest leaves the state alone. -/
theorem bind_first {P : σ → Prop} {p : Async Ask Answer ε α}
    {f : α → Async Ask Answer ε β} {out : Except ε β}
    (h : Exec respond s (p >>= f) asked out s')
    (hfirst : ∀ before out t, before ⊆ asked → Exec respond s p before out t → P t)
    (hrest : ∀ a t after, Exec respond t (f a) after out s' → s' = t) : P s' := by
  rcases h.bind_inv with ⟨error, hp, -⟩ | ⟨a, t, before, after, rfl, hp, hf⟩
  · exact hfirst asked _ s' (List.Subset.refl _) hp
  · rw [hrest a t after hf]
    exact hfirst before _ t (List.subset_append_left _ _) hp

theorem call_inv {ask : Ask} {out : Except ε (Answer ask)}
    (h : Exec respond s (call ask) asked out s') :
    asked = [⟨ask, out⟩] ∧ respond s ⟨ask, out⟩ s' := by
  cases h with
  | await hrespond hrest =>
      rename_i rest r
      rcases r with error | answer
      · rcases throw_iff.mp hrest with ⟨rfl, rfl, rfl⟩
        exact ⟨rfl, hrespond⟩
      · rcases pure_iff.mp hrest with ⟨rfl, rfl, rfl⟩
        exact ⟨rfl, hrespond⟩

/-- After an awaited call, the rest of a sequence. -/
theorem call_bind_inv {ask : Ask} {f : Answer ask → Async Ask Answer ε β} {out : Except ε β}
    (h : Exec respond s (call ask >>= f) asked out s') :
    (∃ error, asked = [⟨ask, .error error⟩] ∧ respond s ⟨ask, .error error⟩ s' ∧
      out = .error error) ∨
      ∃ a t rest, asked = ⟨ask, .ok a⟩ :: rest ∧ respond s ⟨ask, .ok a⟩ t ∧
        Exec respond t (f a) rest out s' := by
  rcases h.bind_inv with ⟨error, hcall, rfl⟩ | ⟨a, t, before, rest, rfl, hcall, hrest⟩
  · rcases hcall.call_inv with ⟨rfl, hrespond⟩
    exact .inl ⟨error, rfl, hrespond, rfl⟩
  · rcases hcall.call_inv with ⟨rfl, hrespond⟩
    exact .inr ⟨a, t, rest, rfl, hrespond, hrest⟩

theorem caught_bind_inv {ask : Ask} {f : Except ε (Answer ask) → Async Ask Answer ε β}
    {out : Except ε β} (h : Exec respond s (caught ask >>= f) asked out s') :
    ∃ r t rest, asked = ⟨ask, r⟩ :: rest ∧ respond s ⟨ask, r⟩ t ∧
      Exec respond t (f r) rest out s' := by
  cases h with
  | await hrespond hrest => exact ⟨_, _, _, rfl, hrespond, hrest⟩

/-- Code between awaits throws, or goes on with its value. -/
theorem lift_bind_inv {x : Except ε α} {f : α → Async Ask Answer ε β} {out : Except ε β}
    (h : Exec respond s (lift x >>= f) asked out s') :
    (∃ error, x = .error error ∧ asked = [] ∧ out = .error error ∧ s' = s) ∨
      ∃ a, x = .ok a ∧ Exec respond s (f a) asked out s' := by
  cases x with
  | ok a => exact .inr ⟨a, rfl, h⟩
  | error error =>
      rcases throw_iff.mp h with ⟨rfl, rfl, rfl⟩
      exact .inl ⟨error, rfl, rfl, rfl, rfl⟩

/-- Run a procedure against a world that is a function. -/
def simulate (world : σ → (ask : Ask) → Except ε (Answer ask) × σ) :
    σ → Async Ask Answer ε α → List (Exchange Ask Answer ε) × Except ε α × σ
  | s, .pure a => ([], .ok a, s)
  | s, .throw error => ([], .error error, s)
  | s, .await ask next =>
      let rest := simulate world (world s ask).2 (next (world s ask).1)
      (⟨ask, (world s ask).1⟩ :: rest.1, rest.2)

theorem of_simulate {world : σ → (ask : Ask) → Except ε (Answer ask) × σ}
    (sound : ∀ s ask, respond s ⟨ask, (world s ask).1⟩ (world s ask).2) (p : Async Ask Answer ε α)
    (s : σ) :
    Exec respond s p (simulate world s p).1 (simulate world s p).2.1 (simulate world s p).2.2 := by
  induction p generalizing s with
  | pure a => exact .pure s a
  | throw error => exact .throw s error
  | await ask next ih => exact .await (sound s ask) (ih _ _)

end Exec

end Exec

end Lendoor
