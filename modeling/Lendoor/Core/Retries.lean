import Lendoor.Core.Parallel

/-! # Bounded retries

A procedure attempted until it succeeds, throws what is not to be tried again, or has had
its last attempt. The outcome is that of one attempt, and where that one failed for a
reason to try again, every attempt before it has taken its time.
-/

namespace Lendoor

namespace Async

variable {Ask : Type} {Answer : Ask → Type} {ε α : Type}

/-- Attempts, a pause after each that failed. With no attempt left there is the fallback. -/
def retrying (retryable : ε → Bool) (pause : Nat → Async Ask Answer ε Unit)
    (body : Async Ask Answer ε α) (fallback : ε) :
    Nat → Nat → Async Ask Answer ε α
  | _, 0 => .throw fallback
  | attempt, left + 1 => do
      match ← body.settled with
      | .ok a => pure a
      | .error error =>
          if left = 0 ∨ retryable error = false then .throw error
          else do
            pause attempt
            retrying retryable pause body fallback (attempt + 1) left

theorem AsksOnly.retrying {P : Ask → Prop} {retryable : ε → Bool}
    {pause : Nat → Async Ask Answer ε Unit}
    {body : Async Ask Answer ε α} {fallback : ε} (hpause : ∀ attempt, (pause attempt).AsksOnly P)
    (hbody : body.AsksOnly P)
    (attempt left : Nat) : (retrying retryable pause body fallback attempt left).AsksOnly P := by
  induction left generalizing attempt with
  | zero => trivial
  | succ left ih =>
      refine .bind hbody.settled fun r => ?_
      cases r with
      | ok a => trivial
      | error error =>
          dsimp only
          split
          · trivial
          · exact .bind (hpause attempt) fun _ => ih (attempt + 1)

end Async

open Async (Exchange retrying)

/-- What failed attempts and their pauses take. -/
def spent (bodyTime : Nat) (pauseTime : Nat → Nat) : Nat → Nat → Nat
  | _, 0 => 0
  | attempt, left + 1 => bodyTime + pauseTime attempt + spent bodyTime pauseTime (attempt + 1) left

namespace Exec

variable {σ Ask : Type} {Answer : Ask → Type} {ε α : Type} {respond : σ →
  Exchange Ask Answer ε → σ → Prop}
  {s s' : σ} {asked : List (Exchange Ask Answer ε)}

section Clock

variable (clock : σ → Nat) {retryable : ε → Bool} {pause : Nat → Async Ask Answer ε Unit}
  {body : Async Ask Answer ε α}
  {fallback : ε} {bodyTime : Nat} {pauseTime : Nat → Nat}

/-- The outcome is that of the last attempt made. A failure that may be tried again ends the
last attempt that is allowed, after the time of those before it. -/
theorem retrying_last (hbody : ∀ {s s' : σ} {asked error},
    Exec respond s body asked (.error error) s' →
      retryable error = true → clock s + bodyTime ≤ clock s')
    (hpause : ∀ {attempt} {s s' : σ} {asked out}, Exec respond s (pause attempt) asked out s' →
      out = .ok () ∧ clock s + pauseTime attempt ≤ clock s')
    {attempt left : Nat} {out : Except ε α}
    (h : Exec respond s (retrying retryable pause body fallback attempt (left + 1)) asked out s') :
    ∃ u before after, asked = before ++ after ∧ Run respond s before u ∧
      Exec respond u body after out s' ∧
      ∀ error, out = .error error → retryable error = true →
        clock s + spent bodyTime pauseTime attempt left ≤ clock u := by
  induction left generalizing s asked attempt with
  | zero =>
      rcases h.bind_inv with ⟨error, hthrow, -⟩ | ⟨r, t, first, rest, rfl, hfirst, hrest⟩
      · rcases hthrow.settled_inv with ⟨r, hr, -⟩
        cases hr
      · rcases hfirst.settled_inv with ⟨r', hr, hattempt⟩
        cases hr
        refine ⟨s, [], first ++ rest, rfl, .nil s, ?_, fun _ _ _ => Nat.le_refl _⟩
        cases r with
        | ok a =>
            rcases pure_iff.mp hrest with ⟨rfl, rfl, rfl⟩
            rwa [List.append_nil]
        | error error =>
            rcases throw_iff.mp (by simpa using hrest) with ⟨rfl, rfl, rfl⟩
            rwa [List.append_nil]
  | succ left ih =>
      rcases h.bind_inv with ⟨error, hthrow, -⟩ | ⟨r, t, first, rest, rfl, hfirst, hrest⟩
      · rcases hthrow.settled_inv with ⟨r, hr, -⟩
        cases hr
      · rcases hfirst.settled_inv with ⟨r', hr, hattempt⟩
        cases hr
        cases r with
        | ok a =>
            rcases pure_iff.mp hrest with ⟨rfl, rfl, rfl⟩
            refine ⟨s, [], first ++ [], rfl, .nil s, ?_, by simp⟩
            rwa [List.append_nil]
        | error error =>
            dsimp only at hrest
            split at hrest
            · rename_i hlast
              rcases throw_iff.mp hrest with ⟨rfl, rfl, rfl⟩
              refine ⟨s, [], first ++ [], rfl, .nil s, by rwa [List.append_nil],
                fun error' hout hretry => ?_⟩
              cases hout
              simp [hretry] at hlast
            · rename_i hagain
              have hretry : retryable error = true := by simpa using (not_or.mp hagain).2
              rcases hrest.bind_inv with ⟨error', hthrow, -⟩ |
                ⟨_, u, paused, more, rfl, hpaused, hmore⟩
              · cases (hpause hthrow).1
              · rcases ih hmore with ⟨v, before, after, rfl, hrun, hlast, htime⟩
                refine ⟨v, first ++ (paused ++ before), after, by simp,
                  hattempt.run.append (hpaused.run.append hrun), hlast,
                  fun error' hout hretry' => ?_⟩
                have h₁ := hbody hattempt hretry
                have h₂ := (hpause hpaused).2
                have h₃ := htime error' hout hretry'
                rw [spent]
                omega

end Clock

end Exec

end Lendoor
