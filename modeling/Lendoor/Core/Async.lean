import Mathlib.Logic.Basic

/-! # Asynchronous procedures

A procedure that awaits answers from its environment, one call at a time. An
awaited call answers or throws. What a procedure does is its traces, the exchanges
in order with the outcome they lead to, so that what it asks after what it was told
is read off a trace, whatever the environment does meanwhile.
-/

namespace Lendoor

/-- A procedure that returns an `α` or throws an `ε`, awaiting typed answers. -/
inductive Async (Ask : Type) (Answer : Ask → Type) (ε α : Type) : Type
  | pure (a : α)
  | throw (error : ε)
  | await (ask : Ask) (next : Except ε (Answer ask) → Async Ask Answer ε α)

namespace Async

variable {Ask : Type} {Answer : Ask → Type} {ε α β : Type}

def bind : Async Ask Answer ε α → (α → Async Ask Answer ε β) → Async Ask Answer ε β
  | .pure a, f => f a
  | .throw error, _ => .throw error
  | .await ask next, f => .await ask fun r => (next r).bind f

instance instMonadAsync : Monad (Async Ask Answer ε) where
  pure := Async.pure
  bind := Async.bind

/-- `await` of one call: its error is thrown on. -/
def call (ask : Ask) : Async Ask Answer ε (Answer ask) :=
  .await ask fun r => match r with
    | .ok answer => .pure answer
    | .error error => .throw error

/-- `try` around one awaited call: what it answered or threw. -/
def caught (ask : Ask) : Async Ask Answer ε (Except ε (Answer ask)) := .await ask .pure

/-- Code between two awaits. -/
def lift : Except ε α → Async Ask Answer ε α
  | .ok a => .pure a
  | .error error => .throw error

theorem bind_assoc {γ : Type} (p : Async Ask Answer ε α) (f : α → Async Ask Answer ε β)
    (g : β → Async Ask Answer ε γ) : (p >>= f) >>= g = p >>= fun a => f a >>= g := by
  induction p with
  | pure a => rfl
  | throw error => rfl
  | await ask next ih => exact congrArg (Async.await ask) (funext ih)

theorem lift_ok_bind (a : α) (f : α → Async Ask Answer ε β) : (lift (.ok a) >>= f) = f a := rfl

/-! ## Traces -/

/-- One awaited call with its outcome. -/
abbrev Exchange (Ask : Type) (Answer : Ask → Type) (ε : Type) : Type :=
  (ask : Ask) × Except ε (Answer ask)

/-- `Trace p trace out`: awaiting the exchanges in order, the procedure ends with `out`. -/
inductive Trace :
    Async Ask Answer ε α → List (Exchange Ask Answer ε) → Except ε α → Prop
  | pure (a : α) : Trace (.pure a) [] (.ok a)
  | throw (error : ε) : Trace (.throw error) [] (.error error)
  | await {ask : Ask} {next : Except ε (Answer ask) → Async Ask Answer ε α}
      {r : Except ε (Answer ask)} {trace : List (Exchange Ask Answer ε)} {out : Except ε α} :
      Trace (next r) trace out → Trace (.await ask next) (⟨ask, r⟩ :: trace) out

/-- `Awaits p trace ask`: after the exchanges in order, the procedure awaits `ask`. -/
inductive Awaits : Async Ask Answer ε α → List (Exchange Ask Answer ε) → Ask → Prop
  | here {ask : Ask} {next : Except ε (Answer ask) → Async Ask Answer ε α} :
      Awaits (.await ask next) [] ask
  | await {ask ask' : Ask} {next : Except ε (Answer ask) → Async Ask Answer ε α}
      {r : Except ε (Answer ask)} {trace : List (Exchange Ask Answer ε)} :
      Awaits (next r) trace ask' → Awaits (.await ask next) (⟨ask, r⟩ :: trace) ask'

variable {trace : List (Exchange Ask Answer ε)}

theorem trace_pure {a : α} {out : Except ε α} :
    Trace (.pure a : Async Ask Answer ε α) trace out ↔ trace = [] ∧ out = .ok a := by
  constructor
  · intro h
    cases h
    exact ⟨rfl, rfl⟩
  · intro h
    rcases h with ⟨rfl, rfl⟩
    exact .pure _

theorem trace_throw {error : ε} {out : Except ε α} :
    Trace (.throw error : Async Ask Answer ε α) trace out ↔ trace = [] ∧ out = .error error := by
  constructor
  · intro h
    cases h
    exact ⟨rfl, rfl⟩
  · intro h
    rcases h with ⟨rfl, rfl⟩
    exact .throw _

theorem trace_lift {x out : Except ε α} :
    Trace (lift x : Async Ask Answer ε α) trace out ↔ trace = [] ∧ out = x := by
  cases x with
  | ok a => exact trace_pure
  | error error => exact trace_throw

theorem trace_call {ask : Ask} {out : Except ε (Answer ask)} :
    Trace (call ask) trace out ↔ trace = [⟨ask, out⟩] := by
  constructor
  · intro h
    cases h with
    | await hrest =>
        rename_i trace r
        cases r with
        | ok answer =>
            rcases trace_pure.mp hrest with ⟨rfl, rfl⟩
            rfl
        | error error =>
            rcases trace_throw.mp hrest with ⟨rfl, rfl⟩
            rfl
  · intro h
    subst h
    refine .await ?_
    cases out with
    | ok answer => exact .pure _
    | error error => exact .throw _

/-- A sequence throws in its first part, or goes through it and on to the second. -/
theorem trace_bind {p : Async Ask Answer ε α} {f : α → Async Ask Answer ε β} {out : Except ε β} :
    Trace (p >>= f) trace out ↔
      (∃ error, Trace p trace (.error error) ∧ out = .error error) ∨
        ∃ a before after, trace = before ++ after ∧ Trace p before (.ok a) ∧
          Trace (f a) after out := by
  constructor
  · intro h
    induction p generalizing trace with
    | pure a => exact .inr ⟨a, [], trace, rfl, .pure a, h⟩
    | throw error =>
        rcases trace_throw.mp h with ⟨rfl, rfl⟩
        exact .inl ⟨error, .throw _, rfl⟩
    | await ask next ih =>
        cases h with
        | await hrest =>
            rcases ih _ hrest with ⟨error, hfirst, hout⟩ | ⟨a, before, after, rfl, hfirst, hsecond⟩
            · exact .inl ⟨error, .await hfirst, hout⟩
            · exact .inr ⟨a, _ :: before, after, rfl, .await hfirst, hsecond⟩
  · intro h
    rcases h with ⟨error, hfirst, rfl⟩ | ⟨a, before, after, rfl, hfirst, hsecond⟩
    · generalize hout : (Except.error error : Except ε α) = out' at hfirst
      induction hfirst with
      | pure => cases hout
      | throw error' =>
          cases hout
          exact .throw _
      | await _ ih => exact .await (ih hout)
    · generalize hout : (Except.ok a : Except ε α) = out' at hfirst
      induction hfirst with
      | pure a' =>
          cases hout
          exact hsecond
      | throw => cases hout
      | await _ ih => exact .await (ih hout)

/-- The exchanges before one of a trace lead to its call. -/
theorem Trace.awaits {p : Async Ask Answer ε α} {before after : List (Exchange Ask Answer ε)}
    {x : Exchange Ask Answer ε} {out : Except ε α} (h : Trace p (before ++ x :: after) out) :
    Awaits p before x.1 := by
  induction before generalizing p with
  | nil =>
      cases h with
      | await => exact .here
  | cons y before ih =>
      cases h with
      | await hrest => exact .await (ih hrest)

theorem not_awaits_pure {a : α} {ask : Ask} :
    ¬ Awaits (.pure a : Async Ask Answer ε α) trace ask := by
  intro h
  cases h

theorem not_awaits_throw {error : ε} {ask : Ask} :
    ¬ Awaits (.throw error : Async Ask Answer ε α) trace ask := by
  intro h
  cases h

theorem awaits_call {ask ask' : Ask} :
    Awaits (call ask : Async Ask Answer ε (Answer ask)) trace ask' ↔ trace = [] ∧ ask' = ask := by
  constructor
  · intro h
    cases h with
    | here => exact ⟨rfl, rfl⟩
    | await hrest =>
        rename_i trace r
        cases r with
        | ok answer => exact absurd hrest not_awaits_pure
        | error error => exact absurd hrest not_awaits_throw
  · intro h
    rcases h with ⟨rfl, rfl⟩
    exact .here

/-- A sequence awaits in its first part, or after it in the second. -/
theorem awaits_bind {p : Async Ask Answer ε α} {f : α → Async Ask Answer ε β} {ask : Ask} :
    Awaits (p >>= f) trace ask ↔
      Awaits p trace ask ∨ ∃ a before after, trace = before ++ after ∧ Trace p before (.ok a) ∧
        Awaits (f a) after ask := by
  constructor
  · intro h
    induction p generalizing trace with
    | pure a => exact .inr ⟨a, [], trace, rfl, .pure a, h⟩
    | throw error => exact absurd h not_awaits_throw
    | await ask' next ih =>
        cases h with
        | here => exact .inl .here
        | await hrest =>
            rcases ih _ hrest with hfirst | ⟨a, before, after, rfl, hfirst, hsecond⟩
            · exact .inl (.await hfirst)
            · exact .inr ⟨a, _ :: before, after, rfl, .await hfirst, hsecond⟩
  · intro h
    rcases h with hfirst | ⟨a, before, after, rfl, hfirst, hsecond⟩
    · induction hfirst with
      | here => exact .here
      | await _ ih => exact .await ih
    · generalize hout : (Except.ok a : Except ε α) = out' at hfirst
      induction hfirst with
      | pure a' =>
          cases hout
          exact hsecond
      | throw => cases hout
      | await _ ih => exact .await (ih hout)

theorem trace_bind_pure {p : Async Ask Answer ε α} {f : α → β} {out : Except ε β} :
    Trace (p >>= fun a => pure (f a)) trace out ↔ ∃ r, Trace p trace r ∧ out = r.map f := by
  rw [trace_bind]
  constructor
  · rintro (⟨error, htrace, rfl⟩ | ⟨a, before, after, rfl, htrace, hend⟩)
    · exact ⟨.error error, htrace, rfl⟩
    · rcases trace_pure.mp hend with ⟨rfl, rfl⟩
      exact ⟨.ok a, by simpa using htrace, rfl⟩
  · rintro ⟨error | a, htrace, rfl⟩
    · exact .inl ⟨error, htrace, rfl⟩
    · exact .inr ⟨a, trace, [], by simp, htrace, .pure _⟩

/-- After an awaited call, the rest of a sequence. -/
theorem trace_call_bind {ask : Ask} {f : Answer ask → Async Ask Answer ε β} {out : Except ε β} :
    Trace (call ask >>= f) trace out ↔
      (∃ error, trace = [⟨ask, .error error⟩] ∧ out = .error error) ∨
        ∃ a rest, trace = ⟨ask, .ok a⟩ :: rest ∧ Trace (f a) rest out := by
  rw [trace_bind]
  constructor
  · intro h
    rcases h with ⟨error, hcall, rfl⟩ | ⟨a, before, rest, rfl, hcall, hrest⟩
    · exact .inl ⟨error, trace_call.mp hcall, rfl⟩
    · rw [trace_call.mp hcall]
      exact .inr ⟨a, rest, rfl, hrest⟩
  · intro h
    rcases h with ⟨error, rfl, rfl⟩ | ⟨a, rest, rfl, hrest⟩
    · exact .inl ⟨error, trace_call.mpr rfl, rfl⟩
    · exact .inr ⟨a, [⟨ask, .ok a⟩], rest, rfl, trace_call.mpr rfl, hrest⟩

theorem awaits_call_bind {ask ask' : Ask} {f : Answer ask → Async Ask Answer ε β} :
    Awaits (call ask >>= f) trace ask' ↔
      (trace = [] ∧ ask' = ask) ∨ ∃ a rest, trace = ⟨ask, .ok a⟩ :: rest ∧
        Awaits (f a) rest ask' := by
  rw [awaits_bind, awaits_call]
  refine or_congr_right ⟨?_, ?_⟩
  · rintro ⟨a, before, rest, rfl, hcall, hrest⟩
    rw [trace_call.mp hcall]
    exact ⟨a, rest, rfl, hrest⟩
  · rintro ⟨a, rest, rfl, hrest⟩
    exact ⟨a, [⟨ask, .ok a⟩], rest, rfl, trace_call.mpr rfl, hrest⟩

/-- Code between awaits throws, or goes on with its value. -/
theorem awaits_lift_bind {x : Except ε α} {f : α → Async Ask Answer ε β} {ask : Ask} :
    Awaits (lift x >>= f) trace ask ↔ ∃ a, x = .ok a ∧ Awaits (f a) trace ask := by
  cases x with
  | ok a =>
      constructor
      · intro h
        exact ⟨a, rfl, h⟩
      · rintro ⟨b, hb, h⟩
        cases hb
        exact h
  | error error =>
      constructor
      · intro h
        exact absurd h not_awaits_throw
      · rintro ⟨b, hb, _⟩
        cases hb

theorem trace_lift_bind {x : Except ε α} {f : α → Async Ask Answer ε β} {out : Except ε β} :
    Trace (lift x >>= f) trace out ↔
      (∃ error, x = .error error ∧ trace = [] ∧ out = .error error) ∨
        ∃ a, x = .ok a ∧ Trace (f a) trace out := by
  cases x with
  | ok a =>
      constructor
      · intro h
        exact .inr ⟨a, rfl, h⟩
      · rintro (⟨error, herror, _⟩ | ⟨b, hb, h⟩)
        · cases herror
        · cases hb
          exact h
  | error error =>
      constructor
      · intro h
        rcases trace_throw.mp h with ⟨rfl, rfl⟩
        exact .inl ⟨error, rfl, rfl, rfl⟩
      · rintro (⟨error', herror, rfl, rfl⟩ | ⟨b, hb, _⟩)
        · cases herror
          exact .throw _
        · cases hb

theorem trace_caught_bind {ask : Ask} {f : Except ε (Answer ask) → Async Ask Answer ε β}
    {out : Except ε β} :
    Trace (caught ask >>= f) trace out ↔ ∃ r rest, trace = ⟨ask, r⟩ :: rest ∧
      Trace (f r) rest out := by
  constructor
  · intro h
    cases h with
    | await hrest => exact ⟨_, _, rfl, hrest⟩
  · rintro ⟨r, rest, rfl, hrest⟩
    exact .await hrest

theorem awaits_caught_bind {ask ask' : Ask} {f : Except ε (Answer ask) → Async Ask Answer ε β} :
    Awaits (caught ask >>= f) trace ask' ↔
      (trace = [] ∧ ask' = ask) ∨ ∃ r rest, trace = ⟨ask, r⟩ :: rest ∧ Awaits (f r) rest ask' := by
  constructor
  · intro h
    cases h with
    | here => exact .inl ⟨rfl, rfl⟩
    | await hrest => exact .inr ⟨_, _, rfl, hrest⟩
  · rintro (⟨rfl, rfl⟩ | ⟨r, rest, rfl, hrest⟩)
    · exact .here
    · exact .await hrest

/-! ## What a procedure may ask -/

/-- Whatever it is answered, the procedure asks only what satisfies `P`. -/
def AsksOnly (P : Ask → Prop) : Async Ask Answer ε α → Prop
  | .pure _ => True
  | .throw _ => True
  | .await ask next => P ask ∧ ∀ r, (next r).AsksOnly P

section AsksOnly

variable {P : Ask → Prop} {p : Async Ask Answer ε α}

theorem AsksOnly.bind {f : α → Async Ask Answer ε β} (hp : p.AsksOnly P)
    (hf : ∀ a, (f a).AsksOnly P) :
    (p >>= f).AsksOnly P := by
  induction p with
  | pure a => exact hf a
  | throw error => trivial
  | await ask next ih => exact ⟨hp.1, fun r => ih r (hp.2 r)⟩

theorem AsksOnly.call {ask : Ask} (h : P ask) :
    (Async.call ask : Async Ask Answer ε (Answer ask)).AsksOnly P := by
  refine ⟨h, fun r => ?_⟩
  cases r <;> trivial

theorem AsksOnly.caught {ask : Ask} (h : P ask) :
    (Async.caught ask : Async Ask Answer ε (Except ε (Answer ask))).AsksOnly P :=
  ⟨h, fun _ => trivial⟩

theorem AsksOnly.lift (x : Except ε α) : (Async.lift x : Async Ask Answer ε α).AsksOnly P := by
  cases x <;> trivial

theorem AsksOnly.mono {Q : Ask → Prop} (hp : p.AsksOnly P) (h : ∀ ask, P ask → Q ask) :
    p.AsksOnly Q := by
  induction p with
  | pure | throw => trivial
  | await ask next ih => exact ⟨h ask hp.1, fun r => ih r (hp.2 r)⟩

theorem AsksOnly.awaits (hp : p.AsksOnly P) {ask : Ask} (h : Awaits p trace ask) : P ask := by
  induction h with
  | here => exact hp.1
  | await _ ih => exact ih (hp.2 _)

theorem AsksOnly.of_mem_trace (hp : p.AsksOnly P) {out : Except ε α} (h : Trace p trace out) :
    ∀ x ∈ trace, P x.1 := by
  induction h with
  | pure | throw => simp
  | await _ ih =>
      intro x hx
      rcases List.mem_cons.mp hx with rfl | hx
      · exact hp.1
      · exact ih (hp.2 _) x hx

end AsksOnly

/-- After the exchanges `past`, whatever it is answered, the procedure asks only what
satisfies `P` of the exchanges so far. -/
def AsksAfter (P : List (Exchange Ask Answer ε) → Ask → Prop) :
    Async Ask Answer ε α → List (Exchange Ask Answer ε) → Prop
  | .pure _, _ => True
  | .throw _, _ => True
  | .await ask next, past => P past ask ∧ ∀ r, (next r).AsksAfter P (past ++ [⟨ask, r⟩])

section AsksAfter

variable {P : List (Exchange Ask Answer ε) → Ask → Prop} {p : Async Ask Answer ε α}
  {past : List (Exchange Ask Answer ε)}

theorem AsksAfter.bind {f : α → Async Ask Answer ε β} (hp : p.AsksAfter P past)
    (hf : ∀ a asked, Trace p asked (.ok a) → (f a).AsksAfter P (past ++ asked)) :
    (p >>= f).AsksAfter P past := by
  induction p generalizing past with
  | pure a =>
      have hrest := hf a [] (.pure a)
      rw [List.append_nil] at hrest
      exact hrest
  | throw error => trivial
  | await ask next ih =>
      refine ⟨hp.1, fun r => ih r (hp.2 r) fun a asked htrace => ?_⟩
      simpa using hf a (⟨ask, r⟩ :: asked) (.await htrace)

theorem AsksAfter.call_bind {ask : Ask} {f : Answer ask → Async Ask Answer ε β} (h : P past ask)
    (hf : ∀ a, (f a).AsksAfter P (past ++ [⟨ask, .ok a⟩])) :
    (Async.call ask >>= f).AsksAfter P past := by
  refine ⟨h, fun r => ?_⟩
  cases r with
  | error error => trivial
  | ok a => exact hf a

theorem AsksOnly.after {Q : Ask → Prop} (hp : p.AsksOnly Q) (h : ∀ past ask, Q ask → P past ask) :
    p.AsksAfter P past := by
  induction p generalizing past with
  | pure | throw => trivial
  | await ask next ih => exact ⟨h past ask hp.1, fun r => ih r (hp.2 r)⟩

theorem AsksAfter.call {ask : Ask} (h : P past ask) :
    (Async.call ask : Async Ask Answer ε (Answer ask)).AsksAfter P past := by
  refine ⟨h, fun r => ?_⟩
  cases r <;> trivial

theorem AsksAfter.caught_bind {ask : Ask} {f : Except ε (Answer ask) → Async Ask Answer ε β}
    (h : P past ask)
    (hf : ∀ r, (f r).AsksAfter P (past ++ [⟨ask, r⟩])) :
    (Async.caught ask >>= f).AsksAfter P past :=
  ⟨h, hf⟩

theorem AsksAfter.lift_bind {x : Except ε α} {f : α → Async Ask Answer ε β}
    (hf : ∀ a, x = .ok a → (f a).AsksAfter P past) : (Async.lift x >>= f).AsksAfter P past := by
  cases x with
  | ok a => exact hf a rfl
  | error error => trivial

/-- What may be asked after some exchanges may be asked after more of them. -/
theorem AsksAfter.mono {past' : List (Exchange Ask Answer ε)} (hp : p.AsksAfter P past)
    (hmono : ∀ past past' ask, past ⊆ past' → P past ask → P past' ask) (hsub : past ⊆ past') :
    p.AsksAfter P past' := by
  induction p generalizing past past' with
  | pure | throw => trivial
  | await ask next ih =>
      refine ⟨hmono _ _ _ hsub hp.1, fun r => ih r (hp.2 r) ?_⟩
      exact List.append_subset.mpr ⟨List.subset_append_of_subset_left _ hsub,
        List.subset_append_right _ _⟩

theorem AsksAfter.awaits (hp : p.AsksAfter P past) {asked : List (Exchange Ask Answer ε)}
    {ask : Ask}
    (h : Awaits p asked ask) : P (past ++ asked) ask := by
  induction h generalizing past with
  | here => simpa using hp.1
  | await _ ih => simpa using ih (hp.2 _)

end AsksAfter

/-- Every procedure ends, for instance when every call throws. -/
theorem exists_trace (error : ε) (p : Async Ask Answer ε α) : ∃ trace out, Trace p trace out := by
  induction p with
  | pure a => exact ⟨[], _, .pure a⟩
  | throw error' => exact ⟨[], _, .throw error'⟩
  | await ask next ih =>
      rcases ih (.error error) with ⟨trace, out, h⟩
      exact ⟨_, out, .await h⟩

/-- What a procedure has exchanged begins one of its traces, whatever is answered next. -/
theorem Awaits.extends {p : Async Ask Answer ε α} {ask : Ask} (h : Awaits p trace ask) (error : ε)
    (r : Except ε (Answer ask)) : ∃ more out, Trace p (trace ++ ⟨ask, r⟩ :: more) out := by
  induction h with
  | @here ask next =>
      rcases exists_trace error (next r) with ⟨more, out, h⟩
      exact ⟨more, out, .await h⟩
  | await _ ih =>
      rcases ih r with ⟨more, out, h⟩
      exact ⟨more, out, .await h⟩

/-- Run a procedure against recorded exchanges. -/
def replay [DecidableEq Ask] :
    Async Ask Answer ε α → List (Exchange Ask Answer ε) → Option (Except ε α)
  | .pure a, [] => some (.ok a)
  | .throw error, [] => some (.error error)
  | .await ask next, ⟨ask', r⟩ :: trace =>
      if h : ask' = ask then (next (h ▸ r)).replay trace else none
  | _, _ => none

theorem trace_of_replay [DecidableEq Ask] {p : Async Ask Answer ε α} {out : Except ε α}
    (h : p.replay trace = some out) : Trace p trace out := by
  induction p generalizing trace with
  | pure a =>
      cases trace with
      | nil =>
          cases h
          exact .pure a
      | cons => cases h
  | throw error =>
      cases trace with
      | nil =>
          cases h
          exact .throw error
      | cons => cases h
  | await ask next ih =>
      cases trace with
      | nil => cases h
      | cons x trace =>
          rcases x with ⟨ask', r⟩
          rw [replay] at h
          split at h
          · rename_i heq
            subst heq
            exact .await (ih _ h)
          · cases h

/-- The call a procedure awaits after recorded exchanges. -/
def awaiting? [DecidableEq Ask] : Async Ask Answer ε α → List (Exchange Ask Answer ε) → Option Ask
  | .await ask _, [] => some ask
  | .await ask next, ⟨ask', r⟩ :: trace =>
      if h : ask' = ask then (next (h ▸ r)).awaiting? trace else none
  | _, _ => none

theorem awaits_of_awaiting? [DecidableEq Ask] {p : Async Ask Answer ε α} {ask : Ask}
    (h : p.awaiting? trace = some ask) : Awaits p trace ask := by
  induction p generalizing trace with
  | pure a => cases trace <;> cases h
  | throw error => cases trace <;> cases h
  | await ask' next ih =>
      cases trace with
      | nil =>
          cases h
          exact .here
      | cons x trace =>
          rcases x with ⟨ask'', r⟩
          rw [awaiting?] at h
          split at h
          · rename_i heq
            subst heq
            exact .await (ih _ h)
          · cases h

end Async

end Lendoor
