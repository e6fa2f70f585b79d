import Lendoor.Core.Exec
import Mathlib.Data.List.Forall2

/-! # Procedures in loops and side by side

A loop over a list, a `try` around a whole procedure, and procedures whose awaits
interleave. What procedures side by side may ask is bounded by a budget: exchanges earn,
calls cost, and a procedure that never overdraws keeps within its budget beside others.
-/

namespace Lendoor

namespace Async

variable {Ask : Type} {Answer : Ask → Type} {ε α β : Type}

/-- `for (const x of xs) await body(x)` -/
def forEach : List β → (β → Async Ask Answer ε α) → Async Ask Answer ε Unit
  | [], _ => pure ()
  | x :: xs, body => do
      let _ ← body x
      forEach xs body

/-- `try` around a procedure: what it returned or threw. -/
def settled : Async Ask Answer ε α → Async Ask Answer ε (Except ε α)
  | .pure a => .pure (.ok a)
  | .throw error => .pure (.error error)
  | .await ask next => .await ask fun r => (next r).settled

/-- The procedures one after the other, none stopped by another's error. -/
def settleEach : List (Async Ask Answer ε α) → Async Ask Answer ε (List (Except ε α))
  | [] => pure []
  | p :: ps => do
      let r ← p.settled
      let rs ← settleEach ps
      pure (r :: rs)

/-- `Promise.allSettled`: the procedures side by side. `order` names those whose awaits
come next; once it is through, the rest go one after the other. -/
def allSettled : List Nat → List (Async Ask Answer ε α) → Async Ask Answer ε (List (Except ε α))
  | [], threads => settleEach threads
  | k :: order, threads =>
      match threads[k]? with
      | some (.await ask next) => .await ask fun r => allSettled order (threads.set k (next r))
      | _ => allSettled order threads

variable {trace : List (Exchange Ask Answer ε)} {ask : Ask}

/-- A loop awaits in one of its rounds. -/
theorem awaits_forEach {xs : List β} {body : β → Async Ask Answer ε α}
    (h : Awaits (forEach xs body) trace ask) :
    ∃ x ∈ xs, ∃ before after, trace = before ++ after ∧ Awaits (body x) after ask := by
  induction xs generalizing trace with
  | nil => exact absurd h not_awaits_pure
  | cons x xs ih =>
      rcases awaits_bind.mp h with hfirst | ⟨_, before, after, rfl, _, hrest⟩
      · exact ⟨x, by simp, [], trace, rfl, hfirst⟩
      · rcases ih hrest with ⟨y, hy, first, last, rfl, hbody⟩
        exact ⟨y, by simp [hy], before ++ first, last, by simp, hbody⟩

/-- What a loop exchanges is made up of what its rounds exchange. -/
theorem mem_trace_forEach {xs : List β} {body : β → Async Ask Answer ε α} {out : Except ε Unit}
    (h : Trace (forEach xs body) trace out) {y : Exchange Ask Answer ε} (hy : y ∈ trace) :
    ∃ x ∈ xs, ∃ sub out', sub.Sublist trace ∧ Trace (body x) sub out' ∧ y ∈ sub := by
  induction xs generalizing trace with
  | nil =>
      rcases trace_pure.mp h with ⟨rfl, -⟩
      simp at hy
  | cons x xs ih =>
      rcases trace_bind.mp h with ⟨error, hfirst, -⟩ | ⟨a, before, after, rfl, hfirst, hrest⟩
      · exact ⟨x, by simp, trace, _, .refl _, hfirst, hy⟩
      · rcases List.mem_append.mp hy with hy | hy
        · exact ⟨x, by simp, before, _, List.sublist_append_left _ _, hfirst, hy⟩
        · rcases ih hrest hy with ⟨x', hx', sub, out', hsub, hbody, hy⟩
          exact ⟨x', by simp [hx'], sub, out', hsub.trans (List.sublist_append_right _ _), hbody,
            hy⟩

theorem awaits_settled {p : Async Ask Answer ε α} (h : Awaits p.settled trace ask) :
    Awaits p trace ask := by
  induction p generalizing trace with
  | pure a => exact absurd h not_awaits_pure
  | throw error => exact absurd h not_awaits_pure
  | await ask' next ih =>
      cases h with
      | here => exact .here
      | await hrest => exact .await (ih _ hrest)

theorem trace_settled {p : Async Ask Answer ε α} {out : Except ε (Except ε α)} :
    Trace p.settled trace out ↔ ∃ r, out = .ok r ∧ Trace p trace r := by
  constructor
  · intro h
    induction p generalizing trace with
    | pure a =>
        rcases trace_pure.mp h with ⟨rfl, rfl⟩
        exact ⟨_, rfl, .pure a⟩
    | throw error =>
        rcases trace_pure.mp h with ⟨rfl, rfl⟩
        exact ⟨_, rfl, .throw error⟩
    | await ask next ih =>
        cases h with
        | await hrest =>
            rcases ih _ hrest with ⟨r, rfl, htrace⟩
            exact ⟨r, rfl, .await htrace⟩
  · rintro ⟨r, rfl, htrace⟩
    induction htrace with
    | pure a => exact .pure (Except.ok a)
    | throw error => exact .pure (Except.error error)
    | await _ ih => exact .await ih

theorem trace_settleEach {threads : List (Async Ask Answer ε α)}
    {out : Except ε (List (Except ε α))}
    (h : Trace (settleEach threads) trace out) : ∃ rs, out = .ok rs := by
  induction threads generalizing trace out with
  | nil => exact ⟨_, (trace_pure.mp h).2⟩
  | cons p threads ih =>
      rcases trace_bind.mp h with ⟨error, hfirst, -⟩ | ⟨r, before, after, rfl, -, hrest⟩
      · rcases trace_settled.mp hfirst with ⟨r, hr, -⟩
        cases hr
      · rcases trace_bind.mp hrest with ⟨error, hothers, -⟩ | ⟨rs, others, last, rfl, -, hlast⟩
        · rcases ih hothers with ⟨rs, hrs⟩
          cases hrs
        · exact ⟨_, (trace_pure.mp hlast).2⟩

/-- Procedures side by side never throw. -/
theorem trace_allSettled {threads : List (Async Ask Answer ε α)} {order : List Nat}
    {out : Except ε (List (Except ε α))} (h : Trace (allSettled order threads) trace out) :
    ∃ rs, out = .ok rs := by
  induction order generalizing threads trace with
  | nil => exact trace_settleEach h
  | cons k order ih =>
      unfold Async.allSettled at h
      split at h
      · cases h with
        | await hrest => exact ih hrest
      · exact ih h

/-- What procedures side by side exchange is made up of their own traces: each has one in
it, and every exchange is in one of them. -/
structure Shuffles (trace : List (Exchange Ask Answer ε)) (threads : List (Async Ask Answer ε α)) :
    Prop where
  each : ∀ p ∈ threads, ∃ sub out, sub.Sublist trace ∧ Trace p sub out
  all : ∀ x ∈ trace, ∃ p ∈ threads, ∃ sub out, sub.Sublist trace ∧ Trace p sub out ∧ x ∈ sub

theorem Shuffles.settleEach {threads : List (Async Ask Answer ε α)}
    {out : Except ε (List (Except ε α))}
    (h : Trace (settleEach threads) trace out) : Shuffles trace threads := by
  induction threads generalizing trace out with
  | nil =>
      rcases trace_pure.mp h with ⟨rfl, -⟩
      exact ⟨by simp, by simp⟩
  | cons p threads ih =>
      rcases trace_bind.mp h with ⟨error, hfirst, -⟩ | ⟨r, before, after, rfl, hfirst, hrest⟩
      · rcases trace_settled.mp hfirst with ⟨r, hr, -⟩
        cases hr
      · rcases trace_settled.mp hfirst with ⟨r, -, htrace⟩
        have hothers : Shuffles after threads := by
          rcases trace_bind.mp hrest with ⟨error, hothers, -⟩ |
            ⟨rs, others, last, rfl, hothers, hlast⟩
          · exact ih hothers
          · rcases trace_pure.mp hlast with ⟨rfl, -⟩
            rw [List.append_nil]
            exact ih hothers
        have hbefore := List.sublist_append_left before after
        have hafter := List.sublist_append_right before after
        constructor
        · intro q hq
          rcases List.mem_cons.mp hq with rfl | hq
          · exact ⟨before, r, hbefore, htrace⟩
          · rcases hothers.each q hq with ⟨sub, out', hsub, hq⟩
            exact ⟨sub, out', hsub.trans hafter, hq⟩
        · intro x hx
          rcases List.mem_append.mp hx with hx | hx
          · exact ⟨p, by simp, before, r, hbefore, htrace, hx⟩
          · rcases hothers.all x hx with ⟨q, hq, sub, out', hsub, hq', hx⟩
            exact ⟨q, by simp [hq], sub, out', hsub.trans hafter, hq', hx⟩

theorem Shuffles.allSettled {threads : List (Async Ask Answer ε α)} (order : List Nat)
    {out : Except ε (List (Except ε α))} (h : Trace (allSettled order threads) trace out) :
    Shuffles trace threads := by
  induction order generalizing threads trace with
  | nil => exact .settleEach h
  | cons k order ih =>
      unfold Async.allSettled at h
      split at h
      · rename_i ask next hthread
        cases h with
        | @await _ _ r rest _ hrest =>
            have hmoved := ih hrest
            have hcons := List.sublist_cons_self (⟨ask, r⟩ : Exchange Ask Answer ε) rest
            rcases List.getElem?_eq_some_iff.mp hthread with ⟨hlt, hthread⟩
            -- the thread that moved has the exchange in front of the rest of its trace
            have hfirst : ∀ {sub out'}, sub.Sublist rest → Trace (next r) sub out' →
                (⟨ask, r⟩ :: sub).Sublist (⟨ask, r⟩ :: rest) ∧
                Trace (.await ask next) (⟨ask, r⟩ :: sub) out' :=
              fun hsub htrace => ⟨hsub.cons_cons _, .await htrace⟩
            have hnext : next r ∈ threads.set k (next r) := List.mem_set hlt _
            constructor
            · intro p hp
              rcases List.mem_iff_getElem.mp hp with ⟨j, hj, rfl⟩
              by_cases hjk : k = j
              · subst hjk
                rcases hmoved.each _ hnext with ⟨sub, out', hsub, htrace⟩
                rw [hthread]
                exact ⟨_, out', hfirst hsub htrace⟩
              · have hold : threads[j] ∈ threads.set k (next r) := by
                  rw [← List.getElem_set_of_ne hjk (next r) (by simpa using hj)]
                  exact List.getElem_mem _
                rcases hmoved.each _ hold with ⟨sub, out', hsub, htrace⟩
                exact ⟨sub, out', hsub.trans hcons, htrace⟩
            · intro x hx
              have hown : (.await ask next : Async Ask Answer ε α) ∈ threads :=
                hthread ▸ List.getElem_mem hlt
              rcases List.mem_cons.mp hx with rfl | hx
              · rcases hmoved.each _ hnext with ⟨sub, out', hsub, htrace⟩
                rcases hfirst hsub htrace with ⟨hsub', htrace'⟩
                exact ⟨_, hown, _, out', hsub', htrace', by simp⟩
              · rcases hmoved.all x hx with ⟨p, hp, sub, out', hsub, htrace, hmem⟩
                rcases List.mem_or_eq_of_mem_set hp with hold | rfl
                · exact ⟨p, hold, sub, out', hsub.trans hcons, htrace, hmem⟩
                · rcases hfirst hsub htrace with ⟨hsub', htrace'⟩
                  exact ⟨_, hown, _, out', hsub', htrace', by simp [hmem]⟩
      · exact ih h

section AsksOnly

variable {P : Ask → Prop}

theorem AsksOnly.settled {p : Async Ask Answer ε α} (h : p.AsksOnly P) : p.settled.AsksOnly P := by
  induction p with
  | pure | throw => trivial
  | await ask next ih => exact ⟨h.1, fun r => ih r (h.2 r)⟩

theorem AsksOnly.settleEach {threads : List (Async Ask Answer ε α)}
    (h : ∀ p ∈ threads, p.AsksOnly P) :
    (settleEach threads).AsksOnly P := by
  induction threads with
  | nil => trivial
  | cons p threads ih =>
      rcases List.forall_mem_cons.mp h with ⟨hp, hrest⟩
      exact .bind hp.settled fun _ => .bind (ih hrest) fun _ => trivial

theorem AsksOnly.forEach {xs : List β} {body : β → Async Ask Answer ε α}
    (h : ∀ x ∈ xs, (body x).AsksOnly P) : (Async.forEach xs body).AsksOnly P := by
  induction xs with
  | nil => trivial
  | cons x xs ih => exact (h x (by simp)).bind fun _ => ih fun y hy => h y (by simp [hy])

theorem AsksOnly.allSettled {threads : List (Async Ask Answer ε α)} (order : List Nat)
    (h : ∀ p ∈ threads, p.AsksOnly P) : (allSettled order threads).AsksOnly P := by
  induction order generalizing threads with
  | nil => exact .settleEach h
  | cons k order ih =>
      unfold Async.allSettled
      split
      · rename_i ask next hthread
        have hasks := h _ (List.mem_of_getElem? hthread)
        refine ⟨hasks.1, fun r => ih fun p hp => ?_⟩
        rcases List.mem_or_eq_of_mem_set hp with hold | rfl
        · exact h p hold
        · exact hasks.2 r
      · exact ih h

end AsksOnly

section AsksAfter

variable {P : List (Exchange Ask Answer ε) → Ask → Prop} {past : List (Exchange Ask Answer ε)}

theorem AsksAfter.settled {p : Async Ask Answer ε α} (h : p.AsksAfter P past) :
    p.settled.AsksAfter P past := by
  induction p generalizing past with
  | pure | throw => trivial
  | await ask next ih => exact ⟨h.1, fun r => ih r (h.2 r)⟩

variable (hmono : ∀ past past' ask, past ⊆ past' → P past ask → P past' ask)

include hmono

theorem AsksAfter.forEach {xs : List β} {body : β → Async Ask Answer ε α}
    (h : ∀ x ∈ xs, (body x).AsksAfter P past) : (Async.forEach xs body).AsksAfter P past := by
  induction xs generalizing past with
  | nil => trivial
  | cons x xs ih =>
      refine (h x (by simp)).bind fun _ asked _ => ih fun y hy => ?_
      exact (h y (by simp [hy])).mono hmono (List.subset_append_left _ _)

theorem AsksAfter.settleEach {threads : List (Async Ask Answer ε α)}
    (h : ∀ p ∈ threads, p.AsksAfter P past) :
    (settleEach threads).AsksAfter P past := by
  induction threads generalizing past with
  | nil => trivial
  | cons p threads ih =>
      rcases List.forall_mem_cons.mp h with ⟨hp, hrest⟩
      refine hp.settled.bind fun _ asked _ => .bind (ih fun q hq => ?_) fun _ _ _ => trivial
      exact (hrest q hq).mono hmono (List.subset_append_left _ _)

theorem AsksAfter.allSettled {threads : List (Async Ask Answer ε α)} (order : List Nat)
    (h : ∀ p ∈ threads, p.AsksAfter P past) : (allSettled order threads).AsksAfter P past := by
  induction order generalizing threads past with
  | nil => exact .settleEach hmono h
  | cons k order ih =>
      unfold Async.allSettled
      split
      · rename_i ask next hthread
        have hasks := h _ (List.mem_of_getElem? hthread)
        refine ⟨hasks.1, fun r => ih fun p hp => ?_⟩
        rcases List.mem_or_eq_of_mem_set hp with hold | rfl
        · exact (h p hold).mono hmono (List.subset_append_left _ _)
        · exact hasks.2 r
      · exact ih h

end AsksAfter

/-! ## Budgets -/

/-- The sum of a measure over a list. -/
def total (f : β → Nat) : List β → Nat
  | [] => 0
  | x :: xs => f x + total f xs

theorem total_eq_zero {f : β → Nat} {xs : List β} (h : ∀ x ∈ xs, f x = 0) : total f xs = 0 := by
  induction xs with
  | nil => rfl
  | cons x xs ih =>
      simp only [total, h x List.mem_cons_self, ih fun y hy => h y (List.mem_cons_of_mem _ hy)]

/-- From a budget, calls are paid as they are awaited, and their exchanges earn. -/
def Affords (earn : Exchange Ask Answer ε → Nat) (cost : Ask → Nat) :
    Nat → Async Ask Answer ε α → Prop
  | _, .pure _ => True
  | _, .throw _ => True
  | budget, .await ask next =>
      cost ask ≤ budget ∧ ∀ r, (next r).Affords earn cost (budget - cost ask + earn ⟨ask, r⟩)

section Budget

variable {earn : Exchange Ask Answer ε → Nat} {cost : Ask → Nat} {budget m : Nat}
  {p : Async Ask Answer ε α}

theorem Affords.mono (h : p.Affords earn cost budget) (hle : budget ≤ m) :
    p.Affords earn cost m := by
  induction p generalizing budget m with
  | pure | throw => trivial
  | await ask next ih =>
      refine ⟨Nat.le_trans h.1 hle, fun r => ih r (h.2 r) ?_⟩
      omega

/-- What was paid, and what is asked for next, was in the budget or earned. -/
theorem Affords.awaits (hawaits : Awaits p trace ask) (h : p.Affords earn cost budget) :
    total (fun x => cost x.1) trace + cost ask ≤ budget + total earn trace := by
  induction hawaits generalizing budget with
  | here => simpa [total] using h.1
  | @await ask' _ next r trace _ ih =>
      have hrest := ih (h.2 r)
      have hpaid := h.1
      simp only [total]
      omega

/-- A sequence has the budgets of its parts. -/
theorem Affords.bind {f : α → Async Ask Answer ε β} (hp : p.Affords earn cost budget)
    (hf : ∀ a, (f a).Affords earn cost m) : (p >>= f).Affords earn cost (budget + m) := by
  induction p generalizing budget with
  | pure a => exact (hf a).mono (Nat.le_add_left _ _)
  | throw error => trivial
  | await ask next ih =>
      have hpaid := hp.1
      refine ⟨by omega, fun r => ?_⟩
      refine (ih r (hp.2 r)).mono ?_
      omega

theorem Affords.caught_bind {f : Except ε (Answer ask) → Async Ask Answer ε β}
    (hcost : cost ask ≤ budget)
    (hf : ∀ r, (f r).Affords earn cost (budget - cost ask + earn ⟨ask, r⟩)) :
    (caught ask >>= f).Affords earn cost budget := ⟨hcost, hf⟩

theorem Affords.settled (h : p.Affords earn cost budget) : p.settled.Affords earn cost budget := by
  induction p generalizing budget with
  | pure | throw => trivial
  | await ask next ih => exact ⟨h.1, fun r => ih r (h.2 r)⟩

/-- Calls without a cost need no budget. -/
theorem Affords.of_asksOnly (h : p.AsksOnly fun ask => cost ask = 0) :
    p.Affords earn cost budget := by
  induction p generalizing budget with
  | pure | throw => trivial
  | await ask next ih => exact ⟨h.1 ▸ Nat.zero_le _, fun r => ih r (h.2 r)⟩

variable {threads : List (Async Ask Answer ε α)} {budgets : List Nat}

theorem Affords.settleEach
    (h : List.Forall₂ (fun budget p => p.Affords earn cost budget) budgets threads) :
    (settleEach threads).Affords earn cost (total id budgets) := by
  induction h with
  | nil => trivial
  | cons hp _ ih =>
      rw [total]
      refine hp.settled.bind fun r => ?_
      have hrest := ih.bind (m := 0) (f := fun rs => (pure (r :: rs) : Async Ask Answer ε _))
        fun _ => trivial
      exact hrest

/-- One thread of many, with its budget, and the threads once it has moved on. -/
theorem exists_budget {R : Nat → Async Ask Answer ε α → Prop} (h : List.Forall₂ R budgets threads)
    {k : Nat} (hthread : threads[k]? = some p) :
    ∃ c, R c p ∧ c ≤ total id budgets ∧ ∀ c' p', R c' p' →
      ∃ budgets', List.Forall₂ R budgets' (threads.set k p') ∧ total id budgets' + c =
        total id budgets + c' := by
  induction h generalizing k with
  | nil => simp at hthread
  | @cons c q budgets threads hq hrest ih =>
      cases k with
      | zero =>
          cases hthread
          refine ⟨c, hq, by simp [total], fun c' p' hp' => ⟨c' :: budgets, .cons hp' hrest, ?_⟩⟩
          simp only [total, id]
          omega
      | succ k =>
          rcases ih hthread with ⟨d, hd, hle, hset⟩
          refine ⟨d, hd, by simp only [total, id]; omega, fun c' p' hp' => ?_⟩
          rcases hset c' p' hp' with ⟨budgets', hall, hsum⟩
          refine ⟨c :: budgets', .cons hq hall, ?_⟩
          simp only [total, id]
          omega

/-- Procedures side by side have the budget of all of them. -/
theorem Affords.allSettled (order : List Nat)
    (h : List.Forall₂ (fun budget p => p.Affords earn cost budget) budgets threads) :
    (allSettled order threads).Affords earn cost (total id budgets) := by
  induction order generalizing threads budgets with
  | nil => exact Affords.settleEach h
  | cons k order ih =>
      unfold Async.allSettled
      split
      · rename_i ask next hthread
        rcases exists_budget h hthread with ⟨c, hc, hle, hset⟩
        refine ⟨Nat.le_trans hc.1 hle, fun r => ?_⟩
        rcases hset _ _ (hc.2 r) with ⟨budgets', hall, hsum⟩
        have hpaid := hc.1
        exact (ih hall).mono (by omega)
      · exact ih h

theorem Affords.allSettled_map {body : β → Async Ask Answer ε α} (order : List Nat) (xs : List β)
    (h : ∀ x ∈ xs, (body x).Affords earn cost 0) :
    (Async.allSettled order (xs.map body)).Affords earn cost 0 := by
  have hall : List.Forall₂ (fun budget p => p.Affords earn cost budget) (xs.map fun _ => 0)
      (xs.map body) := by
    rw [List.forall₂_map_left_iff, List.forall₂_map_right_iff]
    exact List.forall₂_same.mpr h
  have hsum : total id (xs.map fun _ => 0) = 0 := by
    clear h hall
    induction xs with
    | nil => rfl
    | cons x xs ih => simpa [total] using ih
  rw [← hsum]
  exact Affords.allSettled order hall

end Budget

end Async

/-! ## Executions of loops -/

namespace Exec

open Async

variable {σ Ask : Type} {Answer : Ask → Type} {ε α β : Type}
  {respond : σ → Exchange Ask Answer ε → σ → Prop} {s s' : σ} {asked : List (Exchange Ask Answer ε)}

/-- What is caught has run like the procedure itself. -/
theorem settled_inv {p : Async Ask Answer ε α} {out : Except ε (Except ε α)}
    (h : Exec respond s p.settled asked out s') :
    ∃ r, out = .ok r ∧ Exec respond s p asked r s' := by
  rcases trace_settled.mp h.trace with ⟨r, rfl, htrace⟩
  exact ⟨r, rfl, of_trace htrace h.run⟩

/-- A loop stops at the round that throws, or each round has had its turn. -/
theorem forEach_inv {xs : List β} {body : β → Async Ask Answer ε α} {out : Except ε Unit}
    (h : Exec respond s (forEach xs body) asked out s') :
    (∃ x ∈ xs, ∃ before sub error t, asked = before ++ sub ∧
      Exec respond t (body x) sub (.error error) s') ∨
      out = .ok () ∧ ∀ x ∈ xs, ∃ before sub after t u a, asked = before ++ (sub ++ after) ∧
        Run respond s before t ∧ Exec respond t (body x) sub (.ok a) u ∧
          Run respond u after s' := by
  induction xs generalizing s asked with
  | nil =>
      rcases pure_iff.mp h with ⟨-, rfl, -⟩
      exact .inr ⟨rfl, by simp⟩
  | cons x xs ih =>
      rcases h.bind_inv with ⟨error, hthrow, -⟩ | ⟨a, t, first, rest, rfl, hfirst, hrest⟩
      · exact .inl ⟨x, by simp, [], asked, error, s, rfl, hthrow⟩
      · rcases ih hrest with ⟨y, hy, before, sub, error, u, rfl, hthrow⟩ | ⟨hout, heach⟩
        · exact .inl ⟨y, by simp [hy], first ++ before, sub, error, u, by simp, hthrow⟩
        · refine .inr ⟨hout, fun y hy => ?_⟩
          rcases List.mem_cons.mp hy with rfl | hy
          · exact ⟨[], first, rest, s, t, a, rfl, .nil s, hfirst, hrest.run⟩
          · rcases heach y hy with ⟨before, sub, after, u, v, b, rfl, hbefore, hbody, hafter⟩
            exact ⟨first ++ before, sub, after, u, v, b, by simp,
              hfirst.run.append hbefore, hbody, hafter⟩

end Exec

end Lendoor
