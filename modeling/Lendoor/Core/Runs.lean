import Mathlib.Algebra.BigOperators.Group.List.Basic

/-! # Labelled runs

Finite runs of a labelled transition relation, with the labels kept in order,
and the two rules every whole-run result goes through: an invariant preserved by
each step holds along a run, and a step-wise simulation lifts to runs with the
labels mapped. A clocked system is a transition function whose calls carry a
timestamp that never decreases.
-/

namespace Lendoor

section Runs

variable {σ τ ℓ κ : Type}

/-- `Run step s labels s'`: the labels, in order, lead from `s` to `s'`. -/
inductive Run (step : σ → ℓ → σ → Prop) : σ → List ℓ → σ → Prop
  | nil (s : σ) : Run step s [] s
  | snoc {s t u : σ} {labels : List ℓ} {label : ℓ} :
      Run step s labels t → step t label u → Run step s (labels ++ [label]) u

namespace Run

variable {step : σ → ℓ → σ → Prop} {s t u : σ} {labels more : List ℓ}

theorem single {label : ℓ} (h : step s label t) : Run step s [label] t :=
  Run.snoc (Run.nil s) h

theorem append (first : Run step s labels t) (second : Run step t more u) :
    Run step s (labels ++ more) u := by
  induction second with
  | nil => simpa using first
  | snoc _ hstep ih =>
      rw [← List.append_assoc]
      exact Run.snoc ih hstep

/-- What every step preserves, a run preserves. -/
theorem invariant {P : σ → Prop} (preserve : ∀ s label t, P s → step s label t → P t)
    (run : Run step s labels t) (start : P s) : P t := by
  induction run with
  | nil => exact start
  | snoc _ hstep ih => exact preserve _ _ _ ih hstep

theorem nil_inv (run : Run step s [] t) : s = t := by
  generalize hlabels : ([] : List ℓ) = labels at run
  cases run with
  | nil => rfl
  | snoc => simp at hlabels

/-- The first step of a nonempty run. -/
theorem cons_inv {label : ℓ} (run : Run step s (label :: labels) u) :
    ∃ t, step s label t ∧ Run step t labels u := by
  generalize hall : label :: labels = all at run
  induction run generalizing labels with
  | nil => cases hall
  | @snoc v w before last hbefore hstep ih =>
      cases before with
      | nil =>
          cases hall
          rw [← hbefore.nil_inv] at hstep
          exact ⟨w, hstep, Run.nil w⟩
      | cons first rest =>
          cases hall
          rcases ih rfl with ⟨t, hfirst, hrest⟩
          exact ⟨t, hfirst, Run.snoc hrest hstep⟩

/-- A run is a run of each part of its labels. -/
theorem append_inv (run : Run step s (labels ++ more) u) :
    ∃ t, Run step s labels t ∧ Run step t more u := by
  induction labels generalizing s with
  | nil => exact ⟨s, Run.nil s, run⟩
  | cons label labels ih =>
      rcases run.cons_inv with ⟨t, hfirst, hrest⟩
      rcases ih hrest with ⟨t', hlabels, hmore⟩
      exact ⟨t', (single hfirst).append hlabels, hmore⟩

/-- A run of a step function is a run. -/
theorem of_foldlM {next : σ → ℓ → Option σ}
    (sound : ∀ s label t, next s label = some t → step s label t)
    (h : labels.foldlM next s = some t) : Run step s labels t := by
  induction labels generalizing s with
  | nil =>
      cases h
      exact Run.nil _
  | cons label labels ih =>
      rw [List.foldlM_cons] at h
      rcases Option.bind_eq_some_iff.mp h with ⟨u, hstep, hrest⟩
      exact (single (sound _ _ _ hstep)).append (ih hrest)

/-- The last step of a nonempty run. -/
theorem snoc_inv {label : ℓ} (run : Run step s (labels ++ [label]) u) :
    ∃ t, Run step s labels t ∧ step t label u := by
  generalize hlabels : labels ++ [label] = all at run
  cases run with
  | nil => simp at hlabels
  | snoc before hstep =>
      rcases List.append_inj' hlabels rfl with ⟨rfl, hlast⟩
      cases hlast
      exact ⟨_, before, hstep⟩

/-- A run of a stronger relation is a run of the weaker one. -/
theorem mono {weaker : σ → ℓ → σ → Prop} (weaken : ∀ s label t, step s label t → weaker s label t)
    (run : Run step s labels t) : Run weaker s labels t := by
  induction run with
  | nil => exact Run.nil _
  | snoc _ hstep ih => exact Run.snoc ih (weaken _ _ _ hstep)

/-- A run whose labels all satisfy `Q` is a run of the restricted relation. -/
theorem restrict {Q : ℓ → Prop} (run : Run step s labels t) (all : ∀ label ∈ labels, Q label) :
    Run (fun s label t => step s label t ∧ Q label) s labels t := by
  induction run with
  | nil => exact Run.nil _
  | snoc _ hstep ih =>
      refine Run.snoc (ih fun label hmem => all label ?_) ⟨hstep, all _ (by simp)⟩
      exact List.mem_append_left _ hmem

/-- A quantity that each step moves by its label's own contribution moves, over a
run that keeps an invariant, by the sum of the contributions. -/
theorem telescope {M : Type} [AddMonoid M] {P : σ → Prop}
    (preserve : ∀ s label t, P s → step s label t → P t) (measure : σ → M) (gain : ℓ → M)
    (move : ∀ s label t, P s → step s label t → measure t = measure s + gain label)
    (run : Run step s labels t) (start : P s) :
    measure t = measure s + (labels.map gain).sum := by
  induction run with
  | nil => simp
  | snoc before hstep ih =>
      rw [move _ _ _ (before.invariant preserve start) hstep, ih, List.map_append, List.sum_append]
      simp [add_assoc]

end Run

end Runs

/-! ## Positions in a history -/

section Positions

variable {σ ℓ : Type} {labels : List ℓ} {i j : Nat} {label label' next : ℓ} {Q : ℓ → Prop}

/-- `label` stands at position `i` of the history, and nothing after it satisfies `Q`. -/
structure LastAt (Q : ℓ → Prop) (labels : List ℓ) (i : Nat) (label : ℓ) : Prop where
  found : labels[i]? = some label
  since : ∀ k later, i < k → labels[k]? = some later → ¬ Q later

theorem getElem?_snoc_of_some (h : labels[i]? = some label) :
    (labels ++ [next])[i]? = some label := by
  rw [List.getElem?_append_left (List.getElem?_eq_some_iff.mp h).choose]
  exact h

/-- A position of an extended history is an old one or the last. -/
theorem getElem?_snoc_cases (h : (labels ++ [next])[i]? = some label) :
    (i < labels.length ∧ labels[i]? = some label) ∨ (i = labels.length ∧ label = next) := by
  rcases Nat.lt_trichotomy i labels.length with hlt | heq | hgt
  · rw [List.getElem?_append_left hlt] at h
    exact .inl ⟨hlt, h⟩
  · subst heq
    rw [List.getElem?_concat_length] at h
    cases h
    exact .inr ⟨rfl, rfl⟩
  · rw [List.getElem?_eq_none (by simp; omega)] at h
    cases h

/-- A position of a history's beginning is a position of the history. -/
theorem getElem?_take_eq_some (h : (labels.take j)[i]? = some label) :
    i < j ∧ labels[i]? = some label := by
  rw [List.getElem?_take] at h
  split at h
  · rename_i hlt
    exact ⟨hlt, h⟩
  · cases h

theorem LastAt.concat (Q : ℓ → Prop) (labels : List ℓ) (next : ℓ) :
    LastAt Q (labels ++ [next]) labels.length next := by
  refine ⟨List.getElem?_concat_length, fun k later hlt hk => ?_⟩
  rcases getElem?_snoc_cases hk with ⟨hlt', _⟩ | ⟨heq, _⟩ <;> omega

theorem LastAt.snoc (h : LastAt Q labels i label) (hnext : ¬ Q next) :
    LastAt Q (labels ++ [next]) i label := by
  refine ⟨getElem?_snoc_of_some h.found, fun k later hlt hk => ?_⟩
  rcases getElem?_snoc_cases hk with ⟨_, hk⟩ | ⟨_, rfl⟩
  · exact h.since k later hlt hk
  · exact hnext

/-- The last position is unique, whatever else `Q` holds of before it. -/
theorem LastAt.unique (h : LastAt Q labels i label) (hQ : Q label) (h' : LastAt Q labels j label')
    (hQ' : Q label') : i = j := by
  rcases Nat.lt_trichotomy i j with hlt | heq | hgt
  · exact absurd hQ' (h.since j label' hlt h'.found)
  · exact heq
  · exact absurd hQ (h'.since i label hgt h.found)

variable {step : σ → ℓ → σ → Prop} {s t u u' : σ}

/-- The step of a run at position `k`: its label, with the states before and after it. -/
structure StepAt (step : σ → ℓ → σ → Prop) (s : σ) (labels : List ℓ) (k : Nat) (u : σ) (label : ℓ)
    (u' : σ) : Prop where
  found : labels[k]? = some label
  before : Run step s (labels.take k) u
  taken : step u label u'

theorem StepAt.concat (run : Run step s labels t) (h : step t next u) :
    StepAt step s (labels ++ [next]) labels.length t next u :=
  ⟨List.getElem?_concat_length, by rwa [List.take_left], h⟩

theorem StepAt.snoc (h : StepAt step s labels i u label u') :
    StepAt step s (labels ++ [next]) i u label u' := by
  have hlt : i < labels.length := (List.getElem?_eq_some_iff.mp h.found).choose
  refine ⟨getElem?_snoc_of_some h.found, ?_, h.taken⟩
  rw [List.take_append_of_le_length (Nat.le_of_lt hlt)]
  exact h.before

/-- A step of a run's beginning is a step of the run. -/
theorem StepAt.of_take (h : StepAt step s (labels.take j) i u label u') :
    i < j ∧ StepAt step s labels i u label u' := by
  rcases getElem?_take_eq_some h.found with ⟨hlt, hfound⟩
  have hbefore := h.before
  rw [List.take_take, Nat.min_eq_left (Nat.le_of_lt hlt)] at hbefore
  exact ⟨hlt, hfound, hbefore, h.taken⟩

/-- A run takes a step at each of its positions. -/
theorem Run.stepAt (run : Run step s labels t) (h : labels[i]? = some label) :
    ∃ u u', StepAt step s labels i u label u' := by
  induction run with
  | nil => simp at h
  | snoc before hstep ih =>
      rcases getElem?_snoc_cases h with ⟨_, h⟩ | ⟨rfl, rfl⟩
      · rcases ih h with ⟨u, u', hat⟩
        exact ⟨u, u', hat.snoc⟩
      · exact ⟨_, _, StepAt.concat before hstep⟩

/-- The run from one of its steps to a later one. -/
theorem StepAt.since (hat : StepAt step s labels j u label u') (hlt : i < j)
    (hfound : labels[i]? = some label') : ∃ v v', StepAt step s labels i v label' v' ∧
      Run step v' ((labels.take j).drop (i + 1)) u := by
  have hparts := (List.take_append_drop (i + 1) (labels.take j)).symm
  rw [List.take_take, Nat.min_eq_left hlt] at hparts
  have hbefore := hat.before
  rw [hparts] at hbefore
  rcases hbefore.append_inv with ⟨v', hpast, hbetween⟩
  have hlast : labels.take (i + 1) = labels.take i ++ [label'] := by
    rw [List.take_add_one, hfound]
    rfl
  rw [hlast] at hpast
  rcases hpast.snoc_inv with ⟨v, hearlier, hstep⟩
  exact ⟨v, v', ⟨hfound, hearlier, hstep⟩, hbetween⟩

/-- A run is a run of the steps it takes, with what is known of each. -/
theorem Run.with_steps {Q : σ → ℓ → σ → Prop} (run : Run step s labels t)
    (h : ∀ k u label u', StepAt step s labels k u label u' → Q u label u') :
    Run (fun u label u' => step u label u' ∧ Q u label u') s labels t := by
  induction run with
  | nil => exact Run.nil _
  | snoc before hstep ih =>
      exact Run.snoc (ih fun k u label u' hat => h k u label u' hat.snoc)
        ⟨hstep, h _ _ _ _ (StepAt.concat before hstep)⟩

/-- A run ends where a step function leads that gives its steps. -/
theorem Run.eq_of_foldlM {next : σ → ℓ → Option σ}
    (unique : ∀ s label t u, next s label = some t → step s label u → u = t)
    (run : Run step s labels u)
    (h : labels.foldlM next s = some t) : u = t := by
  induction run generalizing t with
  | nil =>
      cases h
      rfl
  | snoc before hstep ih =>
      rw [List.foldlM_append] at h
      rcases Option.bind_eq_some_iff.mp h with ⟨v, hv, hlast⟩
      cases ih hv
      rw [List.foldlM_cons] at hlast
      rcases Option.bind_eq_some_iff.mp hlast with ⟨w, hnext, hnil⟩
      cases hnil
      exact unique _ _ _ _ hnext hstep

/-- The step function goes on at each position of such a run. -/
theorem StepAt.next_eq {next : σ → ℓ → Option σ}
    (unique : ∀ s label t u, next s label = some t → step s label u → u = t)
    (hat : StepAt step s labels i u label u') (h : labels.foldlM next s = some t) :
    ∃ v, next u label = some v := by
  have hsplit : labels.take i ++ label :: labels.drop (i + 1) = labels := by
    rcases List.getElem?_eq_some_iff.mp hat.found with ⟨hlt, rfl⟩
    rw [← List.drop_eq_getElem_cons hlt, List.take_append_drop]
  rw [← hsplit, List.foldlM_append] at h
  rcases Option.bind_eq_some_iff.mp h with ⟨v, hv, hrest⟩
  rw [← hat.before.eq_of_foldlM unique hv, List.foldlM_cons] at hrest
  rcases Option.bind_eq_some_iff.mp hrest with ⟨v, hnext, -⟩
  exact ⟨v, hnext⟩

/-- Take the steps that pass a check. -/
def checked? (check : σ → ℓ → Bool) (next : σ → ℓ → Option σ) (s : σ) (label : ℓ) : Option σ :=
  if check s label = true then next s label else none

theorem checked?_next {check : σ → ℓ → Bool} {next : σ → ℓ → Option σ} {label : ℓ}
    (h : checked? check next s label = some t) : next s label = some t :=
  (Option.ite_none_right_eq_some.mp h).2

/-- Every step of a run that was computed with a check passes it. -/
theorem StepAt.checked {check : σ → ℓ → Bool} {next : σ → ℓ → Option σ}
    (unique : ∀ s label t u, next s label = some t → step s label u → u = t)
    (hat : StepAt step s labels i u label u') (h : labels.foldlM (checked? check next) s = some t) :
    check u label = true := by
  have hunique : ∀ s label t u, checked? check next s label = some t → step s label u → u = t :=
    fun s label t u hnext => unique s label t u (checked?_next hnext)
  rcases hat.next_eq hunique h with ⟨v, hnext⟩
  exact (Option.ite_none_right_eq_some.mp hnext).1

end Positions

/-! ## Clocked systems -/

/-- `ys` is `xs` with elements that satisfy `P` inserted anywhere. -/
inductive Inserted {κ : Type} (P : κ → Prop) : List κ → List κ → Prop
  | nil : Inserted P [] []
  | keep {xs ys : List κ} (x : κ) : Inserted P xs ys → Inserted P (xs ++ [x]) (ys ++ [x])
  | insert {xs ys : List κ} {y : κ} : Inserted P xs ys → P y → Inserted P xs (ys ++ [y])

/-- A state together with the timestamp of the last ledger that touched it. -/
structure Clocked (σ : Type) where
  now : Nat
  state : σ

section Clocked

variable {ε σ κ ρ : Type}

/-- A successful call in a ledger no earlier than the last one. The label is the
call with the result it returned. -/
structure Clocked.Step (time : κ → Nat) (exec : κ → σ → Except ε (σ × ρ))
    (s : Clocked σ) (label : κ × ρ) (t : Clocked σ) : Prop where
  clock : s.now ≤ time label.1
  now_eq : t.now = time label.1
  exec_eq : exec label.1 s.state = .ok (t.state, label.2)

/-- Execute a list of calls, stopping at the first one that fails or goes back in time. -/
def Clocked.run? (time : κ → Nat) (exec : κ → σ → Except ε (σ × ρ)) :
    Clocked σ → List κ → Option (Clocked σ)
  | s, [] => some s
  | s, c :: calls =>
      if s.now ≤ time c then
        match exec c s.state with
        | .ok r => Clocked.run? time exec ⟨time c, r.1⟩ calls
        | .error _ => none
      else none

/-- The labels of a run inherit what holds of its calls. -/
theorem forall_label_of_calls {P : κ → Prop} {labels : List (κ × ρ)} {calls : List κ}
    (hcalls : labels.map Prod.fst = calls) (h : ∀ c ∈ calls, P c) :
    ∀ label ∈ labels, P label.1 := by
  intro label hmem
  subst hcalls
  exact h label.1 (List.mem_map_of_mem hmem)

/-- What the interpreter computes is a run of exactly those calls. -/
theorem Clocked.run?_run {time : κ → Nat} {exec : κ → σ → Except ε (σ × ρ)} {calls : List κ}
    {s t : Clocked σ} (h : Clocked.run? time exec s calls = some t) :
    ∃ labels, Run (Clocked.Step time exec) s labels t ∧ labels.map Prod.fst = calls := by
  induction calls generalizing s with
  | nil =>
      cases h
      exact ⟨[], Run.nil _, rfl⟩
  | cons c calls ih =>
      unfold Clocked.run? at h
      split at h
      · rename_i hclock
        split at h
        · rename_i r hexec
          rcases ih h with ⟨labels, hrun, hcalls⟩
          have hstep : Clocked.Step time exec s (c, r.2) ⟨time c, r.1⟩ := ⟨hclock, rfl, hexec⟩
          exact ⟨[(c, r.2)] ++ labels, (Run.single hstep).append hrun, by simp [hcalls]⟩
        · cases h
      · cases h

/-! ### Inserted calls -/

section Inserted

variable {time : κ → Nat} {step : Clocked σ → κ × ρ → Clocked σ → Prop}
  (clock : ∀ s label t, step s label t → t.now = time label.1)

include clock

/-- The clock after a run reads no more than every call of it allows. -/
theorem Clocked.run_now_le {s t : Clocked σ} {labels : List (κ × ρ)} {bound : Nat}
    (run : Run step s labels t) (hstart : s.now ≤ bound)
    (hlabels : ∀ label ∈ labels, time label.1 ≤ bound) : t.now ≤ bound := by
  cases run with
  | nil => exact hstart
  | snoc _ hstep =>
      rw [clock _ _ _ hstep]
      exact hlabels _ (by simp)

/-- Two-run rule: if a relation between the runs survives a call that both make, and a
call that only the second makes, then inserting such calls gives a run again, and its
end is related to the end of the first. -/
theorem Clocked.run_inserted {Rel : Clocked σ → Clocked σ → Prop} {P Q : κ → Prop}
    (keep : ∀ s s' label t, Rel s s' → Q label.1 → step s label t → s'.now ≤ time label.1 →
      ∃ r t', step s' (label.1, r) t' ∧ Rel t t')
    (insert : ∀ s s' y, Rel s s' → P y → s'.now ≤ time y → ∃ r t', step s' (y, r) t' ∧ Rel s t')
    {xs ys : List κ} (hins : Inserted P xs ys) {s s' : Clocked σ} (hrel : Rel s s')
    (hsorted : ys.Pairwise fun x y => time x ≤ time y) (hstart : ∀ y ∈ ys, s'.now ≤ time y)
    (hkept : ∀ x ∈ xs, Q x) {labels : List (κ × ρ)} {t : Clocked σ} (run : Run step s labels t)
    (hcalls : labels.map Prod.fst = xs) :
    ∃ labels' t', Run step s' labels' t' ∧ labels'.map Prod.fst = ys ∧ Rel t t' := by
  -- the second run may make a call that is no earlier than the calls before it
  have hready : ∀ {ys : List κ} {y : κ} {labels' : List (κ × ρ)} {t' : Clocked σ},
      (ys ++ [y]).Pairwise (fun x y => time x ≤ time y) → (∀ x ∈ ys ++ [y], s'.now ≤ time x) →
      Run step s' labels' t' → labels'.map Prod.fst = ys → t'.now ≤ time y := by
    intro ys y labels' t' hsorted hstart run' hcalls'
    refine Clocked.run_now_le clock run' (hstart y (by simp)) ?_
    refine forall_label_of_calls (P := fun x => time x ≤ time y) hcalls' fun x hx => ?_
    exact (List.pairwise_append.mp hsorted).2.2 x hx y (by simp)
  induction hins generalizing labels t with
  | nil =>
      rw [List.map_eq_nil_iff] at hcalls
      subst hcalls
      rw [← run.nil_inv]
      exact ⟨[], s', Run.nil s', rfl, hrel⟩
  | @keep xs ys x _ ih =>
      rcases List.eq_nil_or_concat' labels with rfl | ⟨labels, label, rfl⟩
      · simp at hcalls
      · simp only [List.map_append, List.map_cons, List.map_nil] at hcalls
        rcases List.append_inj' hcalls rfl with ⟨hbefore, hlast⟩
        cases hlast
        rcases run.snoc_inv with ⟨u, before, hstep⟩
        have hsorted' := (List.pairwise_append.mp hsorted).1
        rcases ih hsorted' (fun y hy => hstart y (by simp [hy]))
          (fun y hy => hkept y (by simp [hy]))
          before hbefore with ⟨labels', u', run', hcalls', hrel'⟩
        rcases keep u u' label t hrel' (hkept _ (by simp)) hstep
          (hready hsorted hstart run' hcalls') with ⟨r, t', hstep', hrel''⟩
        exact ⟨labels' ++ [(label.1, r)], t', run'.snoc hstep', by simp [hcalls'], hrel''⟩
  | @insert xs ys y _ hy ih =>
      have hsorted' := (List.pairwise_append.mp hsorted).1
      rcases ih hsorted' (fun x hx => hstart x (by simp [hx])) hkept run hcalls with
        ⟨labels', t', run', hcalls', hrel'⟩
      rcases insert t t' y hrel' hy (hready hsorted hstart run' hcalls') with ⟨r, u', hstep, hrel''⟩
      exact ⟨labels' ++ [(y, r)], u', run'.snoc hstep, by simp [hcalls'], hrel''⟩

end Inserted

end Clocked

end Lendoor
