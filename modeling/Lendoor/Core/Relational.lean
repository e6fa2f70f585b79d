import Lendoor.Core.Checked

/-! # Two executions side by side

Rules for comparing two straight-line computations step by step, and for the
state they leave: an execution that reads and writes one key of a map commutes
with one that reads and writes another.
-/

namespace Lendoor

section Agree

variable {ε α β γ δ : Type} {R : α → β → Prop} {S : γ → δ → Prop}

/-- Both computations stop with the same error, or both return and their results
are related. -/
inductive Agree (R : α → β → Prop) : Except ε α → Except ε β → Prop
  | ok {a : α} {b : β} (h : R a b) : Agree R (.ok a) (.ok b)
  | error (error : ε) : Agree R (.error error) (.error error)

namespace Agree

theorem pure {a : α} {b : β} (h : R a b) : Agree R (Pure.pure a : Except ε α) (Pure.pure b) :=
  .ok h

/-- One more step on both sides. The second rule may use what each side computed. -/
theorem bind {x : Except ε α} {y : Except ε β} {f : α → Except ε γ} {g : β → Except ε δ}
    (h : Agree R x y) (hnext : ∀ a b, x = .ok a → y = .ok b → R a b → Agree S (f a) (g b)) :
    Agree S (x >>= f) (y >>= g) := by
  cases h with
  | ok hab => exact hnext _ _ rfl rfl hab
  | error error => exact .error error

/-- A step both sides share. -/
theorem same (x : Except ε α) {f : α → Except ε γ} {g : α → Except ε δ}
    (hnext : ∀ a, x = .ok a → Agree S (f a) (g a)) : Agree S (x >>= f) (x >>= g) := by
  cases x with
  | ok a => exact hnext a rfl
  | error error => exact .error error

/-- A test both sides share. -/
theorem ite {c : Prop} [Decidable c] {x x' : Except ε α} {y y' : Except ε β}
    (hpos : c → Agree R x y) (hneg : ¬ c → Agree R x' y') :
    Agree R (if c then x else x') (if c then y else y') := by
  split
  · rename_i h
    exact hpos h
  · rename_i h
    exact hneg h

theorem map {x : Except ε α} {y : Except ε β} {f : α → γ} {g : β → δ} (h : Agree R x y)
    (hfg : ∀ a b, R a b → S (f a) (g b)) : Agree S (x.map f) (y.map g) := by
  cases h with
  | ok hab => exact .ok (hfg _ _ hab)
  | error error => exact .error error

/-- A success on the left is a related success on the right. -/
theorem exists_ok {x : Except ε α} {y : Except ε β} {a : α} (h : Agree R x y) (hx : x = .ok a) :
    ∃ b, y = .ok b ∧ R a b := by
  cases h with
  | ok hab =>
      cases hx
      exact ⟨_, rfl, hab⟩
  | error error => cases hx

end Agree

end Agree

/-! ## Maps changed at one key -/

section Keys

variable {K V : Type} {k l : K} {f f₁ f₂ f₁₂ f₂₁ : K → V}

/-- Two changes of one map at the same key, to the same value. -/
theorem eq_of_eq_off (h₁ : ∀ j, j ≠ k → f₁ j = f j) (h₂ : ∀ j, j ≠ k → f₂ j = f j)
    (hk : f₁ k = f₂ k) : f₁ = f₂ := by
  funext j
  by_cases hj : j = k
  · rw [hj, hk]
  · rw [h₁ j hj, h₂ j hj]

/-- Changes at two different keys, made in both orders, each with the same result at
its own key in either order. -/
theorem eq_of_commuting (hkl : k ≠ l) (h₁ : ∀ j, j ≠ k → f₁ j = f j)
    (h₁₂ : ∀ j, j ≠ l → f₁₂ j = f₁ j) (h₂ : ∀ j, j ≠ l → f₂ j = f j)
    (h₂₁ : ∀ j, j ≠ k → f₂₁ j = f₂ j) (hk : f₁ k = f₂₁ k) (hl : f₂ l = f₁₂ l) : f₁₂ = f₂₁ := by
  funext j
  by_cases hj : j = k
  · subst hj
    rw [h₁₂ j hkl, hk]
  · by_cases hj' : j = l
    · subst hj'
      rw [h₂₁ j hj, hl]
    · rw [h₁₂ j hj', h₁ j hj, h₂₁ j hj, h₂ j hj']

end Keys

end Lendoor
