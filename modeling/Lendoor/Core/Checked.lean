import Mathlib.Algebra.Order.Ring.Int
import Mathlib.Tactic.Linarith
import Mathlib.Tactic.Ring

/-! # Checked machine arithmetic and guarded computations

Signed 128-bit and unsigned 64-bit arithmetic over `Int` and `Nat`: every
operation returns `none` exactly when the machine result would leave its range,
so a release build with overflow checks traps where these return `none`.
Division truncates toward zero. The second half is the calculus for
straight-line `Except` programs: every step of a successful computation is
peeled off by one rewriting lemma, so callers never unfold a bind.
-/

namespace Lendoor

/-! ## Signed 128-bit integers -/

namespace I128

/-- The values a signed 128-bit integer can hold. -/
def Fits (z : Int) : Prop := -2 ^ 127 ≤ z ∧ z < 2 ^ 127

instance (z : Int) : Decidable (Fits z) := inferInstanceAs (Decidable (_ ∧ _))

def narrow (z : Int) : Option Int := if Fits z then some z else none

def add (x y : Int) : Option Int := narrow (x + y)
def sub (x y : Int) : Option Int := narrow (x - y)
def mul (x y : Int) : Option Int := narrow (x * y)

/-- Truncating division: no result for a zero divisor or for `MIN / -1`. -/
def div (x y : Int) : Option Int := if y = 0 then none else narrow (x.tdiv y)

theorem narrow_eq_some {z r : Int} : narrow z = some r ↔ z = r ∧ Fits z := by
  unfold narrow
  split <;> simp_all

@[simp] theorem add_eq_some {x y r : Int} : add x y = some r ↔ x + y = r ∧ Fits (x + y) :=
  narrow_eq_some

@[simp] theorem sub_eq_some {x y r : Int} : sub x y = some r ↔ x - y = r ∧ Fits (x - y) :=
  narrow_eq_some

@[simp] theorem mul_eq_some {x y r : Int} : mul x y = some r ↔ x * y = r ∧ Fits (x * y) :=
  narrow_eq_some

@[simp] theorem div_eq_some {x y r : Int} :
    div x y = some r ↔ y ≠ 0 ∧ x.tdiv y = r ∧ Fits (x.tdiv y) := by
  unfold div
  split
  · simp_all
  · simp_all [narrow_eq_some]

theorem Fits.of_le {x y : Int} (hx : 0 ≤ x) (hxy : x ≤ y) (hy : Fits y) : Fits x := by
  rcases hy with ⟨_, hy⟩
  exact ⟨by omega, by omega⟩

theorem Fits.of_bounds {x : Int} (h0 : 0 ≤ x) (h1 : x < 2 ^ 127) : Fits x := ⟨by omega, h1⟩

/-- A chain of two checked products with a nonnegative first product and a last
factor of at least one fails exactly when the whole product does not fit. -/
theorem mul_bind_mul {x y z : Int} (hxy : 0 ≤ x * y) (hz : 1 ≤ z) :
    (mul x y).bind (fun w => mul w z) = if Fits (x * y * z) then some (x * y * z) else none := by
  have hfirst : x * y ≤ x * y * z := le_mul_of_one_le_right hxy hz
  by_cases hfit : Fits (x * y * z)
  · rw [if_pos hfit, mul_eq_some.mpr ⟨rfl, Fits.of_le hxy hfirst hfit⟩, Option.bind_some]
    exact mul_eq_some.mpr ⟨rfl, hfit⟩
  · rw [if_neg hfit, Option.eq_none_iff_forall_ne_some]
    intro r hr
    simp only [Option.bind_eq_some_iff, mul_eq_some] at hr
    rcases hr with ⟨_, ⟨rfl, _⟩, _, hfit'⟩
    exact hfit hfit'

/-- A quotient of a nonnegative value by a positive one stays in range. -/
theorem Fits.tdiv {x y : Int} (hx : 0 ≤ x) (hy : 0 < y) (h : Fits x) : Fits (x.tdiv y) := by
  rw [Int.tdiv_eq_ediv_of_nonneg hx]
  exact Fits.of_le (Int.ediv_nonneg hx hy.le) (Int.ediv_le_self y hx) h

end I128

/-! ## Unsigned 64-bit integers -/

namespace U64

def Fits (n : Nat) : Prop := n < 2 ^ 64

instance (n : Nat) : Decidable (Fits n) := inferInstanceAs (Decidable (_ < _))

def narrow (n : Nat) : Option Nat := if Fits n then some n else none

def add (x y : Nat) : Option Nat := narrow (x + y)
def mul (x y : Nat) : Option Nat := narrow (x * y)
def sub (x y : Nat) : Option Nat := if y ≤ x then some (x - y) else none

theorem narrow_eq_some {n r : Nat} : narrow n = some r ↔ n = r ∧ Fits n := by
  unfold narrow
  split <;> simp_all

@[simp] theorem add_eq_some {x y r : Nat} : add x y = some r ↔ x + y = r ∧ Fits (x + y) :=
  narrow_eq_some

@[simp] theorem mul_eq_some {x y r : Nat} : mul x y = some r ↔ x * y = r ∧ Fits (x * y) :=
  narrow_eq_some

@[simp] theorem sub_eq_some {x y r : Nat} : sub x y = some r ↔ y ≤ x ∧ x - y = r := by
  unfold sub
  split <;> simp_all

end U64

/-- Unsigned machine arguments of entry points. -/
abbrev Word32 := Fin (2 ^ 32)

abbrev Word64 := Fin (2 ^ 64)

instance neZero_word32 : NeZero (2 ^ 32) := ⟨by decide⟩

instance neZero_word64 : NeZero (2 ^ 64) := ⟨by decide⟩

/-! ## Guarded computations -/

section Guarded

variable {ε α β : Type}

/-- Stop with `error` when the rejected condition holds. -/
def panicIf (rejected : Prop) [Decidable rejected] (error : ε) : Except ε Unit :=
  if rejected then .error error else .ok ()

/-- Unwrap an optional value, stopping with `error` when there is none. -/
def unwrapOr (error : ε) : Option α → Except ε α
  | some a => .ok a
  | none => .error error

@[simp] theorem unwrapOr_some (error : ε) (a : α) : unwrapOr error (some a) = .ok a := rfl

@[simp] theorem unwrapOr_none (error : ε) : unwrapOr error (none : Option α) = .error error := rfl

@[simp] theorem ok_bind (a : α) (f : α → Except ε β) : (Except.ok a >>= f) = f a := rfl

@[simp] theorem error_bind (error : ε) (f : α → Except ε β) :
    (Except.error error >>= f) = .error error := rfl

theorem bind_eq_ok {x : Except ε α} {f : α → Except ε β} {r : β} :
    (x >>= f) = .ok r ↔ ∃ a, x = .ok a ∧ f a = .ok r := by
  cases x <;> simp [bind, Except.bind]

theorem bind_eq_error {x : Except ε α} {f : α → Except ε β} {error : ε} :
    (x >>= f) = .error error ↔ x = .error error ∨ ∃ a, x = .ok a ∧ f a = .error error := by
  cases x <;> simp [bind, Except.bind]

theorem pure_eq_ok {a r : α} : (pure a : Except ε α) = .ok r ↔ a = r := by
  simp [pure, Except.pure]

theorem map_eq_ok {x : Except ε α} {f : α → β} {r : β} :
    x.map f = .ok r ↔ ∃ a, x = .ok a ∧ f a = r := by
  cases x <;> simp [Except.map]

/-- A computation with a known reading returned. -/
theorem exists_ok_of_toOption_map {x : Except ε α} {f : α → β} {r : β}
    (h : x.toOption.map f = some r) : ∃ a, x = .ok a ∧ f a = r := by
  cases x with
  | error => cases h
  | ok a => exact ⟨a, rfl, Option.some.inj h⟩

theorem ite_eq_ok {c : Prop} [Decidable c] {x y : Except ε α} {r : α} :
    (if c then x else y) = .ok r ↔ (c ∧ x = .ok r) ∨ (¬ c ∧ y = .ok r) := by
  by_cases h : c <;> simp [h]

theorem panicIf_eq_ok {rejected : Prop} [Decidable rejected] {error : ε} {u : Unit} :
    panicIf rejected error = .ok u ↔ ¬ rejected := by
  unfold panicIf
  split <;> simp_all

/-- A loop of checks passes when each does. -/
theorem forM_eq_ok {f : α → Except ε Unit} {xs : List α} :
    forM xs f = .ok () ↔ ∀ x ∈ xs, f x = .ok () := by
  induction xs with
  | nil => simp [pure_eq_ok]
  | cons x xs ih =>
      rw [List.forM_cons, bind_eq_ok, List.forall_mem_cons, ← ih]
      constructor
      · rintro ⟨_, hx, hrest⟩
        exact ⟨hx, hrest⟩
      · rintro ⟨hx, hrest⟩
        exact ⟨(), hx, hrest⟩

theorem panicIf_eq_error {rejected : Prop} [Decidable rejected] {error error' : ε} :
    panicIf rejected error = .error error' ↔ rejected ∧ error = error' := by
  unfold panicIf
  split <;> simp_all

theorem unwrapOr_eq_error {error error' : ε} {o : Option α} :
    unwrapOr error o = .error error' ↔ o = none ∧ error = error' := by
  cases o <;> simp [unwrapOr]

theorem unwrapOr_eq_ok {error : ε} {o : Option α} {a : α} :
    unwrapOr error o = .ok a ↔ o = some a := by
  cases o <;> simp [unwrapOr]

/-- A decidable property of the result of a computation can be checked by running it. -/
instance decidableExistsOk {P : α → Prop} [DecidablePred P] :
    (x : Except ε α) → Decidable (∃ a, x = .ok a ∧ P a)
  | .ok a => decidable_of_iff (P a) (by simp)
  | .error _ => isFalse (by simp)

end Guarded

end Lendoor
