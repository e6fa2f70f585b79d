import Mathlib.Algebra.BigOperators.Finprod

/-! # Finite key-value storage

A store is a partial map with finitely many present keys, the way a contract's
persistent entries are. Finiteness is a field, so sums over all keys of a value
read from a store are finite sums without any side condition at the call site.
-/

namespace Lendoor

/-- A key-value store with finitely many entries. -/
structure Store (K V : Type) where
  get? : K → Option V
  finite : {k | get? k ≠ none}.Finite

namespace Store

variable {K V : Type}

@[ext] theorem ext {s t : Store K V} (h : ∀ k, s.get? k = t.get? k) : s = t := by
  cases s
  cases t
  congr
  exact funext h

def empty : Store K V := ⟨fun _ => none, by simp⟩

/-- Read with the default a contract uses for an absent entry. -/
def getD (s : Store K V) (k : K) (d : V) : V := (s.get? k).getD d

@[simp] theorem get?_empty (k : K) : (empty : Store K V).get? k = none := rfl

@[simp] theorem getD_empty (k : K) (d : V) : (empty : Store K V).getD k d = d := rfl

variable [DecidableEq K]

def set (s : Store K V) (k : K) (v : V) : Store K V where
  get? := fun j => if j = k then some v else s.get? j
  finite := by
    refine (s.finite.insert k).subset ?_
    intro j hj
    by_cases h : j = k
    · exact .inl h
    · exact .inr (by simpa [h] using hj)

def remove (s : Store K V) (k : K) : Store K V where
  get? := fun j => if j = k then none else s.get? j
  finite := by
    refine s.finite.subset ?_
    intro j hj
    by_cases h : j = k
    · simp [h] at hj
    · simpa [h] using hj

theorem get?_set (s : Store K V) (k j : K) (v : V) :
    (s.set k v).get? j = if j = k then some v else s.get? j := rfl

theorem set_set (s : Store K V) (k : K) (v w : V) : (s.set k v).set k w = s.set k w := by
  ext j
  simp only [get?_set]
  split <;> rfl

theorem get?_remove (s : Store K V) (k j : K) :
    (s.remove k).get? j = if j = k then none else s.get? j := rfl

theorem getD_set (s : Store K V) (k j : K) (v d : V) :
    (s.set k v).getD j d = if j = k then v else s.getD j d := by
  unfold getD
  rw [get?_set]
  split <;> rfl

theorem getD_remove (s : Store K V) (k j : K) (d : V) :
    (s.remove k).getD j d = if j = k then d else s.getD j d := by
  unfold getD
  rw [get?_remove]
  split <;> rfl

@[simp] theorem getD_set_self (s : Store K V) (k : K) (v d : V) : (s.set k v).getD k d = v := by
  simp [getD_set]

theorem getD_set_of_ne (s : Store K V) {k j : K} (h : j ≠ k) (v d : V) :
    (s.set k v).getD j d = s.getD j d := by
  simp [getD_set, h]

end Store

/-! ## Sums over all keys -/

section Sums

variable {K : Type}

/-- Changing a finitely supported quantity at one key moves its sum by the change there. -/
theorem finsum_eq_add_of_eq_off {f g : K → Int} (k : K) (hf : (Function.support f).Finite)
    (hoff : ∀ j, j ≠ k → g j = f j) : ∑ᶠ j, g j = ∑ᶠ j, f j + (g k - f k) := by
  classical
  have hsplit : g = fun j => f j + if j = k then g k - f k else 0 := by
    funext j
    by_cases h : j = k
    · subst h
      simp
    · simp [h, hoff j h]
  have hpoint : (Function.support fun j => if j = k then g k - f k else 0).Finite := by
    refine (Set.finite_singleton k).subset ?_
    intro j hj
    by_contra h
    exact hj (if_neg h)
  have hsum : ∑ᶠ j, (if j = k then g k - f k else 0) = g k - f k := by
    rw [finsum_eq_single _ k (fun j h => if_neg h), if_pos rfl]
  calc ∑ᶠ j, g j = ∑ᶠ j, (f j + if j = k then g k - f k else 0) := by rw [← hsplit]
    _ = ∑ᶠ j, f j + ∑ᶠ j, (if j = k then g k - f k else 0) := finsum_add_distrib hf hpoint
    _ = ∑ᶠ j, f j + (g k - f k) := by rw [hsum]

/-- A nonnegative, finitely supported quantity is bounded at each key by its sum. -/
theorem le_finsum_of_nonneg {f : K → Int} (k : K) (hf : (Function.support f).Finite)
    (hnn : ∀ j, 0 ≤ f j) : f k ≤ ∑ᶠ j, f j := by
  classical
  rw [finsum_eq_sum_of_support_subset (s := insert k hf.toFinset) f
    (by intro j hj; simpa using .inr hj)]
  exact Finset.single_le_sum (fun j _ => hnn j) (Finset.mem_insert_self _ _)

/-- The support stays finite under an update at one key. -/
theorem finite_support_of_eq_off {f g : K → Int} (k : K) (hf : (Function.support f).Finite)
    (hoff : ∀ j, j ≠ k → g j = f j) : (Function.support g).Finite := by
  refine (hf.insert k).subset ?_
  intro j hj
  by_cases h : j = k
  · exact .inl h
  · refine .inr ?_
    rwa [Function.mem_support, ← hoff j h]

end Sums

end Lendoor
