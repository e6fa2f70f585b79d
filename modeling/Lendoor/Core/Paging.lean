import Mathlib.Data.List.Basic

/-! # Reading a log in pages

A query over a log is answered by a page, the first entries it selects, and the next
query asks for what comes after the last entry of that page. Entries are told apart
by a key that grows along the log. A list that is already there is worked through in
chunks, or in groups of one key.
-/

namespace Lendoor

variable {α : Type} {key : α → Nat}

/-- The keys of the list grow strictly. -/
def KeysGrow (key : α → Nat) (l : List α) : Prop := l.Pairwise (fun x y => key x < key y)

namespace KeysGrow

variable {l : List α} {n : Nat} {x : α}

theorem filter (h : KeysGrow key l) (p : α → Bool) : KeysGrow key (l.filter p) :=
  List.Pairwise.filter p h

/-- Entries whose keys grow strictly stand in a list whose keys never fall as they stand
themselves. -/
theorem sublist {xs ys : List α} (h : KeysGrow key xs) (hmem : ∀ x ∈ xs, x ∈ ys)
    (hys : ys.Pairwise fun x y => key x ≤ key y) : xs.Sublist ys := by
  induction ys generalizing xs with
  | nil =>
      rw [List.eq_nil_iff_forall_not_mem.mpr fun x hx => List.not_mem_nil (hmem x hx)]
  | cons y ys ih =>
      rcases List.pairwise_cons.mp hys with ⟨hfirst, hrest⟩
      cases xs with
      | nil => exact List.nil_sublist _
      | cons x xs =>
          rcases List.pairwise_cons.mp h with ⟨hleast, hgrow⟩
          -- no entry after the first one is the first of the other list
          have hlater : ∀ x' ∈ xs, x' ∈ ys := by
            intro x' hx'
            rcases List.mem_cons.mp (hmem x' (List.mem_cons_of_mem _ hx')) with rfl | hin
            · rcases List.mem_cons.mp (hmem x List.mem_cons_self) with rfl | hin
              · exact absurd (hleast x hx') (Nat.lt_irrefl _)
              · exact absurd (hleast x' hx') (Nat.not_lt.mpr (hfirst x hin))
            · exact hin
          rcases List.mem_cons.mp (hmem x List.mem_cons_self) with rfl | hin
          · exact (ih hgrow hlater hrest).cons_cons x
          · refine (ih h (fun x' hx' => ?_) hrest).cons y
            rcases List.mem_cons.mp hx' with rfl | hx'
            · exact hin
            · exact hlater x' hx'

/-- A list is what lies up to a key followed by what lies after it. -/
theorem split_at_key (h : KeysGrow key l) (k : Nat) :
    l = l.filter (fun y => key y ≤ k) ++ l.filter (fun y => k < key y) := by
  induction l with
  | nil => rfl
  | cons y l ih =>
      have htail := List.pairwise_cons.mp h
      by_cases hy : key y ≤ k
      · have hy' : ¬k < key y := by omega
        rw [List.filter_cons_of_pos (by simpa using hy),
          List.filter_cons_of_neg (by simpa using hy'), List.cons_append, ← ih htail.2]
      · have hnone : (y :: l).filter (fun z => key z ≤ k) = [] := by
          rw [List.filter_eq_nil_iff]
          intro z hz
          rcases List.mem_cons.mp hz with rfl | hz
          · simpa using hy
          · have hlt := htail.1 z hz
            simp only [decide_eq_true_eq]
            omega
        have hall : (y :: l).filter (fun z => k < key z) = y :: l := by
          rw [List.filter_eq_self]
          intro z hz
          rcases List.mem_cons.mp hz with rfl | hz
          · simpa using hy
          · have hlt := htail.1 z hz
            simp only [decide_eq_true_eq]
            omega
        rw [hnone, hall, List.nil_append]

/-- The last entry of a page separates it from what the page left out. -/
theorem page_bounds (h : KeysGrow key l) (hlast : (l.take n).getLast? = some x) :
    (∀ y ∈ l.take n, key y ≤ key x) ∧ ∀ y ∈ l.drop n, key x < key y := by
  rcases List.getLast?_eq_some_iff.mp hlast with ⟨page, hpage⟩
  have hl : l = page ++ [x] ++ l.drop n := by rw [← hpage, List.take_append_drop]
  unfold KeysGrow at h
  rw [hl, List.pairwise_append, List.pairwise_append] at h
  rcases h with ⟨⟨-, -, hfront⟩, -, hback⟩
  constructor
  · intro y hy
    rw [hpage] at hy
    rcases List.mem_append.mp hy with hy | hy
    · exact Nat.le_of_lt (hfront y hy x (List.mem_singleton.mpr rfl))
    · exact Nat.le_of_eq (congrArg key (List.mem_singleton.mp hy))
  · intro y hy
    exact hback x (List.mem_append_right _ (List.mem_singleton.mpr rfl)) y hy

theorem after_page (h : KeysGrow key l) (hlast : (l.take n).getLast? = some x) :
    l.filter (fun y => key x < key y) = l.drop n := by
  rcases h.page_bounds hlast with ⟨hpage, hrest⟩
  conv_lhs => rw [← List.take_append_drop n l]
  rw [List.filter_append, List.filter_eq_nil_iff.mpr, List.nil_append, List.filter_eq_self.mpr]
  · intro y hy
    simpa using hrest y hy
  · intro y hy
    simpa using hpage y hy

theorem upto_page (h : KeysGrow key l) (hlast : (l.take n).getLast? = some x) :
    l.filter (fun y => key y ≤ key x) = l.take n := by
  rcases h.page_bounds hlast with ⟨hpage, hrest⟩
  conv_lhs => rw [← List.take_append_drop n l]
  rw [List.filter_append, List.filter_eq_self.mpr, List.filter_eq_nil_iff.mpr, List.append_nil]
  · intro y hy
    simpa using hrest y hy
  · intro y hy
    simpa using hpage y hy

end KeysGrow

/-! ## Chunks and groups -/

theorem toChunks_go_flatten (n : Nat) (xs : List α) (chunk : Array α) (chunks : Array (List α)) :
    (List.toChunks.go n xs chunk chunks).flatten = chunks.toList.flatten ++
      (chunk.toList ++ xs) := by
  induction xs generalizing chunk chunks with
  | nil => simp [List.toChunks.go]
  | cons x xs ih =>
      rw [List.toChunks.go]
      split
      · rw [ih]
        simp
      · rw [ih]
        simp

/-- The chunks of a list make up the list. -/
theorem flatten_toChunks (n : Nat) (xs : List α) : (xs.toChunks n).flatten = xs := by
  cases xs with
  | nil => simp [List.toChunks]
  | cons x xs =>
      cases n with
      | zero => simp [List.toChunks]
      | succ n =>
          rw [List.toChunks, toChunks_go_flatten]
          · simp
          · simp

theorem mem_toChunks {n : Nat} {xs : List α} {x : α} :
    x ∈ xs ↔ ∃ chunk ∈ xs.toChunks n, x ∈ chunk := by
  rw [← List.mem_flatten, flatten_toChunks]

theorem nodup_eraseDups (xs : List Nat) : xs.eraseDups.Nodup := by
  induction h : xs.length using Nat.strongRecOn generalizing xs with
  | ind n ih =>
      cases xs with
      | nil => simp
      | cons x xs =>
          have hlt := List.length_filter_le (fun y => !y == x) xs
          rw [List.eraseDups_cons, List.nodup_cons]
          refine ⟨by simp [List.mem_eraseDups], ih _ ?_ _ rfl⟩
          rw [← h, List.length_cons]
          omega

/-- The groups of a list by a key, in the order in which the keys appear. -/
def groups (key : α → Nat) (xs : List α) : List (List α) :=
  ((xs.map key).eraseDups).map fun k => xs.filter fun x => key x = k

theorem mem_group {xs group : List α} (hgroup : group ∈ groups key xs) {x : α} (hx : x ∈ group) :
    x ∈ xs := by
  rcases List.mem_map.mp hgroup with ⟨k, -, rfl⟩
  exact List.mem_of_mem_filter hx

theorem exists_group (key : α → Nat) {xs : List α} {x : α} (hx : x ∈ xs) :
    ∃ group ∈ groups key xs, x ∈ group := by
  refine ⟨xs.filter fun y => key y = key x, List.mem_map.mpr ⟨key x, ?_, rfl⟩, ?_⟩
  · rw [List.mem_eraseDups]
    exact List.mem_map_of_mem hx
  · simp [hx]

/-- No member of one group is in another. -/
theorem pairwise_groups (key : α → Nat) (xs : List α) :
    (groups key xs).Pairwise fun group other => ∀ x ∈ group, x ∉ other := by
  refine List.Pairwise.map _ ?_ (nodup_eraseDups (xs.map key))
  intro k l hkl x hx hx'
  simp only [List.mem_filter, decide_eq_true_eq] at hx hx'
  exact hkl (hx.2.symm.trans hx'.2)

end Lendoor
