import Lendoor.Core.Storage
import Lendoor.Soroban.Host

/-! # The settlement token

A standard token as the contracts use it: balances and `transfer`. The ledger
type carries what such a token guarantees, so no ill-formed ledger can be built:
balances are nonnegative, finitely many accounts hold any, and the total supply
is a signed 128-bit amount. An issuer is an account whose balance is the part of
the supply it has not handed out.
-/

namespace Lendoor

structure Token where
  balance : Address → Int
  balance_nonneg : ∀ a, 0 ≤ balance a
  finite_support : (Function.support balance).Finite
  supply_lt : ∑ᶠ a, balance a < 2 ^ 127

namespace Token

@[ext] theorem ext {t u : Token} (h : ∀ a, t.balance a = u.balance a) : t = u := by
  cases t
  cases u
  congr
  exact funext h

theorem balance_lt (t : Token) (a : Address) : t.balance a < 2 ^ 127 :=
  lt_of_le_of_lt (le_finsum_of_nonneg a t.finite_support t.balance_nonneg) t.supply_lt

/-- The ledger whose whole supply is with one account. -/
def single (holder : Address) (supply : Int) (h0 : 0 ≤ supply) (h1 : supply < 2 ^ 127) : Token where
  balance := fun a => if a = holder then supply else 0
  balance_nonneg := by
    intro a
    split
    · exact h0
    · exact le_rfl
  finite_support := by
    refine (Set.finite_singleton holder).subset ?_
    intro a ha
    by_contra hne
    exact ha (if_neg hne)
  supply_lt := by
    rw [finsum_eq_single _ holder (fun a ha => if_neg ha), if_pos rfl]
    exact h1

/-! ## Moving an amount -/

/-- Balances after debiting `source` and then crediting `target`. -/
def moved (balance : Address → Int) (source target : Address) (amount : Int) : Address → Int :=
  fun a => balance a - (if a = source then amount else 0) + (if a = target then amount else 0)

section Moved

variable (balance : Address → Int) (source target : Address) (amount : Int)

theorem moved_eq_off {a : Address} (hs : a ≠ source) (ht : a ≠ target) :
    moved balance source target amount a = balance a := by
  simp [moved, hs, ht]

theorem moved_self : moved balance source source amount = balance := by
  funext a
  by_cases h : a = source <;> simp [moved, h]

theorem moved_source (h : source ≠ target) :
    moved balance source target amount source = balance source - amount := by
  simp [moved, h]

theorem moved_target (h : source ≠ target) :
    moved balance source target amount target = balance target + amount := by
  simp [moved, h.symm]

/-- A transfer between two accounts keeps their sum. -/
theorem moved_pair (h : source ≠ target) :
    moved balance source target amount source + moved balance source target amount target =
      balance source + balance target := by
  rw [moved_source _ _ _ _ h, moved_target _ _ _ _ h]
  omega

@[simp] theorem moved_zero : moved balance source target 0 = balance := by
  funext a
  simp [moved]

/-- Sending part of an amount back leaves the difference moved. -/
theorem moved_back (returned : Int) :
    moved (moved balance source target amount) target source returned =
      moved balance source target (amount - returned) := by
  funext a
  simp only [moved]
  split <;> split <;> omega

theorem moved_nonneg (hnn : ∀ a, 0 ≤ balance a) (h0 : 0 ≤ amount) (h1 : amount ≤ balance source)
    (a : Address) : 0 ≤ moved balance source target amount a := by
  have := hnn a
  unfold moved
  by_cases hs : a = source
  · subst hs
    split <;> simp <;> omega
  · simp only [if_neg hs]
    split <;> omega

theorem moved_finite (hf : (Function.support balance).Finite) :
    (Function.support (moved balance source target amount)).Finite := by
  refine ((hf.insert source).insert target).subset ?_
  intro a ha
  by_cases hs : a = source
  · exact .inr (.inl hs)
  by_cases ht : a = target
  · exact .inl ht
  · refine .inr (.inr ?_)
    rwa [Function.mem_support, ← moved_eq_off balance source target amount hs ht]

/-- A transfer conserves the supply: the debit and the credit are two one-key changes. -/
theorem finsum_moved (hf : (Function.support balance).Finite) :
    ∑ᶠ a, moved balance source target amount a = ∑ᶠ a, balance a := by
  let debited : Address → Int := fun a => balance a - if a = source then amount else 0
  have hdebit : ∑ᶠ a, debited a = ∑ᶠ a, balance a + (debited source - balance source) :=
    finsum_eq_add_of_eq_off source hf (fun a ha => by simp [debited, ha])
  have hfd : (Function.support debited).Finite :=
    finite_support_of_eq_off source hf (fun a ha => by simp [debited, ha])
  have hcredit := finsum_eq_add_of_eq_off (g := moved balance source target amount) target hfd
    (fun a ha => by simp [moved, debited, ha])
  rw [hcredit, hdebit]
  simp [moved, debited]

end Moved

def move (t : Token) (source target : Address) (amount : Int) (h0 : 0 ≤ amount)
    (h1 : amount ≤ t.balance source) : Token where
  balance := moved t.balance source target amount
  balance_nonneg := moved_nonneg t.balance source target amount t.balance_nonneg h0 h1
  finite_support := moved_finite t.balance source target amount t.finite_support
  supply_lt := by
    rw [finsum_moved t.balance source target amount t.finite_support]
    exact t.supply_lt

/-- `transfer(from, to, amount)` of a standard token. The credit cannot overflow:
the supply bound of the ledger covers every balance. -/
def transfer (e : Env) (t : Token) (source target : Address) (amount : Int) :
    Except Fault Token := do
  e.requireAuth source
  if h0 : 0 ≤ amount then
    if h1 : amount ≤ t.balance source then
      .ok (t.move source target amount h0 h1)
    else .error .insufficientBalance
  else .error .negativeAmount

/-- A transfer succeeds exactly when it is authorized, nonnegative and funded,
and then moves the amount. -/
theorem transfer_eq_ok {e : Env} {t t' : Token} {source target : Address} {amount : Int} :
    t.transfer e source target amount = .ok t' ↔
      e.auth source = true ∧ 0 ≤ amount ∧ amount ≤ t.balance source ∧
        t'.balance = moved t.balance source target amount := by
  constructor
  · intro h
    simp only [transfer, bind_eq_ok, Env.requireAuth_eq_ok] at h
    rcases h with ⟨_, hauth, h⟩
    split at h
    · split at h
      · cases h
        exact ⟨hauth, ‹_›, ‹_›, rfl⟩
      · cases h
    · cases h
  · intro h
    rcases h with ⟨hauth, h0, h1, hbal⟩
    have ht' : t' = t.move source target amount h0 h1 :=
      Token.ext (fun a => by rw [hbal]; rfl)
    simp only [transfer, bind_eq_ok, Env.requireAuth_eq_ok]
    exact ⟨(), hauth, by rw [dif_pos h0, dif_pos h1, ht']⟩

/-- An authorized, funded transfer of a nonnegative amount goes through. -/
theorem transfer_ok {e : Env} {t : Token} {source : Address} (target : Address) {amount : Int}
    (hauth : e.auth source = true) (h0 : 0 ≤ amount) (h1 : amount ≤ t.balance source) :
    ∃ t', t.transfer e source target amount = .ok t' ∧
      t'.balance = moved t.balance source target amount :=
  ⟨t.move source target amount h0 h1, transfer_eq_ok.mpr ⟨hauth, h0, h1, rfl⟩, rfl⟩

end Token

end Lendoor
