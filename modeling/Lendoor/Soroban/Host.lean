import Lendoor.Core.Checked

/-! # Host interface of the two contracts

Addresses, the call environment with its authorizations, contract errors and
traps, and published events. A failed invocation has no state: the host discards
every write of a call that panics, so fallible code is a function into `Except`.
Storage rent (`extend_ttl`) has no effect on values and is not modelled.
-/

namespace Lendoor

/-- An account or contract address. Only its identity is observable. -/
structure Address where
  id : Nat
  deriving DecidableEq, Repr

namespace Vault

inductive Error
  | alreadyInitialized
  | notInitialized
  | zeroAmount
  | insufficientCash
  | insufficientShares
  | overCreditLimit
  | noActiveLoan
  | notDefaulted
  | zeroShares
  | invalidBeneficiary
  deriving DecidableEq, Repr

end Vault

namespace LoanManager

inductive Error
  | alreadyInitialized
  | notInitialized
  | notAuthorized
  | zeroAddress
  | zeroPrincipal
  | cooldown
  | loanActive
  | overCreditLimit
  | noOffer
  | offerExpired
  | badTenor
  | badFee
  | overOffer
  | noActiveLoan
  | alreadyDefaulted
  | tooEarlyToDefault
  | underpaid
  | invalidParam
  deriving DecidableEq, Repr

end LoanManager

/-- Why an invocation failed. `trap` is an arithmetic panic of the release build
(`overflow-checks = true`): an overflow, an underflow or a division by zero. -/
inductive Fault
  | vault (error : Vault.Error)
  | loanManager (error : LoanManager.Error)
  | unauthorized (address : Address)
  | negativeAmount
  | insufficientBalance
  | trap
  deriving DecidableEq, Repr

/-- Unwrap a checked machine operation the source writes with a plain operator. -/
abbrev orTrap {α : Type} (o : Option α) : Except Fault α := unwrapOr .trap o

/-- Events, one constructor per topic symbol with its further topics and its data. -/
inductive Event
  -- loan manager
  | ownerset (owner : Address)
  | vaultset (vault : Address)
  | riskset (account : Address) (limit : Int)
  | offerset (borrower : Address) (tenorDays feeBps : Nat) (maxAmount : Int)
  | loanopen (borrower : Address) (principal amountDue : Int) (due : Nat)
  | loanclos (borrower : Address) (paid : Int)
  | default (borrower : Address) (timestamp : Nat)
  | premium (borrower : Address) (lateRatePerSecWad : Int)
  | partpay (borrower : Address) (principalPaid interestPaid amountDue : Int)
  -- vault
  | deposit (account : Address) (assets shares : Int)
  | depFrom (payer beneficiary : Address) (assets shares : Int)
  | withdraw (account : Address) (assets shares : Int)
  | redeem (account : Address) (assets shares : Int)
  | borrow (borrower : Address) (amount : Int) (tenorDays feeBps : Nat)
  | repay (borrower : Address) (pay fee : Int)
  | partrepay (borrower : Address) (pay fee remaining : Int)
  | writeoff (borrower : Address) (amount : Int)
  deriving DecidableEq, Repr

/-- What a successful invocation leaves: the new state, the events it published
in order, and its return value. -/
structure Outcome (σ α : Type) where
  state : σ
  events : List Event
  value : α

namespace Outcome

variable {σ α β : Type}

/-- The same outcome with its return value read as another type. -/
def as (o : Outcome σ α) (f : α → β) : Outcome σ β := ⟨o.state, o.events, f o.value⟩

/-- The new state apart from what the call emitted and returned. -/
def split (o : Outcome σ α) : σ × (List Event × α) := (o.state, o.events, o.value)

@[simp] theorem as_state (o : Outcome σ α) (f : α → β) : (o.as f).state = o.state := rfl

@[simp] theorem as_value (o : Outcome σ α) (f : α → β) : (o.as f).value = f o.value := rfl

end Outcome

/-! ## Call environment -/

/-- The environment of one invocation: ledger time, the contract being executed,
and the addresses whose authorization covers the call. -/
structure Env where
  timestamp : Nat
  contract : Address
  auth : Address → Bool

namespace Env

def requireAuth (e : Env) (a : Address) : Except Fault Unit :=
  panicIf (e.auth a = false) (.unauthorized a)

/-- The environment of a call made by the running contract: a direct invoker
authorizes itself, and the outer authorizations stay in force. -/
def subcall (e : Env) : Env := { e with auth := fun a => a = e.contract || e.auth a }

/-- A call by one signer, to a contract that does not read its own address. -/
def signedBy (signer : Address) (timestamp : Nat) : Env := ⟨timestamp, signer, fun a => a = signer⟩

theorem requireAuth_eq_ok {e : Env} {a : Address} {u : Unit} :
    e.requireAuth a = .ok u ↔ e.auth a = true := by
  simp [requireAuth, panicIf_eq_ok]

@[simp] theorem subcall_auth_contract (e : Env) : e.subcall.auth e.contract = true := by
  simp [subcall]

theorem subcall_auth_of_auth {e : Env} {a : Address} (h : e.auth a = true) :
    e.subcall.auth a = true := by
  simp [subcall, h]

end Env

end Lendoor
