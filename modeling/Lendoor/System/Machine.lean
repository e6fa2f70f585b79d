import Lendoor.Core.Runs
import Lendoor.Vault.Effects

/-! # The composed contracts

The vault, the loan manager and the token as one clocked transition system. A
call is any public entry point of either contract or a token transfer, by any
callers. The environment assumptions are explicit: the vault's own address signs
nothing, and the loan manager stays wired to the vault.
-/

namespace Lendoor

namespace Vault

/-- State-changing entry points with their arguments. -/
inductive Op
  | deposit (source : Address) (assets : Int)
  | depositFrom (payer beneficiary : Address) (assets : Int)
  | withdraw (source : Address) (assets : Int)
  | redeem (source : Address) (shares : Int)
  | borrowWithTerm (borrower : Address) (amount : Int) (tenorDays feeBps : Word32)
  | repay (payer borrower : Address)
  | repayPartial (payer borrower : Address) (amount : Int)
  | manualWriteOff (borrower : Address) (amount : Int)
  | setFeeRecipient (recipient : Address)
  deriving DecidableEq

/-- Return values. A deposit and a withdrawal return shares, a redemption and a
loan return assets, a payment how it was split. -/
inductive Ret
  | unit
  | amount (value : Int)
  | payment (payment : Payment)
  deriving DecidableEq, Repr

def exec (e : Env) (w : World) : Op → Except Fault (Outcome World Ret)
  | .deposit a n => (deposit e w a n).map (·.as .amount)
  | .depositFrom p b n => (depositFrom e w p b n).map (·.as .amount)
  | .withdraw a n => (withdraw e w a n).map (·.as .amount)
  | .redeem a n => (redeem e w a n).map (·.as .amount)
  | .borrowWithTerm b n t f => (borrowWithTerm e w b n t f).map (·.as .amount)
  | .repay p b => (repay e w p b).map (·.as .payment)
  | .repayPartial p b n => (repayPartial e w p b n).map (·.as .payment)
  | .manualWriteOff b n => (manualWriteOff e w b n).map (·.as fun _ => .unit)
  | .setFeeRecipient a => (setFeeRecipient e w a).map (·.as fun _ => .unit)

end Vault

namespace System

inductive Op
  | vault (op : Vault.Op)
  | loanManager (op : LoanManager.Op)
  | transfer (source target : Address) (amount : Int)
  deriving DecidableEq

inductive Ret
  | unit
  | vault (ret : Vault.Ret)
  | loanManager (ret : LoanManager.Ret)
  deriving DecidableEq, Repr

/-- One call from outside. `e.contract` is the vault's address, the only contract
that reads its own. -/
def exec (e : Env) (w : World) : Op → Except Fault (Outcome World Ret)
  | .vault op => (Vault.exec e w op).map (·.as .vault)
  | .loanManager op => (LoanManager.exec e w.loanManager op).map fun o =>
      ⟨{ w with loanManager := o.state }, o.events, .loanManager o.value⟩
  | .transfer source target amount => (w.usdc.transfer e source target amount).map fun usdc =>
      ⟨{ w with usdc := usdc }, [], .unit⟩

/-- A call with its ledger time and the addresses that authorize it. -/
structure Call where
  timestamp : Nat
  auth : Address → Bool
  op : Op

def Call.env (v : Address) (c : Call) : Env := ⟨c.timestamp, v, c.auth⟩

def Call.exec (v : Address) (c : Call) (w : World) : Except Fault (World × (List Event × Ret)) :=
  (System.exec (c.env v) w c.op).map Outcome.split

/-- A call signed by one account. -/
def Call.signedBy (signer : Address) (timestamp : Nat) (op : Op) : Call :=
  ⟨timestamp, fun a => a = signer, op⟩

/-- What the composition assumes of its environment: no caller is the vault
itself, and `set_vault` names this vault. -/
structure Call.Admissible (v : Address) (c : Call) : Prop where
  outsider : c.auth v = false
  wired : ∀ a, c.op = .loanManager (.setVault a) → a = v

abbrev Label := Call × (List Event × Ret)

/-- One successful admissible call, in a ledger no earlier than the last. -/
structure Step (v : Address) (s : Clocked World) (label : Label) (t : Clocked World) : Prop where
  admissible : label.1.Admissible v
  call : Clocked.Step Call.timestamp (Call.exec v) s label t

/-- The state right after both contracts were deployed next to any token ledger. -/
def deployed (v : Address) (usdc : Token) (owner feeRecipient lmOwner : Address) : World :=
  ⟨usdc, Vault.construct owner feeRecipient, LoanManager.construct lmOwner v⟩

def Reachable (v : Address) (s : Clocked World) : Prop :=
  ∃ usdc owner feeRecipient lmOwner now labels,
    Run (Step v) ⟨now, deployed v usdc owner feeRecipient lmOwner⟩ labels s

theorem Step.exec_ok {v : Address} {s t : Clocked World} {label : Label} (h : Step v s label t) :
    ∃ o, exec (label.1.env v) s.state label.1.op = .ok o ∧ o.state = t.state ∧
      o.value = label.2.2 := by
  rcases map_eq_ok.mp h.call.exec_eq with ⟨o, ho, hsplit⟩
  exact ⟨o, ho, congrArg Prod.fst hsplit, congrArg (fun r => r.2.2) hsplit⟩

theorem Step.of_exec {v : Address} {s : Clocked World} {c : Call} {r : World × (List Event × Ret)}
    (hadm : c.Admissible v) (hclock : s.now ≤ c.timestamp) (h : c.exec v s.state = .ok r) :
    Step v s (c, r.2) ⟨c.timestamp, r.1⟩ :=
  ⟨hadm, hclock, rfl, h⟩

/-! ## Executing concrete call sequences -/

/-- Calls whose `Admissible` conditions can be read off the call. -/
def Call.admissible (v : Address) (c : Call) : Bool :=
  !c.auth v && match c.op with
    | .loanManager (.setVault a) => a = v
    | _ => true

theorem Call.Admissible.of_admissible {v : Address} {c : Call} (h : c.admissible v = true) :
    c.Admissible v := by
  simp only [Call.admissible, Bool.and_eq_true, Bool.not_eq_true'] at h
  refine ⟨h.1, fun a ha => ?_⟩
  simpa [ha] using h.2

theorem run_of_run? {v : Address} {s t : Clocked World} {calls : List Call}
    (h : Clocked.run? Call.timestamp (Call.exec v) s calls = some t)
    (hadm : ∀ c ∈ calls, c.admissible v = true) :
    ∃ labels, Run (Step v) s labels t ∧ labels.map Prod.fst = calls := by
  rcases Clocked.run?_run h with ⟨labels, run, hcalls⟩
  have hall : ∀ label ∈ labels, label.1.Admissible v :=
    forall_label_of_calls hcalls fun c hmem => .of_admissible (hadm c hmem)
  exact ⟨labels, (run.restrict hall).mono fun _ _ _ hstep => ⟨hstep.2, hstep.1⟩, hcalls⟩

theorem reachable_of_run? {v : Address} {usdc : Token} {owner feeRecipient lmOwner : Address}
    {now : Nat} {s : Clocked World} {calls : List Call}
    (h : Clocked.run? Call.timestamp (Call.exec v)
      ⟨now, deployed v usdc owner feeRecipient lmOwner⟩ calls = some s)
    (hadm : ∀ c ∈ calls, c.admissible v = true) : Reachable v s := by
  rcases run_of_run? h hadm with ⟨labels, run, _⟩
  exact ⟨usdc, owner, feeRecipient, lmOwner, now, labels, run⟩

/-- A deployment: vault `1` and loan manager owned by `2`, fees to `3`, and the
whole token supply with the liquidity provider `4`. -/
def launch : Clocked World :=
  ⟨1000, deployed ⟨1⟩ (Token.single ⟨4⟩ 1000000000000 (by decide) (by decide)) ⟨2⟩ ⟨3⟩ ⟨2⟩⟩

/-- The provider deposits, and account `5` is scored, offered a seven-day loan at
five percent, and takes it. -/
def lendingCalls : List Call :=
  [.signedBy ⟨4⟩ 1000 (.vault (.deposit ⟨4⟩ 1000000000)),
    .signedBy ⟨2⟩ 1000 (.loanManager (.setUserRisk ⟨5⟩ 600 true 0 100000000)),
    .signedBy ⟨2⟩ 1000 (.loanManager (.setLoanOffer ⟨5⟩ 7 500 2000 100000000)),
    .signedBy ⟨5⟩ 1000 (.vault (.borrowWithTerm ⟨5⟩ 100000000 7 500))]

/-- The provider settles the loan at once, offering twice what is owed. -/
def payoff : Call := .signedBy ⟨4⟩ 2000 (.vault (.repayPartial ⟨4⟩ ⟨5⟩ 200000000))

def payoffCalls : List Call := lendingCalls ++ [payoff]

/-- The loan defaults and is partly written off. -/
def lossCalls : List Call :=
  lendingCalls ++
    [.signedBy ⟨2⟩ 1988201 (.loanManager (.markDefault ⟨5⟩)),
      .signedBy ⟨2⟩ 1988201 (.vault (.manualWriteOff ⟨5⟩ 60000000))]

end System

end Lendoor
