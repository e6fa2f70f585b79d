import Lendoor.Core.Service
import Lendoor.Cctp.Transfer
import Lendoor.Backend.Http

/-! # Identity verification

`start` and `status` requests against the users' rows. A request reads its user, awaits
the vendor and then updates by id, so requests overlap at every await, and the vendor
answers when it likes.
-/

namespace Lendoor.Backend

open Cctp (Text falsy)
open Async (call lift Trace Awaits Exchange)

namespace Kyc

/-- `none → pending → approved | rejected` -/
inductive KycStatus
  | none
  | pending
  | approved
  | rejected
  deriving DecidableEq, Repr

/-- The columns of a user that the service reads and writes. -/
structure User where
  id : Nat
  walletAddress : Text
  kycStatus : KycStatus
  kycSessionId : Option Text
  kycProvider : Option Text
  kycApprovedAt : Option Nat
  deriving DecidableEq

/-- The columns of an update. -/
structure Patch where
  kycStatus : KycStatus
  kycSessionId : Option (Option Text) := none
  kycProvider : Option Text := none
  kycApprovedAt : Option Nat := none
  deriving DecidableEq

def Patch.apply (p : Patch) (user : User) : User :=
  { user with
    kycStatus := p.kycStatus
    kycSessionId := p.kycSessionId.getD user.kycSessionId
    kycProvider := p.kycProvider.or user.kycProvider
    kycApprovedAt := p.kycApprovedAt.or user.kycApprovedAt }

structure KycSession where
  sessionId : Text
  verificationUrl : Text
  deriving DecidableEq

inductive KycDecision
  | pending
  | approved
  | rejected
  deriving DecidableEq, Repr

/-- What a request awaits. `newDate` is the server's clock. -/
inductive Ask
  | findOne (walletAddress : Text)
  | createSession (wallet : Text)
  | getDecision (sessionId : Text)
  | newDate
  | update (id : Nat) (patch : Patch)
  deriving DecidableEq

@[reducible] def Answer : Ask → Type
  | .findOne _ => Option User
  | .createSession _ => KycSession
  | .getDecision _ => KycDecision
  | .newDate => Nat
  | .update _ _ => Unit

abbrev Program := Async Ask Answer HttpError

abbrev Asked := Exchange Ask Answer HttpError

structure Result where
  status : KycStatus
  sessionId : Option Text := none
  verificationUrl : Option Text := none
  deriving DecidableEq

def userNotFound : HttpError :=
  ⟨.notFound, "User not found. Completá el registro antes de verificar tu identidad."⟩

def findUserOrThrow (walletAddress : Text) : Program User := do
  let wallet ← lift (normalizeWallet walletAddress)
  let found : Option User ← call (Ask.findOne wallet)
  match found with
  | none => .throw userNotFound
  | some user => pure user

/-- Begin a verification with the vendor `provider`, or take up the open one. -/
def start (provider : Text) (walletAddress : Text) : Program Result := do
  let user ← findUserOrThrow walletAddress
  if user.kycStatus = .approved then pure { status := .approved }
  else if user.kycStatus = .pending ∧ falsy user.kycSessionId = false then
    pure { status := .pending, sessionId := user.kycSessionId }
  else do
    let session : KycSession ← call (Ask.createSession user.walletAddress)
    let _ ← call (Ask.update user.id
      { kycStatus := .pending, kycSessionId := some (some session.sessionId),
        kycProvider := some provider })
    pure { status := .pending, sessionId := some session.sessionId,
           verificationUrl := some session.verificationUrl }

/-- The status, refreshed from the vendor while a session is open. -/
def status (walletAddress : Text) : Program Result := do
  let user ← findUserOrThrow walletAddress
  if user.kycStatus ≠ .pending ∨ falsy user.kycSessionId = true then
    pure { status := user.kycStatus }
  else do
    let decision : KycDecision ← call (Ask.getDecision (user.kycSessionId.getD []))
    match decision with
    | .approved => do
        let now : Nat ← call Ask.newDate
        let _ ← call (Ask.update user.id { kycStatus := .approved, kycApprovedAt := some now })
        pure { status := .approved }
    | .rejected => do
        let _ ← call (Ask.update user.id { kycStatus := .rejected, kycSessionId := some none })
        pure { status := .rejected }
    | .pending => pure { status := .pending }

/-! ## What a request updates -/

/-- A request has its user from a row it read. -/
theorem trace_findUserOrThrow {walletAddress : Text} {asked : List Asked} {user : User}
    (h : Trace (findUserOrThrow walletAddress) asked (.ok user)) :
    ∃ wallet, asked = [⟨.findOne wallet, .ok (some user)⟩] := by
  rcases Async.trace_lift_bind.mp h with ⟨_, _, _, hout⟩ | ⟨wallet, -, h⟩
  · cases hout
  · rcases Async.trace_call_bind.mp h with ⟨_, _, hout⟩ | ⟨found, rest, rfl, hfound⟩
    · cases hout
    · refine ⟨wallet, ?_⟩
      cases found with
      | none => cases (Async.trace_throw.mp hfound).2
      | some user' =>
          rcases Async.trace_pure.mp hfound with ⟨rfl, hout⟩
          cases hout
          rfl

theorem awaits_findUserOrThrow {walletAddress : Text} {asked : List Asked} {ask : Ask}
    (h : Awaits (findUserOrThrow walletAddress) asked ask) : ∃ wallet, ask = .findOne wallet := by
  rcases Async.awaits_lift_bind.mp h with ⟨wallet, -, h⟩
  rcases Async.awaits_call_bind.mp h with ⟨-, rfl⟩ | ⟨found, rest, -, hfound⟩
  · exact ⟨wallet, rfl⟩
  · cases found with
    | none => exact absurd hfound Async.not_awaits_throw
    | some user => exact absurd hfound Async.not_awaits_pure

/-- A pending status is written with its session. -/
def Patch.Paired (p : Patch) : Prop :=
  p.kycStatus = .pending → ∃ session, p.kycSessionId = some (some session)

theorem Patch.paired_of_ne {p : Patch} (h : p.kycStatus ≠ .pending) : p.Paired :=
  fun hpending => absurd hpending h

/-- An update goes to a user that was not approved when the request read it. -/
structure Updates (asked : List Asked) (id : Nat) (patch : Patch) : Prop where
  read : ∃ wallet user, ⟨.findOne wallet, .ok (some user)⟩ ∈ asked ∧ user.id = id ∧
    user.kycStatus ≠ .approved
  paired : patch.Paired

theorem start_updates {provider walletAddress : Text} {asked : List Asked}
    {id : Nat} {patch : Patch}
    (h : Awaits (start provider walletAddress) asked (.update id patch)) :
    Updates asked id patch := by
  rcases Async.awaits_bind.mp h with hfind | ⟨user, before, rest, rfl, hfind, hbody⟩
  · rcases awaits_findUserOrThrow hfind with ⟨wallet, hask⟩
    cases hask
  · rcases trace_findUserOrThrow hfind with ⟨wallet, rfl⟩
    split at hbody
    · exact absurd hbody Async.not_awaits_pure
    · rename_i hnew
      split at hbody
      · exact absurd hbody Async.not_awaits_pure
      · rcases Async.awaits_call_bind.mp hbody with ⟨-, hask⟩ | ⟨session, rest, rfl, hcreated⟩
        · cases hask
        · rcases Async.awaits_call_bind.mp hcreated with ⟨-, hask⟩ | ⟨_, rest, rfl, hupdated⟩
          · cases hask
            exact ⟨⟨wallet, user, by simp, rfl, hnew⟩, fun _ => ⟨_, rfl⟩⟩
          · exact absurd hupdated Async.not_awaits_pure

theorem status_updates {walletAddress : Text} {asked : List Asked} {id : Nat} {patch : Patch}
    (h : Awaits (status walletAddress) asked (.update id patch)) : Updates asked id patch := by
  rcases Async.awaits_bind.mp h with hfind | ⟨user, before, rest, rfl, hfind, hbody⟩
  · rcases awaits_findUserOrThrow hfind with ⟨wallet, hask⟩
    cases hask
  · rcases trace_findUserOrThrow hfind with ⟨wallet, rfl⟩
    split at hbody
    · exact absurd hbody Async.not_awaits_pure
    · rename_i hopen
      have hnew : user.kycStatus ≠ .approved := by
        intro happroved
        simp [happroved] at hopen
      rcases Async.awaits_call_bind.mp hbody with ⟨-, hask⟩ | ⟨decision, rest, rfl, hdecided⟩
      · cases hask
      · cases decision with
        | approved =>
            rcases Async.awaits_call_bind.mp hdecided with ⟨-, hask⟩ | ⟨now, rest, rfl, hnow⟩
            · cases hask
            · rcases Async.awaits_call_bind.mp hnow with ⟨-, hask⟩ | ⟨_, rest, rfl, hupdated⟩
              · cases hask
                exact ⟨⟨wallet, user, by simp, rfl, hnew⟩, Patch.paired_of_ne (by simp)⟩
              · exact absurd hupdated Async.not_awaits_pure
        | rejected =>
            rcases Async.awaits_call_bind.mp hdecided with ⟨-, hask⟩ | ⟨_, rest, rfl, hupdated⟩
            · cases hask
              exact ⟨⟨wallet, user, by simp, rfl, hnew⟩, Patch.paired_of_ne (by simp)⟩
            · exact absurd hupdated Async.not_awaits_pure
        | pending => exact absurd hdecided Async.not_awaits_pure

/-! ## Requests under way -/

inductive Request
  | start (walletAddress : Text)
  | status (walletAddress : Text)
  deriving DecidableEq

def Request.program (provider : Text) : Request → Program Result
  | .start walletAddress => Kyc.start provider walletAddress
  | .status walletAddress => Kyc.status walletAddress

/-- The `users` table, by wallet. -/
structure Users where
  byWallet : Text → Option User

/-- `update({ id }, patch)` -/
def Users.update (s : Users) (id : Nat) (patch : Patch) : Users :=
  ⟨fun w => (s.byWallet w).map fun user => if user.id = id then patch.apply user else user⟩

/-- A registration. -/
def Users.register (s : Users) (user : User) : Users :=
  ⟨Function.update s.byWallet user.walletAddress (some user)⟩

/-- What an exchange does to the table. A call that throws had no effect, or it did and
its answer was lost. The vendor answers anything. -/
inductive Responds : Users → Asked → Users → Prop
  | rejected (s : Users) (ask : Ask) (error : HttpError) : Responds s ⟨ask, .error error⟩ s
  | lost (s : Users) (id : Nat) (patch : Patch) (error : HttpError) :
      Responds s ⟨.update id patch, .error error⟩ (s.update id patch)
  | findOne (s : Users) (walletAddress : Text) :
      Responds s ⟨.findOne walletAddress, .ok (s.byWallet walletAddress)⟩ s
  | createSession (s : Users) (wallet : Text) (session : KycSession) :
      Responds s ⟨.createSession wallet, .ok session⟩ s
  | getDecision (s : Users) (sessionId : Text) (decision : KycDecision) :
      Responds s ⟨.getDecision sessionId, .ok decision⟩ s
  | newDate (s : Users) (now : Nat) : Responds s ⟨.newDate, .ok now⟩ s
  | update (s : Users) (id : Nat) (patch : Patch) :
      Responds s ⟨.update id patch, .ok ()⟩ (s.update id patch)

section Service

variable {ι : Type} [DecidableEq ι]

/-- Outside the service, users register. -/
def service (ι : Type) (provider : Text) : Service Users ι Request Ask Answer HttpError Result where
  program _ _ request := request.program provider
  respond _ := Responds
  settle s _ _ _ := s
  outside s s' := ∃ user, s.byWallet user.walletAddress = none ∧ user.kycStatus = .none ∧
    s' = s.register user

abbrev Pool (ι : Type) : Type := ThreadPool Users ι Request Ask Answer HttpError Result

abbrev Event (ι : Type) : Type := ThreadEvent ι Request Ask Answer HttpError Result

/-- Every pending user has a session. -/
def Sessions (s : Users) : Prop :=
  ∀ wallet user, s.byWallet wallet = some user → user.kycStatus = .pending →
    user.kycSessionId ≠ none

def Approved (s : Users) (wallet : Text) : Prop :=
  ∃ user, s.byWallet wallet = some user ∧ user.kycStatus = .approved

/-- The user that a request read unapproved has been approved since. -/
def Overtaken (s : Users) (job : Job Request Ask Answer HttpError Result) : Prop :=
  ∃ wallet user, ⟨.findOne wallet, .ok (some user)⟩ ∈ job.asked ∧ user.kycStatus ≠ .approved ∧
    ∃ wallet' user', s.byWallet wallet' = some user' ∧ user'.id = user.id ∧
      user'.kycStatus = .approved

/-- A request that was overtaken writes no status but `approved`. -/
def Timely (w : Pool ι) : Event ι → Prop
  | .exchange i ⟨.update _ patch, _⟩ =>
      patch.kycStatus ≠ .approved → ∀ job, w.jobs i = some job → ¬ Overtaken w.shared job
  | _ => True

/-- An exchange leaves the table alone, or it is the update of a request. -/
theorem Responds.cases {s s' : Users} {x : Asked} (h : Responds s x s') :
    s' = s ∨ ∃ id patch r, x = ⟨.update id patch, r⟩ ∧ s' = s.update id patch := by
  cases h with
  | lost id patch error => exact .inr ⟨id, patch, _, rfl, rfl⟩
  | update id patch => exact .inr ⟨id, patch, _, rfl, rfl⟩
  | rejected | findOne | createSession | getDecision | newDate => exact .inl rfl

theorem Request.updates {provider : Text} {request : Request} {asked : List Asked} {id : Nat}
    {patch : Patch} (h : Awaits (request.program provider) asked (.update id patch)) :
    Updates asked id patch := by
  cases request with
  | start walletAddress => exact start_updates h
  | status walletAddress => exact status_updates h

theorem Users.update_byWallet {s : Users} {id : Nat} {patch : Patch} {wallet : Text} {user : User}
    (h : (s.update id patch).byWallet wallet = some user) :
    ∃ user₀, s.byWallet wallet = some user₀ ∧
      user = if user₀.id = id then patch.apply user₀ else user₀ := by
  rcases Option.map_eq_some_iff.mp h with ⟨user₀, huser₀, rfl⟩
  exact ⟨user₀, huser₀, rfl⟩

theorem Sessions.update {s : Users} {id : Nat} {patch : Patch} (h : Sessions s)
    (hpaired : patch.Paired) : Sessions (s.update id patch) := by
  intro wallet user huser hpending
  rcases Users.update_byWallet huser with ⟨user₀, huser₀, rfl⟩
  split at hpending
  · rename_i hid
    rcases hpaired hpending with ⟨session, hsession⟩
    simp [hid, Patch.apply, hsession]
  · rename_i hid
    rw [if_neg hid]
    exact h wallet user₀ huser₀ hpending

theorem Sessions.register {s : Users} {user : User} (h : Sessions s)
    (hnew : user.kycStatus = .none) :
    Sessions (s.register user) := by
  intro wallet user' huser' hpending
  by_cases hwallet : wallet = user.walletAddress
  · subst hwallet
    simp only [Users.register, Function.update_self] at huser'
    cases huser'
    rw [hnew] at hpending
    cases hpending
  · simp only [Users.register, Function.update_of_ne hwallet] at huser'
    exact h wallet user' huser' hpending

/-- An update takes an approval away only from a row of its user, with another status. -/
theorem Approved.update {s : Users} {id : Nat} {patch : Patch} {wallet : Text}
    (h : Approved s wallet)
    (hkeeps : ∀ user, s.byWallet wallet = some user → user.id = id → user.kycStatus = .approved →
      patch.kycStatus = .approved) : Approved (s.update id patch) wallet := by
  rcases h with ⟨user, huser, happroved⟩
  refine ⟨if user.id = id then patch.apply user else user, by simp [Users.update, huser], ?_⟩
  split
  · rename_i hid
    exact hkeeps user huser hid happroved
  · exact happroved

theorem Approved.register {s : Users} {user : User} {wallet : Text} (h : Approved s wallet)
    (hfree : s.byWallet user.walletAddress = none) : Approved (s.register user) wallet := by
  rcases h with ⟨user', huser', happroved⟩
  have hne : wallet ≠ user.walletAddress := by
    rintro rfl
    rw [hfree] at huser'
    cases huser'
  exact ⟨user', by simp only [Users.register, Function.update_of_ne hne, huser'], happroved⟩

variable {provider : Text} {w w' : Pool ι} {event : Event ι}

/-- Every request under way runs what it was started with. -/
def Programmed (provider : Text) (w : Pool ι) : Prop :=
  ∀ i job, w.jobs i = some job → job.program = job.call.program provider

/-- What a step does to the table: nothing, the update a request is at, or a registration. -/
theorem step_cases (hstep : (service ι provider).Step w event w')
    (hprogrammed : Programmed provider w) :
    w'.shared = w.shared ∨
      (∃ i id patch r job, event = .exchange i ⟨.update id patch, r⟩ ∧ w.jobs i = some job ∧
        Updates job.asked id patch ∧ w'.shared = w.shared.update id patch) ∨
      ∃ user, w.shared.byWallet user.walletAddress = none ∧ user.kycStatus = .none ∧
        w'.shared = w.shared.register user := by
  cases hstep with
  | start hidle => exact .inl rfl
  | @exchange i job x s hjob hawaits hrespond =>
      rcases hrespond.cases with hsame | ⟨id, patch, r, rfl, hupdate⟩
      · exact .inl hsame
      · rw [hprogrammed i job hjob] at hawaits
        exact .inr (.inl ⟨i, id, patch, r, job, rfl, hjob, Request.updates hawaits, hupdate⟩)
  | settle hjob htrace => exact .inl rfl
  | outside houtside => exact .inr (.inr houtside)

theorem step_sessions (hstep : (service ι provider).Step w event w')
    (hprogrammed : Programmed provider w)
    (h : Sessions w.shared) : Sessions w'.shared := by
  rcases step_cases hstep hprogrammed with
    hsame | ⟨i, id, patch, r, job, -, -, hupdates, hupdate⟩ | ⟨user, -, hnew, hregister⟩
  · rwa [hsame]
  · rw [hupdate]
    exact h.update hupdates.paired
  · rw [hregister]
    exact h.register hnew

theorem step_approved (hstep : (service ι provider).Step w event w')
    (hprogrammed : Programmed provider w)
    (htimely : Timely w event) {wallet : Text} (h : Approved w.shared wallet) :
    Approved w'.shared wallet := by
  rcases step_cases hstep hprogrammed with
    hsame | ⟨i, id, patch, r, job, rfl, hjob, hupdates, hupdate⟩ | ⟨user, hfree, -, hregister⟩
  · rwa [hsame]
  · rw [hupdate]
    refine h.update fun user huser hid happroved => ?_
    rcases hupdates.read with ⟨wallet', user', hread, hid', hnew⟩
    by_contra hother
    exact htimely hother job hjob
      ⟨wallet', user', hread, hnew, wallet, user, huser, hid.trans hid'.symm, happroved⟩
  · rw [hregister]
    exact h.register hfree

/-! ## Runs -/

variable {w₀ : Pool ι} {past events : List (Event ι)}

theorem programmed_of_run (hidle : ∀ i, w₀.jobs i = none)
    (run : Run (service ι provider).Step w₀ events w) : Programmed provider w := by
  intro i job hjob
  rcases Service.run_program run hidle i job hjob with ⟨s, hprogram⟩
  exact hprogram

/-- A pending status always has its session, and an approval stays as long as no
overtaken request writes another status. -/
theorem approval_sticky (hidle : ∀ i, w₀.jobs i = none) (hsessions : Sessions w₀.shared)
    (before : Run (service ι provider).Step w₀ past w)
    (after : Run (service ι provider).Step w events w') :
    Sessions w'.shared ∧
      ((∀ k v event v', StepAt (service ι provider).Step w events k v event v' → Timely v event) →
        ∀ wallet, Approved w.shared wallet → Approved w'.shared wallet) := by
  constructor
  · have hrun := (before.append after).with_steps
      (Q := fun v _ _ => Programmed provider v) fun _ _ _ _ hat =>
      programmed_of_run hidle hat.before
    exact hrun.invariant (P := fun v => Sessions v.shared)
      (fun _ _ _ h hstep => step_sessions hstep.1 hstep.2 h) hsessions
  · intro htimely wallet happroved
    have hrun := after.with_steps (Q := fun v event _ => Programmed provider v ∧ Timely v event)
      fun k v event v' hat =>
        ⟨programmed_of_run hidle (before.append hat.before), htimely k v event v' hat⟩
    exact hrun.invariant (P := fun v => Approved v.shared wallet)
      (fun _ _ _ h hstep => step_approved hstep.1 hstep.2.1 hstep.2.2 h) happroved

end Service

/-! ## An approval that is lost -/

/-- The exchanges that nothing rejects, as a function. -/
def effect? (s : Users) : Asked → Option Users
  | ⟨.findOne walletAddress, .ok found⟩ => if found = s.byWallet walletAddress then some s else none
  | ⟨.update id patch, .ok _⟩ => some (s.update id patch)
  | ⟨_, .error _⟩ => none
  | ⟨_, .ok _⟩ => some s

theorem effect?_responds {s s' : Users} {x : Asked} (h : effect? s x = some s') :
    Responds s x s' := by
  rcases x with ⟨ask, r⟩
  cases r with
  | error error => cases ask <;> cases h
  | ok answer =>
      cases ask with
      | findOne walletAddress =>
          rcases Option.ite_none_right_eq_some.mp h with ⟨rfl, heq⟩
          cases heq
          exact .findOne s walletAddress
      | createSession wallet =>
          cases h
          exact .createSession s wallet answer
      | getDecision sessionId =>
          cases h
          exact .getDecision s sessionId answer
      | newDate =>
          cases h
          exact .newDate s answer
      | update id patch =>
          cases h
          exact .update s id patch

def sampleWallet : Text := "0x00000000000000000000000000000000000000aa".toList

def sampleUser : User := ⟨1, sampleWallet, .none, none, none, none⟩

def sampleSession (name : String) : KycSession := ⟨name.toList, name.toList⟩

def pendingPatch (name : String) : Patch :=
  { kycStatus := .pending, kycSessionId := some (some name.toList), kycProvider := some [] }

def approvedPatch : Patch := { kycStatus := .approved, kycApprovedAt := some 0 }

def samplePool : Pool Nat :=
  ⟨⟨fun w => if w = sampleWallet then some sampleUser else none⟩, fun _ => none⟩

/-- Two requests begin a verification; the session of the first is approved while the
second waits for the vendor. -/
def sampleApproval : List (Event Nat) :=
  [.start 0 (.start sampleWallet), .start 1 (.start sampleWallet),
   .exchange 0 ⟨.findOne sampleWallet, .ok (some sampleUser)⟩,
   .exchange 1 ⟨.findOne sampleWallet, .ok (some sampleUser)⟩,
   .exchange 0 ⟨.createSession sampleWallet, .ok (sampleSession "a")⟩,
   .exchange 0 ⟨.update 1 (pendingPatch "a"), .ok ()⟩,
   .start 2 (.status sampleWallet),
   .exchange 2 ⟨.findOne sampleWallet, .ok (some ((pendingPatch "a").apply sampleUser))⟩,
   .exchange 2 ⟨.getDecision "a".toList, .ok .approved⟩,
   .exchange 2 ⟨.newDate, .ok 0⟩,
   .exchange 2 ⟨.update 1 approvedPatch, .ok ()⟩]

/-- The vendor answers the second request, -/
def sampleAnswer : List (Event Nat) :=
  [.exchange 1 ⟨.createSession sampleWallet, .ok (sampleSession "b")⟩]

/-- which writes its own session. -/
def sampleOvertaken : List (Event Nat) := [.exchange 1 ⟨.update 1 (pendingPatch "b"), .ok ()⟩]

abbrev sampleStep : Pool Nat → Event Nat → Option (Pool Nat) :=
  (service Nat []).next? fun _ => effect?

def statusOf (w : Pool Nat) : Option KycStatus :=
  (w.shared.byWallet sampleWallet).map User.kycStatus

theorem sample_run {events : List (Event Nat)} {w w' : Pool Nat}
    (h : events.foldlM sampleStep w = some w') : Run (service Nat []).Step w events w' :=
  Run.of_foldlM (fun _ _ _ => Service.next?_step (fun _ _ _ _ => effect?_responds) _ _ _) h

theorem approved_iff_statusOf {w : Pool Nat} :
    Approved w.shared sampleWallet ↔ statusOf w = some .approved := by
  simp [Approved, statusOf]

theorem samplePool_sessions : Sessions samplePool.shared := by
  intro wallet user huser hpending
  rcases Option.ite_none_right_eq_some.mp huser with ⟨-, hsample⟩
  cases hsample
  cases hpending

/-- The runs of the sample, by the statuses they lead to. -/
theorem sample_runs :
    ∃ w u w', Run (service Nat []).Step samplePool sampleApproval w ∧
      Run (service Nat []).Step w sampleAnswer u ∧ Run (service Nat []).Step u sampleOvertaken w' ∧
      Approved w.shared sampleWallet ∧ statusOf w' = some .pending := by
  have happroved : (sampleApproval.foldlM sampleStep samplePool).map statusOf =
      some (some .approved) := by
    decide +kernel
  have hlost :
      ((sampleApproval ++ (sampleAnswer ++ sampleOvertaken)).foldlM sampleStep samplePool).map
      statusOf = some (some .pending) := by
    decide +kernel
  rcases Option.map_eq_some_iff.mp happroved with ⟨w, hw, hstatus⟩
  rcases Option.map_eq_some_iff.mp hlost with ⟨w', hw', hstatus'⟩
  rw [List.foldlM_append, hw] at hw'
  rcases Option.bind_eq_some_iff.mp ((List.foldlM_append ..).symm.trans hw') with ⟨u, hu, hw'⟩
  exact ⟨w, u, w', sample_run hw, sample_run hu, sample_run hw', approved_iff_statusOf.mpr hstatus,
    hstatus'⟩

theorem approval_sticky_sample :
    ∃ w u, Run (service Nat []).Step samplePool sampleApproval w ∧
      Run (service Nat []).Step w sampleAnswer u ∧ Sessions u.shared ∧
      Approved w.shared sampleWallet ∧ Approved u.shared sampleWallet := by
  rcases sample_runs with ⟨w, u, w', before, after, -, happroved, -⟩
  have h := approval_sticky (fun _ => rfl) samplePool_sessions before after
  refine ⟨w, u, before, after, h.1, happroved, h.2 (fun k v event v' hat => ?_) _ happroved⟩
  rcases List.mem_singleton.mp (List.mem_of_getElem? hat.found) with rfl
  trivial

/-- Without the condition an approval is lost: the second request takes it back. -/
theorem approval_lost :
    ¬ ∀ (w₀ w w' : Pool Nat) (past events : List (Event Nat)), (∀ i, w₀.jobs i = none) →
      Sessions w₀.shared → Run (service Nat []).Step w₀ past w →
      Run (service Nat []).Step w events w' → Approved w.shared sampleWallet →
      Approved w'.shared sampleWallet := by
  intro h
  rcases sample_runs with ⟨w, u, w', before, answered, overtaken, happroved, hlost⟩
  have hkept := h samplePool w w' _ _ (fun _ => rfl) samplePool_sessions before
    (answered.append overtaken) happroved
  rw [approved_iff_statusOf, hlost] at hkept
  cases hkept

end Kyc

end Lendoor.Backend
