import Lendoor.Backend.SessionGuesses

/-! # Guesses of an onboarding code

The comparisons of `verifyOtp` requests as guesses, beside all the requests that issue a
code or write the pending row again. With the session requests this bounds what can be
guessed while nobody comes between a comparison and its save.
-/

namespace Lendoor.Backend

open Cctp (Text falsy)
open Async (call caught lift Exchange Trace Awaits AsksOnly AsksAfter)
open Attempts (Hold Shown Guessing Shows Bounded)

namespace Onboarding

variable (sdk : OnboardingSdk) (wallet : Text)

abbrev OtpJob : Type := Job Request Ask Answer HttpError Outcome

abbrev OtpPool (ι : Type) : Type :=
  ThreadPool OnboardingState ι Request Ask Answer HttpError Outcome

abbrev OtpEvent (ι : Type) : Type := ThreadEvent ι Request Ask Answer HttpError Outcome

/-- Requests under way, while time goes by. -/
def service (ι : Type) : Service OnboardingState ι Request Ask Answer HttpError Outcome where
  program _ _ request := request.program sdk
  respond _ := Responds
  settle s _ _ _ := s
  outside s s' := ∃ ms, s' = { s with now := s.now + ms }

/-- The code is compared with the row and is not the one in it. -/
def rejects (row : NotVerifiedUser) (now : Nat) (code : Text) : Bool :=
  !falsy row.email && row.otpExpiresAt.any (now ≤ ·) && !falsy row.otpCode &&
    row.otpAttemptCount < 5 &&
    row.otpCode ≠ some (sdk.hashOtp (trim code))

/-- A request has compared a wrong code and not yet saved. -/
def holding (job : OtpJob) : Option Hold :=
  match job.call, job.asked with
  | .verifyOtp _ code _ _, [⟨.findPending w, .ok (some row)⟩, ⟨.newDate, .ok now⟩] =>
      if w = wallet ∧ rejects sdk row now code = true then some (.wrong (row.otpAttemptCount + 1))
      else none
  | _, _ => none

/-- The attempts in a row with a code. -/
def NotVerifiedUser.attempts (row : NotVerifiedUser) : Option Nat :=
  row.otpCode.map fun _ => row.otpAttemptCount

def live (s : OnboardingState) : Option Nat := (s.pending wallet).bind NotVerifiedUser.attempts

/-- The asks that write or delete the pending row of the wallet. -/
def Writes : Ask → Prop
  | .savePending w _ => w = wallet
  | .syncUser w _ => w = wallet
  | .createUser user => user.walletAddress = wallet
  | _ => False

/-- A request writes the row, or it compares. -/
def touches (job : OtpJob) (x : Asked) : Prop :=
  Writes wallet x.1 ∨ holding sdk wallet (Attempts.next job x) ≠ none

/-- The request has drawn a code, and its next save issues it. -/
def drew (asked : List Asked) : Bool :=
  match asked.getLast? with
  | some ⟨.randomInt, _⟩ => true
  | _ => false

/-- A request writes the row again, with another address or other times. -/
def Resaves (job : OtpJob) (x : Asked) : Prop :=
  (∃ row, x.1 = .savePending wallet row) ∧ drew job.asked = false ∧ holding sdk wallet job = none

/-- A request that compares, or writes the row again, has read the code and the attempts
that are stored. -/
def current (s : OnboardingState) (job : OtpJob) (x : Asked) : Prop :=
  holding sdk wallet (Attempts.next job x) ≠ none ∨ Resaves sdk wallet job x →
    ∀ row, ⟨.findPending wallet, .ok (some row)⟩ ∈ job.asked →
      ∃ stored, s.pending wallet = some stored ∧ stored.attempts = row.attempts

/-- A code is issued, or a wrong one is compared. -/
def shows (job : OtpJob) (x : Asked) : Option Shown :=
  match x with
  | ⟨.newDate, .ok _⟩ => if holding sdk wallet (Attempts.next job x) = none then
      none else some .wrong
  | ⟨.savePending w _, .ok _⟩ => if w = wallet ∧ drew job.asked = true then some .issued else none
  | _ => none

def guessing : Guessing OnboardingState Request Ask Answer HttpError Outcome where
  live := live wallet
  holding := holding sdk wallet
  touches := touches sdk wallet
  current := current sdk wallet
  shows := shows sdk wallet

/-! ## What the requests ask -/

/-- The asks that neither draw a code nor write the pending row. -/
def Reads : Ask → Prop
  | .randomInt => False
  | .savePending _ _ => False
  | .syncUser _ _ => False
  | .createUser _ => False
  | _ => True

/-- Of the requests that do not verify: a row is saved with a new code, or with the code
and the attempts of the row that was read. -/
def Rewrites (asked : List Asked) : Ask → Prop
  | .savePending wallet row =>
      if drew asked = true then row.attempts = some 0
      else row.otpCode = none ∨
        ∃ pending, ⟨.findPending wallet, .ok (some pending)⟩ ∈ asked ∧
        row.attempts = pending.attempts
  | .syncUser _ _ => False
  | .createUser _ => False
  | _ => True

variable {sdk wallet} {past asked : List Asked} {ask : Ask} {row : NotVerifiedUser}
  {now : Nat} {code : Text}

theorem drew_append (past : List Asked) (x : Asked) : drew (past ++ [x]) = drew [x] := by
  simp [drew]

theorem drew_reads (hlast : drew past = false) (hreads : ∀ x ∈ asked, Reads x.1) :
    drew (past ++ asked) = false := by
  induction asked using List.reverseRecOn with
  | nil => rwa [List.append_nil]
  | append_singleton asked x _ =>
      rw [← List.append_assoc, drew_append]
      have hx := hreads x (by simp)
      rcases x with ⟨ask, r⟩
      cases ask <;> first | rfl | exact absurd hx id

theorem Reads.rewrites (h : Reads ask) : Rewrites past ask := by
  cases ask <;> trivial

theorem reads_after {α : Type} {p : Program α} (hp : p.AsksOnly Reads) :
    p.AsksAfter Rewrites past :=
  hp.after fun _ _ h => h.rewrites

/-- A part that reads. -/
theorem reads_bind {α β : Type} {p : Program α} {f : α → Program β} (hp : p.AsksOnly Reads)
    (hlast : drew past = false)
    (hf : ∀ a asked, drew (past ++ asked) = false → (f a).AsksAfter Rewrites (past ++ asked)) :
    (p >>= f).AsksAfter Rewrites past :=
  AsksAfter.bind (reads_after hp) fun a asked htrace =>
    hf a asked (drew_reads hlast (hp.of_mem_trace htrace))

theorem getStep_reads (wallet : Text) (platform : Option Text) :
    (getStep wallet platform).AsksOnly Reads :=
  AsksOnly.bind (AsksOnly.call trivial) fun _ => trivial

theorem ensureEmailIsFree_reads (email wallet : Text) :
    (ensureEmailIsFreeForWallet email wallet).AsksOnly Reads := by
  unfold ensureEmailIsFreeForWallet
  split
  · trivial
  refine AsksOnly.bind (AsksOnly.call trivial) fun existing => ?_
  split
  · trivial
  · split <;> trivial

theorem updateEmail_reads (wallet email : Text) (platformNorm : Option Text) (user : Option User) :
    (updateEmail wallet email platformNorm user).AsksOnly Reads := by
  cases user with
  | none => trivial
  | some user => exact AsksOnly.call trivial

theorem orNow_reads (t : Option Nat) : (orNow t).AsksOnly Reads := by
  cases t with
  | none => exact AsksOnly.call trivial
  | some t => trivial

theorem joinTime_reads (early : Bool) (user : User) : (joinTime early user).AsksOnly Reads := by
  unfold joinTime
  split
  · exact AsksOnly.bind (AsksOnly.call trivial) fun _ => trivial
  · trivial

theorem joinUser_reads (wallet email : Text) (platformNorm : Option Text) (user : Option User) :
    (joinUser wallet email platformNorm user).AsksOnly Reads := by
  cases user with
  | none => trivial
  | some user =>
      exact AsksOnly.bind (AsksOnly.call trivial) fun early =>
        AsksOnly.bind (joinTime_reads early user) fun joined =>
        AsksOnly.bind (AsksOnly.call trivial) fun _ => trivial

theorem issueOtpForPending_rewrites (wallet : Text) (pending : NotVerifiedUser) :
    (issueOtpForPending sdk wallet pending).AsksAfter Rewrites past := by
  unfold issueOtpForPending
  split
  · trivial
  refine AsksAfter.call_bind trivial fun now => ?_
  split
  · trivial
  refine AsksAfter.call_bind trivial fun n => AsksAfter.call_bind ?_ fun _ => reads_after ?_
  · rw [Rewrites, drew_append]
    exact rfl
  · exact AsksOnly.bind (AsksOnly.caught trivial) fun _ => trivial

theorem register_rewrites (hlast : drew past = false)
    (hkeeps : row.otpCode = none ∨
      ∃ pending, ⟨.findPending wallet, .ok (some pending)⟩ ∈ past ∧
        row.attempts = pending.attempts) :
    (register sdk wallet row).AsksAfter Rewrites past := by
  refine AsksAfter.call_bind ?_ fun _ => issueOtpForPending_rewrites wallet row
  rw [Rewrites, hlast]
  exact hkeeps

/-- The row is written again with the code and the attempts that were found. -/
def Keeps (row : NotVerifiedUser) (found : Option NotVerifiedUser) : Prop :=
  row.otpCode = none ∨ ∃ pending, found = some pending ∧ row.attempts = pending.attempts

theorem readdress_keeps (found : Option NotVerifiedUser) (email : Text)
    (platformNorm : Option Text) :
    Keeps (readdress found email platformNorm) found := by
  cases found with
  | none => exact .inl rfl
  | some pending => exact .inr ⟨pending, rfl, rfl⟩

theorem Keeps.of_mem {found : Option NotVerifiedUser} (h : Keeps row found)
    (hmem : ⟨.findPending wallet, .ok found⟩ ∈ past) :
    row.otpCode = none ∨ ∃ pending, ⟨.findPending wallet, .ok (some pending)⟩ ∈ past ∧
      row.attempts = pending.attempts := by
  rcases h with h | ⟨pending, rfl, h⟩
  · exact .inl h
  · exact .inr ⟨pending, hmem, h⟩

theorem drew_nil : drew [] = false := rfl

theorem acceptTerms_rewrites (walletAddress : Text) (platform : Option Text) :
    (acceptTerms sdk walletAddress platform).AsksAfter Rewrites [] := by
  refine reads_bind (AsksOnly.lift _) drew_nil fun wallet _ _ =>
    AsksAfter.call_bind trivial fun now =>
    AsksAfter.call_bind trivial fun user => ?_
  cases user with
  | some user => exact AsksAfter.call_bind trivial fun _ => reads_after (getStep_reads wallet none)
  | none =>
      refine AsksAfter.call_bind trivial fun pending => AsksAfter.call_bind ?_ fun _ =>
        reads_after (getStep_reads wallet none)
      rw [Rewrites, drew_append]
      have hmem : ∀ asked : List Asked, ⟨.findPending wallet, .ok pending⟩ ∈ asked ++
          [⟨.findPending wallet, .ok pending⟩] :=
        fun _ => List.mem_append_right _ (List.mem_singleton_self _)
      cases pending with
      | none => exact .inl rfl
      | some pending => exact .inr ⟨pending, hmem _, rfl⟩

theorem verifyEmail_rewrites (walletAddress email : Text) (platform : Option Text) :
    (verifyEmail sdk walletAddress email platform).AsksAfter Rewrites [] := by
  refine reads_bind (AsksOnly.lift _) drew_nil fun wallet _ hlast => ?_
  refine reads_bind (ensureEmailIsFree_reads _ _) hlast fun _ _ _ =>
    AsksAfter.call_bind trivial fun user => ?_
  refine reads_bind (updateEmail_reads _ _ _ _) (drew_append _ _) fun _ _ _ => ?_
  refine AsksAfter.call_bind trivial fun pending => ?_
  refine AsksAfter.bind
    (register_rewrites (drew_append _ _) ((readdress_keeps pending _ _).of_mem (by simp))) ?_
  exact fun _ _ _ => reads_after (getStep_reads wallet none)

theorem joinWaitlist_rewrites (walletAddress email : Text) (platform : Option Text) :
    (joinWaitlist sdk walletAddress email platform).AsksAfter Rewrites [] := by
  refine reads_bind (AsksOnly.lift _) drew_nil fun wallet _ hlast => ?_
  refine reads_bind (ensureEmailIsFree_reads _ _) hlast fun _ _ _ =>
    AsksAfter.call_bind trivial fun user => ?_
  refine reads_bind (joinUser_reads _ _ _ _) (drew_append _ _) fun joinedAt _ _ => ?_
  refine AsksAfter.call_bind trivial fun pending => ?_
  refine reads_bind (orNow_reads _) (drew_append _ _) fun joined _ hlast => ?_
  have hkeeps :
      Keeps { readdress pending (normalizeEmail sdk email) (normalizePlatform sdk platform) with
      waitlistJoinedAt := some joined } pending := readdress_keeps pending _ _
  refine AsksAfter.bind (register_rewrites hlast (hkeeps.of_mem (by simp))) ?_
  exact fun _ _ _ => reads_after (getStep_reads wallet none)

theorem resendOtp_rewrites (walletAddress : Text) (email : Option Text) :
    (resendOtp sdk walletAddress email).AsksAfter Rewrites [] := by
  refine reads_bind (AsksOnly.lift _) drew_nil fun wallet _ _ =>
    AsksAfter.call_bind trivial fun existing => ?_
  cases existing with
  | some user => exact reads_after (getStep_reads wallet none)
  | none =>
      refine AsksAfter.call_bind trivial fun pending => AsksAfter.bind ?_ fun found _ _ => ?_
      · unfold resendTo
        split
        · trivial
        refine reads_bind (ensureEmailIsFree_reads _ _) (drew_append _ _) fun _ _ hlast =>
          AsksAfter.call_bind ?_ fun _ => trivial
        rw [Rewrites, hlast]
        exact (readdress_keeps pending _ _).of_mem (by simp)
      · split
        · trivial
        · exact AsksAfter.bind (issueOtpForPending_rewrites wallet _) fun _ _ _ => trivial

/-! ## What a verification asks -/

/-- The asks that do not write the row again. -/
def Finishes : Ask → Prop
  | .savePending _ _ => False
  | _ => True

theorem Reads.finishes (h : Reads ask) : Finishes ask := by
  cases ask <;> trivial

theorem verified_finishes (wallet : Text) (pending : NotVerifiedUser) (workType : Text)
    (requestPlatform : Option Text) :
    (verified sdk wallet pending workType requestPlatform).AsksOnly Finishes := by
  refine AsksOnly.bind ((ensureEmailIsFree_reads _ _).mono fun _ h => h.finishes) fun _ =>
    AsksOnly.bind (AsksOnly.call trivial) fun existing => ?_
  cases existing with
  | some user =>
      exact AsksOnly.bind (AsksOnly.call trivial) fun _ =>
        (getStep_reads _ _).mono fun _ h => h.finishes
  | none =>
      refine AsksOnly.bind (AsksOnly.call trivial) fun currentUsers =>
        AsksOnly.bind ?_ fun joined =>
        AsksOnly.bind (AsksOnly.call trivial) fun _ =>
          AsksOnly.bind (AsksOnly.caught trivial) fun _ =>
          (getStep_reads _ _).mono fun _ h => h.finishes
      unfold newUserJoined
      split
      · trivial
      · exact AsksOnly.bind ((orNow_reads _).mono fun _ h => h.finishes) fun _ => trivial

/-- Where a verification stands. -/
inductive VerifyAt (sdk : OnboardingSdk) (wallet code : Text) : List Asked → Ask → Prop
  | find : VerifyAt sdk wallet code [] (.findPending wallet)
  | missing {found : Option NotVerifiedUser} {asked : List Asked} {ask : Ask} :
      (∀ row, found = some row → falsy row.email = true) → Finishes ask →
      VerifyAt sdk wallet code (⟨.findPending wallet, .ok found⟩ :: asked) ask
  | clock (row : NotVerifiedUser) : VerifyAt sdk wallet code [⟨.findPending wallet, .ok (some row)⟩]
      .newDate
  | wrong {row : NotVerifiedUser} {now : Nat} : rejects sdk row now code = true →
      VerifyAt sdk wallet code [⟨.findPending wallet, .ok (some row)⟩, ⟨.newDate, .ok now⟩]
        (.savePending wallet { row with otpAttemptCount := row.otpAttemptCount + 1 })
  | right {row : NotVerifiedUser} {now : Nat} {asked : List Asked} {ask : Ask} :
      rejects sdk row now code = false →
      Finishes ask → VerifyAt sdk wallet code
        (⟨.findPending wallet, .ok (some row)⟩ :: ⟨.newDate, .ok now⟩ :: asked) ask

theorem verifyOtp_awaits {walletAddress workType : Text} {platform : Option Text}
    (h : Awaits (verifyOtp sdk walletAddress code workType platform) asked ask) :
    ∃ wallet, VerifyAt sdk wallet code asked ask := by
  rcases Async.awaits_lift_bind.mp h with ⟨wallet, -, h⟩
  refine ⟨wallet, ?_⟩
  dsimp only at h
  split at h
  · exact absurd h Async.not_awaits_throw
  split at h
  · exact absurd h Async.not_awaits_throw
  rcases Async.awaits_call_bind.mp h with ⟨rfl, rfl⟩ | ⟨found, rest, rfl, hfound⟩
  · exact .find
  split at hfound
  · rename_i hmissing
    refine .missing (fun row hrow => ?_) ?_
    · rw [hrow, Option.filter_some] at hmissing
      by_contra hemail
      simp [hemail] at hmissing
    · refine AsksOnly.awaits (P := Finishes) ?_ hfound
      refine AsksOnly.bind (AsksOnly.call trivial) fun existing => ?_
      cases existing with
      | none => trivial
      | some user =>
          exact AsksOnly.bind (AsksOnly.call trivial) fun _ =>
            (getStep_reads _ _).mono fun _ h => h.finishes
  rename_i row hpending
  rcases Option.filter_eq_some_iff.mp hpending with ⟨rfl, hemail⟩
  split at hfound
  · exact absurd hfound Async.not_awaits_throw
  rename_i expiresAt hexpires
  split at hfound
  · exact absurd hfound Async.not_awaits_throw
  rename_i hcode
  rcases Async.awaits_call_bind.mp hfound with ⟨rfl, rfl⟩ | ⟨now, rest, rfl, hnow⟩
  · exact .clock row
  split at hnow
  · exact absurd hnow Async.not_awaits_throw
  rename_i hlive
  split at hnow
  · exact absurd hnow Async.not_awaits_throw
  rename_i hattempts
  have hrejects : rejects sdk row now code =
      decide (row.otpCode ≠ some (sdk.hashOtp (trim code))) := by
    simp [rejects, hexpires, hcode, hemail, Nat.not_lt.mp hlive, Nat.not_le.mp hattempts]
  split at hnow
  · rename_i hwrong
    rcases Async.awaits_call_bind.mp hnow with ⟨rfl, rfl⟩ | ⟨_, rest, rfl, hthrow⟩
    · exact .wrong (hrejects.trans (decide_eq_true hwrong))
    · exact absurd hthrow Async.not_awaits_throw
  · rename_i hright
    exact .right (hrejects.trans (decide_eq_false hright)) ((verified_finishes _ _ _ _).awaits hnow)

/-- A verification that ends after its clock had no wrong code. -/
theorem verifyOtp_trace {walletAddress workType : Text} {platform : Option Text} {w : Text}
    {out : Except HttpError Outcome} (h : Trace (verifyOtp sdk walletAddress code workType platform)
      [⟨.findPending w, .ok (some row)⟩, ⟨.newDate, .ok now⟩] out) :
      rejects sdk row now code = false := by
  rcases Async.trace_lift_bind.mp h with ⟨_, -, hnil, -⟩ | ⟨wallet, -, h⟩
  · cases hnil
  dsimp only at h
  split at h
  · cases (Async.trace_throw.mp h).1
  split at h
  · cases (Async.trace_throw.mp h).1
  rcases Async.trace_call_bind.mp h with ⟨_, hone, _⟩ | ⟨found, rest, hasked, hfound⟩
  · cases hone
  cases hasked
  split at hfound
  · rename_i hmissing
    have hemail : falsy row.email = true := by
      rw [Option.filter_some] at hmissing
      by_contra hemail
      simp [hemail] at hmissing
    simp [rejects, hemail]
  rename_i pending hpending
  rcases Option.filter_eq_some_iff.mp hpending with ⟨heq, hemail⟩
  cases heq
  split at hfound
  · rename_i hexpires
    simp [rejects, hexpires]
  rename_i expiresAt hexpires
  split at hfound
  · rename_i hcode
    simp [rejects, hcode]
  rcases Async.trace_call_bind.mp hfound with ⟨_, hone, _⟩ | ⟨now', rest, hasked, hnow⟩
  · cases hone
  cases hasked
  split at hnow
  · rename_i hlate
    simp [rejects, hexpires, hlate]
  split at hnow
  · rename_i hattempts
    simp [rejects, Nat.not_lt.mpr hattempts]
  split at hnow
  · rcases Async.trace_call_bind.mp hnow with ⟨_, hone, _⟩ | ⟨_, rest, hasked, _⟩ <;> contradiction
  · rename_i hright
    simp [rejects, not_not.mp hright]

/-! ## The exchanges as guesses -/

variable {s s' : OnboardingState} {job : OtpJob} {x : Asked}

theorem holding_eq_none (h : ∀ walletAddress code workType platform row now,
    job.call = .verifyOtp walletAddress code workType platform →
    job.asked = [⟨.findPending wallet, .ok (some row)⟩, ⟨.newDate, .ok now⟩] →
      rejects sdk row now code = false) :
    (guessing sdk wallet).holding job = none := by
  change holding sdk wallet job = none
  unfold holding
  split
  · rename_i walletAddress code workType platform w row now hcall hasked
    refine if_neg ?_
    rintro ⟨rfl, hrejects⟩
    rw [h walletAddress code workType platform row now hcall hasked] at hrejects
    cases hrejects
  · rfl

theorem holding_of_length (h : job.asked.length ≠ 2) :
    (guessing sdk wallet).holding job = none := by
  refine holding_eq_none fun _ _ _ _ row now _ hasked => ?_
  rw [hasked] at h
  exact absurd rfl h

/-- Only a verification holds an attempt. -/
theorem holding_of_call (h : ∀ walletAddress code workType platform,
    job.call ≠ .verifyOtp walletAddress code workType platform) :
    (guessing sdk wallet).holding job = none :=
  holding_eq_none fun walletAddress code workType platform _ _ hcall _ =>
    absurd hcall (h walletAddress code workType platform)

theorem live_save :
    live wallet { s with pending := Function.update s.pending wallet (some row) } =
      row.attempts := by
  simp only [live, Function.update_self, Option.bind_some]

theorem live_delete (users : List User) :
    live wallet { s with users := users, pending := Function.update s.pending wallet none } =
      none := by
  simp only [live, Function.update_self, Option.bind_none]

theorem live_update_other {w : Text} (h : w ≠ wallet) (users : List User)
    (found : Option NotVerifiedUser) :
    live wallet { s with users := users, pending := Function.update s.pending w found } =
      live wallet s := by
  simp only [live, Function.update_of_ne (Ne.symm h)]

/-- An exchange of a request that neither compares nor saves. -/
theorem finishes_act (hbefore : (guessing sdk wallet).holding job = none)
    (hafter : (guessing sdk wallet).holding (Attempts.next job x) = none)
    (hresponds : Responds s x s')
    (hfinishes : Finishes x.1) :
    (guessing sdk wallet).Act 5 s job x s' (shows sdk wallet job x) := by
  have hshown : shows sdk wallet job x = none := by
    unfold shows
    split
    · exact if_pos hafter
    · exact hfinishes.elim
    · rfl
  rw [hshown]
  rcases x with ⟨ask, error | answer⟩
  · exact .quiet hbefore hafter (congrArg (live wallet) hresponds.2)
  -- a transaction that deletes the row of the wallet ends the code
  have hdeletes : ∀ w users,
      s' = { s with users := users, pending := Function.update s.pending w none } →
      (w = wallet → Writes wallet ask) →
      (guessing sdk wallet).Act 5 s job ⟨ask, .ok answer⟩ s' none := by
    rintro w users rfl hwrites
    by_cases hw : w = wallet
    · refine .clear (.inl (hwrites hw)) hbefore hafter ?_
      rw [hw]
      exact live_delete users
    · exact .quiet hbefore hafter (live_update_other hw users none)
  cases ask with
  | savePending w row => exact hfinishes.elim
  | syncUser w patch => exact hdeletes w _ hresponds.2 id
  | createUser user => exact hdeletes user.walletAddress _ hresponds.2 id
  | updateUser | newDate | randomInt | findUser | findByEmail | findPending | countUsers
  | isEarlyUser | sendMail | linkAnalytics | getStepByWallet =>
      have hsame : live wallet s' = live wallet s := by
        rw [hresponds.2]
        rfl
      exact .quiet hbefore hafter hsame

/-- A save that issues a code or writes the row again. -/
theorem rewrites_act {w : Text} {r : Except HttpError Unit}
    (hbefore : (guessing sdk wallet).holding job = none)
    (hafter : (guessing sdk wallet).holding (Attempts.next job ⟨.savePending w row, r⟩) = none)
    (hrewrites : Rewrites job.asked (.savePending w row))
    (hresponds : Responds s ⟨.savePending w row, r⟩ s')
    (hcurrent : current sdk wallet s job ⟨.savePending w row, r⟩) :
    (guessing sdk wallet).Act 5 s job ⟨.savePending w row, r⟩ s'
      (shows sdk wallet job ⟨.savePending w row, r⟩) := by
  cases r with
  | error error => exact .quiet hbefore hafter (congrArg (live wallet) hresponds.2)
  | ok answer =>
      have hstate : s' = { s with pending := Function.update s.pending w (some row) } := hresponds.2
      change (guessing sdk wallet).Act 5 s job _ s' (if w = wallet ∧ drew job.asked = true then
        some .issued else none)
      rw [Rewrites] at hrewrites
      by_cases hw : w = wallet
      · subst hw
        have hlive : live w s' = row.attempts := by
          rw [hstate]
          exact live_save
        by_cases hdrew : drew job.asked = true
        · rw [if_pos hdrew] at hrewrites
          rw [if_pos ⟨rfl, hdrew⟩]
          exact .issue (.inl rfl) hbefore hafter (hlive.trans hrewrites)
        · rw [if_neg hdrew] at hrewrites
          rw [if_neg fun h => hdrew h.2]
          rcases hrewrites with hnone | ⟨pending, hread, hkept⟩
          · refine .clear (.inl rfl) hbefore hafter (hlive.trans ?_)
            rw [NotVerifiedUser.attempts, hnone]
            rfl
          · rcases hcurrent (.inr ⟨⟨row, rfl⟩, Bool.not_eq_true _ ▸ hdrew, hbefore⟩) pending hread
              with
              ⟨stored, hstored, hsame⟩
            refine .quiet hbefore hafter (hlive.trans ?_)
            change _ = live w s
            rw [live, hstored, Option.bind_some, hsame, hkept]
      · rw [if_neg fun h => hw h.1]
        refine .quiet hbefore hafter ?_
        rw [hstate]
        exact live_update_other hw s.users (some row)

/-- Any request but a verification. -/
theorem rewriter_act {p : Program Outcome} (hcall : ∀ walletAddress code workType platform,
    job.call ≠ .verifyOtp walletAddress code workType platform) (hp : p.AsksAfter Rewrites [])
    (hawaits : Awaits p job.asked x.1) (hresponds : Responds s x s')
    (hcurrent : current sdk wallet s job x) :
    (guessing sdk wallet).Act 5 s job x s' (shows sdk wallet job x) := by
  have hbefore : (guessing sdk wallet).holding job = none := holding_of_call hcall
  have hafter : (guessing sdk wallet).holding (Attempts.next job x) = none := holding_of_call hcall
  have hrewrites : Rewrites job.asked x.1 := hp.awaits hawaits
  rcases x with ⟨ask, r⟩
  cases ask with
  | savePending w row => exact rewrites_act hbefore hafter hrewrites hresponds hcurrent
  | syncUser | createUser => exact hrewrites.elim
  | updateUser | newDate | randomInt | findUser | findByEmail | findPending | countUsers
  | isEarlyUser | sendMail | linkAnalytics | getStepByWallet =>
      exact finishes_act hbefore hafter hresponds trivial

section Verify

variable {walletAddress workType w : Text} {platform : Option Text}

/-- A verification between its clock and its save holds what it compared. -/
theorem holding_compared (hcall : job.call = .verifyOtp walletAddress code workType platform)
    (hasked : job.asked = [⟨.findPending w, .ok (some row)⟩, ⟨.newDate, .ok now⟩]) :
    (guessing sdk wallet).holding job =
      if w = wallet ∧ rejects sdk row now code = true then some (.wrong (row.otpAttemptCount + 1))
      else none := by
  change holding sdk wallet job = _
  unfold holding
  rw [hcall, hasked]

theorem rejects_attempts (h : rejects sdk row now code = true) :
    row.attempts = some row.otpAttemptCount ∧ row.otpAttemptCount < 5 := by
  simp only [rejects, Bool.and_eq_true, Bool.not_eq_true', decide_eq_true_eq] at h
  refine ⟨?_, h.1.2⟩
  cases hcode : row.otpCode with
  | none =>
      rw [hcode] at h
      cases h.1.1.2
  | some digest =>
      rw [NotVerifiedUser.attempts, hcode]
      rfl

/-- The comparison of a code. -/
theorem compare_act (hcall : job.call = .verifyOtp walletAddress code workType platform)
    (hasked : job.asked = [⟨.findPending w, .ok (some row)⟩])
    (hresponds : Responds s ⟨.newDate, .ok now⟩ s')
    (hcurrent : current sdk wallet s job ⟨.newDate, .ok now⟩) :
    (guessing sdk wallet).Act 5 s job ⟨.newDate, .ok now⟩ s'
      (shows sdk wallet job ⟨.newDate, .ok now⟩) := by
  have hlive : live wallet s' = live wallet s := congrArg (live wallet) hresponds.2
  have hbefore : (guessing sdk wallet).holding job = none := holding_of_length (by simp [hasked])
  have hafter : holding sdk wallet (Attempts.next job ⟨.newDate, .ok now⟩) = _ :=
    holding_compared hcall (by rw [Attempts.next, hasked]; rfl)
  change (guessing sdk wallet).Act 5 s job _ s'
    (if holding sdk wallet (Attempts.next job ⟨.newDate, .ok now⟩) = none then
      none else some .wrong)
  by_cases hwrong : w = wallet ∧ rejects sdk row now code = true
  · rw [if_pos hwrong] at hafter
    have hholds : holding sdk wallet (Attempts.next job ⟨.newDate, .ok now⟩) ≠ none := by
      rw [hafter]
      simp
    rcases hcurrent (.inl hholds) row (by rw [hasked, hwrong.1]; exact List.mem_singleton_self _)
      with
      ⟨stored, hstored, hsame⟩
    rcases rejects_attempts hwrong.2 with ⟨hattempts, hlimit⟩
    have hrow : live wallet s = some row.otpAttemptCount := by
      rw [live, hstored, Option.bind_some, hsame, hattempts]
    rw [if_neg hholds]
    exact .wrong (.inr hholds) hbefore hafter hrow hlimit hlive
  · rw [if_neg hwrong] at hafter
    rw [if_pos hafter]
    exact .quiet hbefore hafter hlive

/-- The save after a wrong code. -/
theorem wrong_act {r : Except HttpError Unit}
    (hcall : job.call = .verifyOtp walletAddress code workType platform)
    (hasked : job.asked = [⟨.findPending w, .ok (some row)⟩, ⟨.newDate, .ok now⟩])
    (hrejects : rejects sdk row now code = true)
    (hresponds : Responds s ⟨.savePending w { row with otpAttemptCount := row.otpAttemptCount + 1 },
      r⟩ s')
    (hcounted : ∀ n, holding sdk wallet job = some (.wrong n) → ∃ answer, r = .ok answer) :
    (guessing sdk wallet).Act 5 s job
      ⟨.savePending w { row with otpAttemptCount := row.otpAttemptCount + 1 }, r⟩ s'
      (shows sdk wallet job ⟨.savePending w { row with otpAttemptCount := row.otpAttemptCount + 1 },
        r⟩) := by
  have hafter : (guessing sdk wallet).holding (Attempts.next job
      ⟨.savePending w { row with otpAttemptCount := row.otpAttemptCount + 1 }, r⟩) = none :=
    holding_of_length (by simp [Attempts.next, hasked])
  have hshown : shows sdk wallet job
      ⟨.savePending w { row with otpAttemptCount := row.otpAttemptCount + 1 }, r⟩ = none := by
    cases r with
    | error error => rfl
    | ok answer =>
        refine if_neg ?_
        rintro ⟨-, hdrew⟩
        rw [hasked] at hdrew
        cases hdrew
  rw [hshown]
  have hhold : (guessing sdk wallet).holding job = _ := holding_compared hcall hasked
  by_cases hw : w = wallet
  · subst hw
    rw [if_pos ⟨rfl, hrejects⟩] at hhold
    rcases hcounted _ hhold with ⟨answer, rfl⟩
    refine .count hhold hafter ?_
    have hcode := (rejects_attempts hrejects).1
    rw [NotVerifiedUser.attempts, Option.map_eq_some_iff] at hcode
    rcases hcode with ⟨digest, hdigest, -⟩
    change live w s' = _
    rw [hresponds.2]
    refine live_save.trans ?_
    rw [NotVerifiedUser.attempts, hdigest]
    rfl
  · rw [if_neg fun h => hw h.1] at hhold
    refine .quiet hhold hafter ?_
    cases r with
    | error error => exact congrArg (live wallet) hresponds.2
    | ok answer =>
        change live wallet s' = _
        rw [hresponds.2]
        exact live_update_other hw s.users _

theorem verifyOtp_act (hcall : job.call = .verifyOtp walletAddress code workType platform)
    (hawaits : Awaits (verifyOtp sdk walletAddress code workType platform) job.asked x.1)
    (hresponds : Responds s x s')
    (hcurrent : current sdk wallet s job x)
    (hcounted : ∀ n, holding sdk wallet job = some (.wrong n) → ∃ answer, x.2 = .ok answer) :
    (guessing sdk wallet).Act 5 s job x s' (shows sdk wallet job x) := by
  rcases verifyOtp_awaits hawaits with ⟨w, hat⟩
  generalize hasked : job.asked = asked at hat
  rcases x with ⟨ask, r⟩
  -- nothing is held where the row that was read does not turn the code down
  have hfree : ∀ job' : OtpJob, job'.call = job.call → (∀ row now rest,
      job'.asked = ⟨.findPending wallet, .ok (some row)⟩ :: ⟨.newDate, .ok now⟩ :: rest →
        rejects sdk row now code = false) → (guessing sdk wallet).holding job' = none := by
    intro job' hsame h
    refine holding_eq_none fun _ code' _ _ row now hcall' hasked' => ?_
    rw [hsame, hcall] at hcall'
    cases hcall'
    exact h row now [] hasked'
  cases hat with
  | find =>
      exact finishes_act (holding_of_length (by simp [hasked]))
        (holding_of_length (by simp [Attempts.next, hasked]))
        hresponds trivial
  | @missing found rest _ hemail hfinishes =>
      have hrow : ∀ row now (rest' more : List Asked),
          ⟨.findPending w, .ok found⟩ :: rest' = ⟨.findPending wallet, .ok (some row)⟩ ::
          ⟨.newDate, .ok now⟩ :: more →
            rejects sdk row now code = false := by
        rintro row now rest' more ⟨⟩
        simp [rejects, hemail row rfl]
      refine finishes_act (hfree _ rfl fun row now more h => ?_)
        (hfree _ rfl fun row now more h => ?_) hresponds hfinishes
      · exact hrow row now rest more (hasked.symm.trans h)
      · rw [Attempts.next, hasked] at h
        exact hrow row now _ more h
  | clock row =>
      cases r with
      | error error => cases hresponds.1
      | ok now => exact compare_act hcall hasked hresponds hcurrent
  | wrong hrejects => exact wrong_act hcall hasked hrejects hresponds hcounted
  | @right row now rest _ hrejects hfinishes =>
      refine finishes_act (hfree _ rfl fun row now more h => ?_)
        (hfree _ rfl fun row now more h => ?_) hresponds hfinishes
      · rw [hasked] at h
        cases h
        exact hrejects
      · rw [Attempts.next, hasked] at h
        cases h
        exact hrejects

end Verify

/-- The requests guess, and their counts go through the pending row. -/
theorem guarded (sdk : OnboardingSdk) (wallet : Text) (ι : Type) :
    (guessing sdk wallet).Guarded (service sdk ι) 5 where
  start s i request := holding_of_length (by simp)
  exchange s i job x s' hprogram hawaits hresponds hcurrent hcounted := by
    rcases hprogram with ⟨_, hprogram⟩
    rw [hprogram] at hawaits
    cases hcall : job.call with
    | verifyOtp walletAddress code workType platform =>
        rw [hcall] at hawaits
        exact verifyOtp_act hcall hawaits hresponds hcurrent hcounted
    | acceptTerms walletAddress platform =>
        rw [hcall] at hawaits
        exact rewriter_act (by simp [hcall]) (acceptTerms_rewrites _ _) hawaits hresponds hcurrent
    | verifyEmail walletAddress email platform =>
        rw [hcall] at hawaits
        exact rewriter_act (by simp [hcall]) (verifyEmail_rewrites _ _ _) hawaits hresponds hcurrent
    | joinWaitlist walletAddress email platform =>
        rw [hcall] at hawaits
        exact rewriter_act (by simp [hcall]) (joinWaitlist_rewrites _ _ _)
          hawaits hresponds hcurrent
    | resendOtp walletAddress email =>
        rw [hcall] at hawaits
        exact rewriter_act (by simp [hcall]) (resendOtp_rewrites _ _) hawaits hresponds hcurrent
  settle s i job out hprogram htrace := by
    rcases hprogram with ⟨_, hprogram⟩
    refine ⟨holding_eq_none fun _ _ _ _ row now hcall hasked => ?_, rfl⟩
    rw [hprogram, hcall, hasked] at htrace
    exact verifyOtp_trace htrace
  outside s s' houtside := by
    rcases houtside with ⟨ms, rfl⟩
    rfl

end Onboarding

end Lendoor.Backend
