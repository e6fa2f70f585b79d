import Lendoor.Backend.WalletLink

/-! # Guesses of a session code

The comparisons of `session` requests as guesses: the row of the email counts the wrong
ones, and a right one uses the code up.
-/

namespace Lendoor.Backend

open Cctp (Text falsy)
open Async (call lift Exchange Trace Awaits AsksOnly)
open Attempts (Hold Shown Guessing)

namespace WalletLink

open Onboarding (OnboardingSdk normalizeEmail)

variable (sdk : OnboardingSdk) (email : Text)

/-- What the comparison of a code with a row comes to, if there is one. -/
def verdict (row : WalletLinkSession) (now : Nat) (code : Text) : Option Hold :=
  if falsy row.otpCodeHash = true ∨ row.userId = none ∨ row.otpExpiresAt.all (· < now) = true ∨
      otpMaxAttempts ≤ row.otpAttemptCount then none
  else if row.otpCodeHash ≠ some (sdk.hashOtp (trim code)) then
    some (.wrong (row.otpAttemptCount + 1))
  else some .right

/-- A request has compared and not yet saved. -/
def holding (job : LinkJob) : Option Hold :=
  match job.call, job.asked with
  | .session emailRaw code _, [⟨.findSession _, .ok (some row)⟩, ⟨.newDate, .ok now⟩] =>
      if normalizeEmail sdk emailRaw = email then verdict sdk row now code else none
  | _, _ => none

/-- The attempts in the row while it has a code. -/
def live (s : LinkState) : Option Nat :=
  (s.sessions email).bind fun row => row.otpCodeHash.map fun _ => row.otpAttemptCount

/-- A request issues a code for the email, or it compares. -/
def touches (job : LinkJob) (x : Asked) : Prop :=
  (∃ emailRaw row, job.call = .start emailRaw ∧
    (x.1 = .insertSession email row ∨ x.1 = .saveSession email row)) ∨
    holding sdk email (Attempts.next job x) ≠ none

/-- A request that compares has read the code and the attempts that are stored. -/
def current (s : LinkState) (job : LinkJob) (x : Asked) : Prop :=
  holding sdk email (Attempts.next job x) ≠ none → ∀ row, ⟨.findSession email, .ok (some row)⟩ ∈
    job.asked → ∃ stored, s.sessions email = some stored ∧
    stored.otpCodeHash = row.otpCodeHash ∧ stored.otpAttemptCount = row.otpAttemptCount

/-- A code is issued, a wrong code is compared, or a token is saved. -/
def shows (job : LinkJob) (x : Asked) : Option Shown :=
  match job.call, x with
  | .start _, ⟨.insertSession e _, .ok _⟩ => if e = email then some .issued else none
  | .start _, ⟨.saveSession e _, .ok _⟩ => if e = email then some .issued else none
  | .session _ _ _, ⟨.newDate, .ok _⟩ =>
      match holding sdk email (Attempts.next job x) with
      | some (.wrong _) => some .wrong
      | _ => none
  | .session _ _ _, ⟨.saveSession e row, .ok _⟩ =>
      if e = email ∧ row.otpCodeHash = none then some .granted else none
  | _, _ => none

def guessing : Guessing LinkState Request Ask Answer HttpError Outcome where
  live := live email
  holding := holding sdk email
  touches := touches sdk email
  current := current sdk email
  shows := shows sdk email

/-! ## What the requests ask -/

variable {sdk email} {emailRaw code token : Text} {asked : List Asked} {ask : Ask}
  {row : WalletLinkSession} {now : Nat}

/-- Where a request for a session stands. -/
inductive SessionAt (sdk : OnboardingSdk) (email code token : Text) : List Asked → Ask → Prop
  | find : SessionAt sdk email code token [] (.findSession email)
  | clock (row : WalletLinkSession) :
      SessionAt sdk email code token [⟨.findSession email, .ok (some row)⟩] .newDate
  | wrong {row : WalletLinkSession} {now : Nat} : verdict sdk row now code =
      some (.wrong (row.otpAttemptCount + 1)) →
      SessionAt sdk email code token [⟨.findSession email, .ok (some row)⟩, ⟨.newDate, .ok now⟩]
        (.saveSession email (failed row))
  | right {row : WalletLinkSession} {now : Nat} : verdict sdk row now code = some .right →
      SessionAt sdk email code token [⟨.findSession email, .ok (some row)⟩, ⟨.newDate, .ok now⟩]
        (.saveSession email (granted row token now))
  | user (row : WalletLinkSession) (now userId : Nat) :
      SessionAt sdk email code token [⟨.findSession email, .ok (some row)⟩, ⟨.newDate, .ok now⟩,
        ⟨.saveSession email (granted row token now), .ok ()⟩] (.findUser userId)

theorem session_awaits (h : Awaits (session sdk emailRaw code token) asked ask) :
    SessionAt sdk (normalizeEmail sdk emailRaw) code token asked ask := by
  rcases Async.awaits_call_bind.mp h with ⟨rfl, rfl⟩ | ⟨found, rest, rfl, hfound⟩
  · exact .find
  split at hfound
  · exact absurd hfound Async.not_awaits_throw
  rename_i row
  split at hfound
  · rename_i expiresAt userId hexpires huser
    split at hfound
    · exact absurd hfound Async.not_awaits_throw
    rename_i hcode
    rcases Async.awaits_call_bind.mp hfound with ⟨rfl, rfl⟩ | ⟨now, rest, rfl, hnow⟩
    · exact .clock row
    split at hnow
    · exact absurd hnow Async.not_awaits_throw
    rename_i hlive
    split at hnow
    · exact absurd hnow Async.not_awaits_throw
    rename_i hattempts
    have hcompared : ¬(falsy row.otpCodeHash = true ∨ row.userId = none ∨
        row.otpExpiresAt.all (· < now) = true ∨
        otpMaxAttempts ≤ row.otpAttemptCount) := by
      simp [hcode, huser, hexpires, Nat.not_lt.mp hlive, Nat.not_le.mp hattempts]
    split at hnow
    · rename_i hwrong
      rcases Async.awaits_call_bind.mp hnow with ⟨rfl, rfl⟩ | ⟨_, rest, rfl, hthrow⟩
      · exact .wrong (by rw [verdict, if_neg hcompared, if_pos hwrong])
      · exact absurd hthrow Async.not_awaits_throw
    · rename_i hright
      rcases Async.awaits_call_bind.mp hnow with ⟨rfl, rfl⟩ | ⟨_, rest, rfl, hsaved⟩
      · exact .right (by rw [verdict, if_neg hcompared, if_neg hright])
      · rcases Async.awaits_call_bind.mp hsaved with ⟨rfl, rfl⟩ | ⟨_, rest, rfl, hdone⟩
        · exact .user row now userId
        · exact absurd hdone Async.not_awaits_pure
  · exact absurd hfound Async.not_awaits_throw

/-- A request that ends after its clock had nothing to compare. -/
theorem session_trace {e : Text} {out : Except HttpError Outcome}
    (h : Trace (session sdk emailRaw code token) [⟨.findSession e, .ok (some row)⟩,
      ⟨.newDate, .ok now⟩] out) :
    verdict sdk row now code = none := by
  rcases Async.trace_call_bind.mp h with ⟨_, hone, _⟩ | ⟨found, rest, hasked, hfound⟩
  · cases hone
  cases hasked
  dsimp only at hfound
  split at hfound
  · rename_i expiresAt userId hexpires huser
    split at hfound
    · cases (Async.trace_throw.mp hfound).1
    rename_i hcode
    rcases Async.trace_call_bind.mp hfound with ⟨_, hone, _⟩ | ⟨now', rest, hasked, hnow⟩
    · cases hone
    cases hasked
    split at hnow
    · rename_i hlate
      exact if_pos (.inr (.inr (.inl (by simp [hexpires, hlate]))))
    split at hnow
    · rename_i hattempts
      exact if_pos (.inr (.inr (.inr hattempts)))
    split at hnow
    · rcases Async.trace_call_bind.mp hnow with ⟨_, hone, _⟩ |
        ⟨_, rest, hasked, _⟩ <;> contradiction
    · rcases Async.trace_call_bind.mp hnow with ⟨_, hone, _⟩ |
        ⟨_, rest, hasked, _⟩ <;> contradiction
  · cases (Async.trace_throw.mp hfound).1

/-- The rows that a `start` writes. -/
def Starts (email : Text) : Ask → Prop
  | .insertSession e row => e = email ∧ row.otpAttemptCount = 0 ∧ row.otpCodeHash ≠ none
  | .saveSession e row => e = email ∧ row.otpAttemptCount = 0 ∧ row.otpCodeHash ≠ none
  | _ => True

theorem start_asksOnly (sdk : OnboardingSdk) (emailRaw : Text) :
    (start sdk emailRaw).AsksOnly (Starts (normalizeEmail sdk emailRaw)) := by
  unfold start
  split
  · trivial
  refine AsksOnly.bind (AsksOnly.call trivial) fun matching => ?_
  split
  · refine AsksOnly.bind (AsksOnly.call trivial) fun found =>
      AsksOnly.bind (AsksOnly.call trivial) fun now => ?_
    split
    · trivial
    refine AsksOnly.bind (AsksOnly.call trivial) fun n => AsksOnly.bind ?_ fun _ => trivial
    cases found <;> exact AsksOnly.call ⟨rfl, rfl, by simp [issued]⟩
  · trivial

theorem verdict_some {hold : Hold} (h : verdict sdk row now code = some hold) :
    (∃ digest, row.otpCodeHash = some digest) ∧ row.otpAttemptCount < otpMaxAttempts ∧
      (hold = .wrong (row.otpAttemptCount + 1) ∨ hold = .right) := by
  unfold verdict at h
  split at h
  · cases h
  rename_i hcompared
  simp only [not_or] at hcompared
  refine ⟨?_, Nat.lt_of_not_le hcompared.2.2.2, ?_⟩
  · cases hcode : row.otpCodeHash with
    | none => exact absurd (by rw [hcode]; rfl) hcompared.1
    | some digest => exact ⟨digest, rfl⟩
  · split at h <;> cases h
    · exact .inl rfl
    · exact .inr rfl

/-! ## The exchanges as guesses -/

variable {s s' : LinkState} {x : Asked}

theorem live_save_other {e : Text} (h : e ≠ email) : live email (s.save e row) = live email s := by
  simp only [live, LinkState.save, Function.update_of_ne (Ne.symm h)]

theorem live_save : live email (s.save email row) = row.otpCodeHash.map fun _ =>
    row.otpAttemptCount := by
  simp only [live, LinkState.save, Function.update_self, Option.bind_some]

theorem Responds.error {error : HttpError} (h : Responds s ⟨ask, .error error⟩ s') : s' = s := h.2

theorem start_act {job : LinkJob} (hcall : job.call = .start emailRaw)
    (hawaits : Awaits (start sdk emailRaw) job.asked x.1) (hresponds : Responds s x s') :
    (guessing sdk email).Act otpMaxAttempts s job x s' (shows sdk email job x) := by
  have hbefore : holding sdk email job = none := by
    unfold holding
    rw [hcall]
  have hafter : holding sdk email (Attempts.next job x) = none := by
    unfold holding
    rw [Attempts.next, hcall]
  have hstarts := (start_asksOnly sdk emailRaw).awaits hawaits
  rcases x with ⟨ask, error | answer⟩
  · have hshown : shows sdk email job ⟨ask, .error error⟩ = none := by
      unfold shows
      rw [hcall]
      cases ask <;> rfl
    rw [hshown, hresponds.error]
    exact .quiet hbefore hafter rfl
  -- a row that is saved has a new code
  have hsaves : ∀ e row, ask = .insertSession e row ∨ ask = .saveSession e row → s' = s.save e row →
      row.otpAttemptCount = 0 → row.otpCodeHash ≠ none →
      shows sdk email job ⟨ask, .ok answer⟩ = (if e = email then some .issued else none) →
      (guessing sdk email).Act otpMaxAttempts s job ⟨ask, .ok answer⟩ s'
      (shows sdk email job ⟨ask, .ok answer⟩) := by
    rintro e row hask rfl hcount hcode hshown
    rw [hshown]
    rcases Option.ne_none_iff_exists'.mp hcode with ⟨digest, hdigest⟩
    split
    · rename_i hemail
      subst hemail
      refine .issue (.inl ⟨emailRaw, row, hcall, hask⟩) hbefore hafter ?_
      change live e _ = _
      rw [live_save, hdigest, hcount]
      rfl
    · rename_i hemail
      exact .quiet hbefore hafter (live_save_other hemail)
  cases ask with
  | insertSession e row =>
      exact hsaves e row (.inl rfl) hresponds.2 hstarts.2.1 hstarts.2.2
        (by unfold shows; rw [hcall])
  | saveSession e row =>
      exact hsaves e row (.inr rfl) hresponds.2 hstarts.2.1 hstarts.2.2
        (by unfold shows; rw [hcall])
  | newDate | randomInt | findUsers | findUser | findSession =>
      have hshown : shows sdk email job ⟨_, .ok answer⟩ = none := by
        unfold shows
        rw [hcall]
      rw [hshown]
      exact .quiet hbefore hafter (congrArg (live email) hresponds.2)

section Session

variable {job : LinkJob}

/-- A request that has not read its clock, or has saved, holds nothing. -/
theorem holding_of_length (h : job.asked.length ≠ 2) : (guessing sdk email).holding job = none := by
  change holding sdk email job = none
  unfold holding
  split
  · rename_i hasked
    rw [hasked] at h
    exact absurd rfl h
  · rfl

/-- A request between its clock and its save holds what it compared. -/
theorem holding_compared {e : Text} (hcall : job.call = .session emailRaw code token)
    (hasked : job.asked = [⟨.findSession e, .ok (some row)⟩, ⟨.newDate, .ok now⟩]) :
    (guessing sdk email).holding job = if normalizeEmail sdk emailRaw = email then
      verdict sdk row now code else none := by
  change holding sdk email job = _
  unfold holding
  rw [hcall, hasked]

theorem live_saved (h : Responds s ⟨.saveSession email row, .ok ()⟩ s') :
    live email s' = row.otpCodeHash.map fun _ => row.otpAttemptCount := by
  rw [h.2]
  exact live_save

theorem live_saved_other {e : Text} {r : Except HttpError Unit} (he : e ≠ email)
    (h : Responds s ⟨.saveSession e row, r⟩ s') : live email s' = live email s := by
  cases r with
  | error error => rw [h.error]
  | ok answer =>
      rw [h.2]
      exact live_save_other he

/-- The comparison of a code. -/
theorem clock_act (hcall : job.call = .session emailRaw code token)
    (hasked : job.asked = [⟨.findSession (normalizeEmail sdk emailRaw), .ok (some row)⟩])
    (hresponds : Responds s ⟨.newDate, .ok now⟩ s')
    (hcurrent : current sdk email s job ⟨.newDate, .ok now⟩) :
    (guessing sdk email).Act otpMaxAttempts s job ⟨.newDate, .ok now⟩ s'
      (shows sdk email job ⟨.newDate, .ok now⟩) := by
  have hlive : live email s' = live email s := congrArg (live email) hresponds.2
  have hbefore : (guessing sdk email).holding job = none := holding_of_length (by simp [hasked])
  have hafter : (guessing sdk email).holding (Attempts.next job ⟨.newDate, .ok now⟩) = _ :=
    holding_compared hcall (by rw [Attempts.next, hasked]; rfl)
  have hshown : shows sdk email job ⟨.newDate, .ok now⟩ =
      match holding sdk email (Attempts.next job ⟨.newDate, .ok now⟩) with
      | some (.wrong _) => some .wrong
      | _ => none := by
    unfold shows
    rw [hcall]
  rw [hshown]
  cases hhold : holding sdk email (Attempts.next job ⟨.newDate, .ok now⟩) with
  | none => exact .quiet hbefore hhold hlive
  | some hold =>
      have htouches : touches sdk email job ⟨.newDate, .ok now⟩ := .inr (by rw [hhold]; simp)
      rcases Option.ite_none_right_eq_some.mp (hafter.symm.trans hhold) with ⟨hemail, hverdict⟩
      rcases hcurrent (by rw [hhold]; simp) row
        (by rw [hasked, hemail]; exact List.mem_singleton_self _) with
        ⟨stored, hstored, hhash, hcount⟩
      rcases verdict_some hverdict with ⟨⟨digest, hdigest⟩, hlimit, hold_eq⟩
      have hrow : live email s = some row.otpAttemptCount := by
        rw [live, hstored, Option.bind_some, hhash, hdigest, hcount]
        rfl
      rcases hold_eq with rfl | rfl
      · exact .wrong htouches hbefore hhold hrow hlimit hlive
      · exact .right htouches hbefore hhold hrow hlive

/-- The save after a wrong code. -/
theorem wrong_act {r : Except HttpError Unit} (hcall : job.call = .session emailRaw code token)
    (hasked : job.asked = [⟨.findSession (normalizeEmail sdk emailRaw), .ok (some row)⟩,
      ⟨.newDate, .ok now⟩])
    (hverdict : verdict sdk row now code = some (.wrong (row.otpAttemptCount + 1)))
    (hresponds : Responds s ⟨.saveSession (normalizeEmail sdk emailRaw) (failed row), r⟩ s')
    (hcounted : ∀ n, holding sdk email job = some (.wrong n) → ∃ answer, r = .ok answer) :
    (guessing sdk email).Act otpMaxAttempts s job
      ⟨.saveSession (normalizeEmail sdk emailRaw) (failed row), r⟩ s'
      (shows sdk email job ⟨.saveSession (normalizeEmail sdk emailRaw) (failed row), r⟩) := by
  rcases verdict_some hverdict with ⟨⟨digest, hdigest⟩, -, -⟩
  have hafter : (guessing sdk email).holding (Attempts.next job
      ⟨.saveSession (normalizeEmail sdk emailRaw) (failed row), r⟩) = none :=
    holding_of_length (by simp [Attempts.next, hasked])
  have hshown : shows sdk email job ⟨.saveSession (normalizeEmail sdk emailRaw) (failed row), r⟩ =
      none := by
    unfold shows
    rw [hcall]
    cases r with
    | error error => rfl
    | ok answer => exact if_neg fun h => by cases hdigest.symm.trans h.2
  rw [hshown]
  by_cases hemail : normalizeEmail sdk emailRaw = email
  · have hhold : (guessing sdk email).holding job = _ :=
      (holding_compared hcall hasked).trans ((if_pos hemail).trans hverdict)
    rcases hcounted _ hhold with ⟨answer, rfl⟩
    refine .count hhold hafter ?_
    rw [hemail] at hresponds
    exact (live_saved hresponds).trans
      (by rw [show (failed row).otpCodeHash = some digest from hdigest]; rfl)
  · exact .quiet ((holding_compared hcall hasked).trans (if_neg hemail)) hafter
      (live_saved_other hemail hresponds)

/-- The save after the right code. -/
theorem right_act {r : Except HttpError Unit} (hcall : job.call = .session emailRaw code token)
    (hasked : job.asked = [⟨.findSession (normalizeEmail sdk emailRaw), .ok (some row)⟩,
      ⟨.newDate, .ok now⟩])
    (hverdict : verdict sdk row now code = some .right)
    (hresponds : Responds s ⟨.saveSession (normalizeEmail sdk emailRaw) (granted row token now),
      r⟩ s') :
    (guessing sdk email).Act otpMaxAttempts s job
      ⟨.saveSession (normalizeEmail sdk emailRaw) (granted row token now), r⟩ s'
      (shows sdk email job ⟨.saveSession (normalizeEmail sdk emailRaw) (granted row token now),
        r⟩) := by
  have hafter : (guessing sdk email).holding (Attempts.next job
      ⟨.saveSession (normalizeEmail sdk emailRaw) (granted row token now), r⟩) = none :=
    holding_of_length (by simp [Attempts.next, hasked])
  have hhold : (guessing sdk email).holding job = _ := holding_compared hcall hasked
  cases r with
  | error error =>
      have hshown : shows sdk email job
          ⟨.saveSession (normalizeEmail sdk emailRaw) (granted row token now), .error error⟩ =
          none := by
        unfold shows
        rw [hcall]
      rw [hshown]
      by_cases hemail : normalizeEmail sdk emailRaw = email
      · exact .drop (hhold.trans ((if_pos hemail).trans hverdict)) hafter
          (congrArg (live email) hresponds.error)
      · exact .quiet (hhold.trans (if_neg hemail)) hafter (congrArg (live email) hresponds.error)
  | ok answer =>
      have hshown : shows sdk email job
          ⟨.saveSession (normalizeEmail sdk emailRaw) (granted row token now), .ok answer⟩ =
            if normalizeEmail sdk emailRaw = email ∧ (granted row token now).otpCodeHash =
            none then some .granted
            else none := by
        unfold shows
        rw [hcall]
      rw [hshown]
      by_cases hemail : normalizeEmail sdk emailRaw = email
      · rw [if_pos ⟨hemail, rfl⟩]
        refine .grant (hhold.trans ((if_pos hemail).trans hverdict)) hafter ?_
        rw [hemail] at hresponds
        exact live_saved hresponds
      · rw [if_neg fun h => hemail h.1]
        exact .quiet (hhold.trans (if_neg hemail)) hafter (live_saved_other hemail hresponds)

theorem session_act (hcall : job.call = .session emailRaw code token)
    (hawaits : Awaits (session sdk emailRaw code token) job.asked x.1) (hresponds : Responds s x s')
    (hcurrent : current sdk email s job x)
    (hcounted : ∀ n, holding sdk email job = some (.wrong n) → ∃ answer, x.2 = .ok answer) :
    (guessing sdk email).Act otpMaxAttempts s job x s' (shows sdk email job x) := by
  have hat := session_awaits hawaits
  generalize hasked : job.asked = asked at hat
  rcases x with ⟨ask, r⟩
  -- a read shows nothing and holds nothing
  have hread : job.asked.length ≠ 2 → job.asked.length + 1 ≠ 2 → live email s' = live email s →
      shows sdk email job ⟨ask, r⟩ = none →
      (guessing sdk email).Act otpMaxAttempts s job ⟨ask, r⟩ s' (shows sdk email job ⟨ask, r⟩) := by
    intro hbefore hafter hlive hshown
    rw [hshown]
    exact .quiet (holding_of_length hbefore)
      (holding_of_length (by simpa [Attempts.next] using hafter)) hlive
  have hsame : s' = s → live email s' = live email s := fun h => by rw [h]
  cases hat with
  | find =>
      refine hread (by simp [hasked]) (by simp [hasked]) (hsame ?_) (by unfold shows; rw [hcall])
      cases r with
      | error error => exact hresponds.error
      | ok found => exact hresponds.2
  | clock row =>
      cases r with
      | error error => cases hresponds.1
      | ok now => exact clock_act hcall hasked hresponds hcurrent
  | wrong hverdict => exact wrong_act hcall hasked hverdict hresponds hcounted
  | right hverdict => exact right_act hcall hasked hverdict hresponds
  | user row now userId =>
      refine hread (by simp [hasked]) (by simp [hasked]) (hsame ?_) (by unfold shows; rw [hcall])
      cases r with
      | error error => exact hresponds.error
      | ok found => exact hresponds.2

theorem holding_settled {out : Except HttpError Outcome}
    (hprogram : job.program = job.call.program sdk)
    (htrace : Trace job.program job.asked out) : (guessing sdk email).holding job = none := by
  rcases job with ⟨call, program, asked⟩
  dsimp only at hprogram htrace
  subst hprogram
  change holding sdk email _ = none
  unfold holding
  split
  · rename_i emailRaw code token e row now hcall hasked
    dsimp only at hcall hasked
    subst hcall hasked
    split
    · exact session_trace htrace
    · rfl
  · rfl

end Session

theorem live_cleanup (s : LinkState) : live email s.cleanup = live email s := by
  simp only [live, LinkState.cleanup]
  cases s.sessions email with
  | none => rfl
  | some row =>
      rw [Option.map_some, Option.bind_some, Option.bind_some]
      split <;> rfl

/-- The requests guess, and their counts go through the row. -/
theorem guarded (sdk : OnboardingSdk) (email : Text) (ι : Type) :
    (guessing sdk email).Guarded (service sdk ι) otpMaxAttempts where
  start s i request := holding_of_length (by simp)
  exchange s i job x s' hprogram hawaits hresponds hcurrent hcounted := by
    rcases hprogram with ⟨_, hprogram⟩
    rw [hprogram] at hawaits
    cases hcall : job.call with
    | start emailRaw =>
        rw [hcall] at hawaits
        exact start_act hcall hawaits hresponds
    | session emailRaw code token =>
        rw [hcall] at hawaits
        exact session_act hcall hawaits hresponds hcurrent hcounted
  settle s i job out hprogram htrace := by
    rcases hprogram with ⟨_, hprogram⟩
    exact ⟨holding_settled hprogram htrace, rfl⟩
  outside s s' houtside := by
    rcases houtside with rfl | ⟨ms, rfl⟩
    · exact live_cleanup s
    · rfl

end WalletLink

end Lendoor.Backend
