import Lendoor.Backend.Onboarding

/-! # Where stored emails come from

A user's email against the codes that were sent. A call that writes an address and then
fails to send its code leaves the code of another address in place, two calls write the
user's row before any code, and a code stands whether or not the mailer took it; in runs
without any of these, every stored email was verified by a code sent to it.
-/

namespace Lendoor.Backend

open Cctp (Text falsy)
open Async (call)

namespace Onboarding

variable {sdk : OnboardingSdk} {s s' : OnboardingState} {wallet : Text} {asked : List Asked}

/-! ## The tables -/

theorem userOf_patchUsers (users : List User) (wallet w : Text) (patch : UserPatch) :
    (patchUsers users wallet patch).find? (fun user => user.walletAddress = w) =
      (users.find? fun user => user.walletAddress = w).map fun user =>
        if user.walletAddress = wallet then patch.apply user else user := by
  rw [patchUsers, List.find?_map]
  congr 1
  refine congrArg (List.find? · users) (funext fun user => ?_)
  simp only [Function.comp_apply]
  split <;> rfl

theorem userOf_wallet {w : Text} {user : User} (h : s.userOf w = some user) :
    user.walletAddress = w := by
  simpa using List.find?_some h

/-- Of each wallet: the pending code was sent to the pending address, which is normal, and
the user's email was verified. -/
structure Inv (sdk : OnboardingSdk) (Sent Verified : Text → Text → Prop) (s : OnboardingState) :
    Prop where
  pending : ∀ w p h, s.pending w = some p → p.otpCode = some h →
    ∃ e c, p.email = some e ∧ h = sdk.hashOtp c ∧ Sent e c
  normal : ∀ w p e, s.pending w = some p → p.email = some e → normalizeEmail sdk e = e
  users : ∀ w u e, s.userOf w = some u → u.email = some e → Verified w e

variable {Sent Sent' Verified Verified' : Text → Text → Prop}

theorem Inv.mono (h : Inv sdk Sent Verified s) (hsent : ∀ e c, Sent e c → Sent' e c)
    (hverified : ∀ w e, Verified w e → Verified' w e) : Inv sdk Sent' Verified' s where
  pending w p code hp hcode := by
    rcases h.pending w p code hp hcode with ⟨e, c, he, hc, hs⟩
    exact ⟨e, c, he, hc, hsent e c hs⟩
  normal := h.normal
  users w u e hu he := hverified w e (h.users w u e hu he)

theorem Inv.savePending (h : Inv sdk Sent Verified s) {row : NotVerifiedUser}
    (hcode : ∀ code, row.otpCode = some code →
      ∃ e c, row.email = some e ∧ code = sdk.hashOtp c ∧ Sent e c)
    (hnormal : ∀ e, row.email = some e → normalizeEmail sdk e = e) :
    Inv sdk Sent Verified (s.effect (.savePending wallet row)) where
  pending w p code hp hc := by
    by_cases hw : w = wallet
    · subst hw
      simp only [OnboardingState.effect, Function.update_self, Option.some.injEq] at hp
      subst hp
      exact hcode code hc
    · simp only [OnboardingState.effect, Function.update_of_ne hw] at hp
      exact h.pending w p code hp hc
  normal w p e hp he := by
    by_cases hw : w = wallet
    · subst hw
      simp only [OnboardingState.effect, Function.update_self, Option.some.injEq] at hp
      subst hp
      exact hnormal e he
    · simp only [OnboardingState.effect, Function.update_of_ne hw] at hp
      exact h.normal w p e hp he
  users := h.users

theorem Inv.deletePending (h : Inv sdk Sent Verified s) (wallet : Text) :
    Inv sdk Sent Verified { s with pending := Function.update s.pending wallet none } where
  pending w p code hp hc := by
    by_cases hw : w = wallet
    · subst hw
      simp at hp
    · simp only [Function.update_of_ne hw] at hp
      exact h.pending w p code hp hc
  normal w p e hp he := by
    by_cases hw : w = wallet
    · subst hw
      simp at hp
    · simp only [Function.update_of_ne hw] at hp
      exact h.normal w p e hp he
  users := h.users

theorem Inv.patch (h : Inv sdk Sent Verified s) {patch : UserPatch}
    (hpatch : ∀ u e, s.userOf wallet = some u → (patch.apply u).email = some e →
      Verified wallet e) :
    Inv sdk Sent Verified { s with users := patchUsers s.users wallet patch } where
  pending := h.pending
  normal := h.normal
  users w u e hu he := by
    rw [OnboardingState.userOf, userOf_patchUsers] at hu
    rcases Option.map_eq_some_iff.mp hu with ⟨u₀, hu₀, rfl⟩
    split at he
    · rename_i hwallet
      have hw : w = wallet := (userOf_wallet hu₀).symm.trans hwallet
      subst hw
      exact hpatch u₀ e hu₀ he
    · exact h.users w u₀ e hu₀ he

theorem Inv.insert (h : Inv sdk Sent Verified s) {user : User}
    (hverified : ∀ e, user.email = some e → Verified user.walletAddress e) :
    Inv sdk Sent Verified { s with users := s.users ++ [user] } where
  pending := h.pending
  normal := h.normal
  users w u e hu he := by
    simp only [OnboardingState.userOf, List.find?_append] at hu
    rcases Option.or_eq_some_iff.mp hu with hold | ⟨_, hnew⟩
    · exact h.users w u e hold he
    · rw [List.find?_singleton] at hnew
      rcases Option.ite_none_right_eq_some.mp hnew with ⟨hw, heq⟩
      cases heq
      rw [← of_decide_eq_true hw]
      exact hverified e he

/-! ## The parts of a call -/

theorem Responds.error {ask : Ask} {error : HttpError} (h : Responds s ⟨ask, .error error⟩ s') :
    s' = s :=
  h.2

theorem getStep_exec {platform : Option Text} {out : Except HttpError Outcome}
    (h : Exec Responds s (getStep wallet platform) asked out s') : s' = s := by
  rcases h.call_bind_inv with ⟨error, -, hrespond, -⟩ | ⟨step, t, rest, -, hrespond, hend⟩
  · exact hrespond.error
  · rcases Exec.pure_iff.mp hend with ⟨-, -, rfl⟩
    exact hrespond.2

theorem ensureEmailIsFree_exec {email : Text} {out : Except HttpError Unit}
    (h : Exec Responds s (ensureEmailIsFreeForWallet email wallet) asked out s') :
    s' = s ∧ (out = .ok () → email ≠ []) := by
  unfold ensureEmailIsFreeForWallet at h
  split at h
  · rcases Exec.throw_iff.mp h with ⟨-, rfl, rfl⟩
    exact ⟨rfl, by simp⟩
  · rename_i hne
    refine ⟨?_, fun _ => hne⟩
    rcases h.call_bind_inv with ⟨error, -, hrespond, -⟩ | ⟨owner, t, rest, -, hrespond, hend⟩
    · exact hrespond.error
    · have ht : s = t := hrespond.2.symm
      subst ht
      split at hend
      · exact (Exec.pure_iff.mp hend).2.2
      · split at hend
        · exact (Exec.throw_iff.mp hend).2.2
        · exact (Exec.pure_iff.mp hend).2.2

/-- Issuing a code fails before it saves anything, or it saves the row with a code that it
sends to the row's address. -/
theorem issueOtpForPending_exec {row : NotVerifiedUser} {out : Except HttpError NotVerifiedUser}
    (h : Exec Responds s (issueOtpForPending sdk wallet row) asked out s') :
    (s' = s ∧ (falsy row.email = true ∨ throttled row s.now = true ∨
      ∃ row' error, ⟨.savePending wallet row', .error error⟩ ∈ asked)) ∨
    ∃ code r, s' = s.effect (.savePending wallet (withCode sdk row code s.now)) ∧
      ⟨.sendMail (row.email.getD []) code, r⟩ ∈ asked := by
  unfold issueOtpForPending at h
  split at h
  · rename_i hfalsy
    exact .inl ⟨(Exec.throw_iff.mp h).2.2, .inl hfalsy⟩
  · rcases h.call_bind_inv with ⟨error, -, hrespond, -⟩ | ⟨now, t, rest, rfl, hrespond, hnow⟩
    · cases hrespond.1
    · have hclock : now = s.now := of_decide_eq_true hrespond.1
      have ht : s = t := hrespond.2.symm
      subst hclock ht
      split at hnow
      · rename_i hthrottled
        exact .inl ⟨(Exec.throw_iff.mp hnow).2.2, .inr (.inl hthrottled)⟩
      · rcases hnow.call_bind_inv with ⟨error, -, hrespond, -⟩ |
          ⟨n, t, rest, rfl, hrespond, hrandom⟩
        · cases hrespond.1
        · have ht : s = t := hrespond.2.symm
          subst ht
          rcases hrandom.call_bind_inv with ⟨error, rfl, hrespond, -⟩ |
            ⟨_, t, rest, rfl, hrespond, hsaved⟩
          · exact .inl ⟨hrespond.error, .inr (.inr ⟨_, error,
              List.mem_cons_of_mem _ (List.mem_cons_of_mem _ List.mem_cons_self)⟩)⟩
          · rcases hsaved.caught_bind_inv with ⟨r, u, rest, rfl, hsend, hend⟩
            rcases Exec.pure_iff.mp hend with ⟨-, -, rfl⟩
            refine .inr ⟨_, r, ?_, by simp⟩
            have hu : s' = t := by
              rcases r with error | answer
              · exact hsend.error
              · exact hsend.2
            rw [hu]
            exact hrespond.2

/-- A row is the wallet's pending row with the address `email`. -/
structure Readdressed (pending : Option NotVerifiedUser) (email : Text) (row : NotVerifiedUser) :
    Prop where
  email : row.email = some email
  otpCode : row.otpCode = pending.bind NotVerifiedUser.otpCode
  lastOtpSentAt : row.lastOtpSentAt = pending.bind NotVerifiedUser.lastOtpSentAt

theorem readdressed (pending : Option NotVerifiedUser) (email : Text) (platformNorm : Option Text) :
    Readdressed pending email (readdress pending email platformNorm) := by
  cases pending <;> exact ⟨rfl, rfl, rfl⟩

/-- The pending row holds a code that went to another address. -/
def KeepsCode (s : OnboardingState) (wallet email : Text) : Prop :=
  ∃ p, s.pending wallet = some p ∧ p.otpCode ≠ none ∧ p.email ≠ some email

/-- A new code replaces the one of the pending row. -/
structure Reissues (s : OnboardingState) (wallet : Text) (asked : List Asked) : Prop where
  open_ : ∀ p, s.pending wallet = some p → throttled p s.now = false
  saved : ∀ row error, ⟨.savePending wallet row, .error error⟩ ∉ asked

/-- Issuing a code for a saved row keeps the invariant up to that row, and restores it. -/
theorem Inv.issue (h : Inv sdk Sent Verified s) {row row' : NotVerifiedUser} {email : Text}
    (hrow : row.email = some email) (hnormal : normalizeEmail sdk email = email)
    {t : OnboardingState} (hsaved : t = s.effect (.savePending wallet row'))
    {out : Except HttpError NotVerifiedUser}
    (hexec : Exec Responds t (issueOtpForPending sdk wallet row) asked out s')
    (hsent : ∀ e c r, ⟨.sendMail e c, r⟩ ∈ asked → Sent e c)
    (hunissued : (falsy row.email = true ∨ throttled row s.now = true ∨
      ∃ row' error, ⟨.savePending wallet row', .error error⟩ ∈ asked) → Inv sdk Sent Verified t) :
    Inv sdk Sent Verified s' := by
  rcases issueOtpForPending_exec hexec with ⟨rfl, hwhy⟩ | ⟨code, r, rfl, hmem⟩
  · exact hunissued (by rwa [hsaved] at hwhy)
  · have hrestored : (t.effect (.savePending wallet (withCode sdk row code t.now))) =
        s.effect (.savePending wallet (withCode sdk row code t.now)) := by
      simp [hsaved, OnboardingState.effect]
    rw [hrestored]
    refine h.savePending (fun digest hdigest => ?_) fun e he => ?_
    · cases hdigest
      refine ⟨email, code, hrow, rfl, hsent _ _ r ?_⟩
      rwa [hrow] at hmem
    · rw [withCode, hrow] at he
      cases he
      exact hnormal

/-- A row with a new address keeps the invariant when its code was sent there. -/
theorem Inv.saveAddress (h : Inv sdk Sent Verified s) {row : NotVerifiedUser} {email : Text}
    (hrow : Readdressed (s.pending wallet) email row) (hnormal : normalizeEmail sdk email = email)
    (hkeeps : ¬ KeepsCode s wallet email) :
    Inv sdk Sent Verified (s.effect (.savePending wallet row)) := by
  refine h.savePending (fun digest hdigest => ?_) fun e he => ?_
  · rw [hrow.otpCode] at hdigest
    rcases Option.bind_eq_some_iff.mp hdigest with ⟨p, hp, hcode⟩
    rcases h.pending wallet p digest hp hcode with ⟨e, c, he, hc, hs⟩
    by_cases hsame : p.email = some email
    · rw [he] at hsame
      cases hsame
      exact ⟨email, c, hrow.email, hc, hs⟩
    · exact absurd ⟨p, hp, by simp [hcode], hsame⟩ hkeeps
  · rw [hrow.email] at he
    cases he
    exact hnormal

/-- A row with a new address is saved and its code is sent. -/
theorem Inv.issueSaved (h : Inv sdk Sent Verified s) {row : NotVerifiedUser} {email : Text}
    (hrow : Readdressed (s.pending wallet) email row) (hnormal : normalizeEmail sdk email = email)
    (hne : email ≠ []) (hreissues : KeepsCode s wallet email → Reissues s wallet asked)
    {t : OnboardingState} (hsaved : t = s.effect (.savePending wallet row))
    {out : Except HttpError NotVerifiedUser}
    (hexec : Exec Responds t (issueOtpForPending sdk wallet row) asked out s')
    (hsent : ∀ e c r, ⟨.sendMail e c, r⟩ ∈ asked → Sent e c) : Inv sdk Sent Verified s' := by
  refine h.issue hrow.email hnormal hsaved hexec hsent fun hwhy => ?_
  rw [hsaved]
  refine h.saveAddress hrow hnormal fun hkeeps => ?_
  have hopen := hreissues hkeeps
  rcases hwhy with hfalsy | hthrottled | ⟨row', error, hmem⟩
  · rw [hrow.email] at hfalsy
    exact hne (List.isEmpty_iff.mp hfalsy)
  · rcases hkeeps with ⟨p, hp, -, -⟩
    have hlast : row.lastOtpSentAt = p.lastOtpSentAt := by rw [hrow.lastOtpSentAt, hp]; rfl
    have hp' := hopen.open_ p hp
    rw [throttled, hlast] at hthrottled
    rw [throttled, hthrottled] at hp'
    cases hp'
  · exact hopen.saved row' error hmem

theorem Reissues.mono {t : OnboardingState} {asked' : List Asked} (h : Reissues s wallet asked)
    (hpending : t.pending = s.pending) (hnow : t.now = s.now) (hsub : asked' ⊆ asked) :
    Reissues t wallet asked' := by
  refine ⟨fun p hp => ?_, fun row error hmem => h.saved row error (hsub hmem)⟩
  rw [hnow]
  exact h.open_ p (hpending ▸ hp)

theorem Inv.register (h : Inv sdk Sent Verified s) {row : NotVerifiedUser} {email : Text}
    (hrow : Readdressed (s.pending wallet) email row) (hnormal : normalizeEmail sdk email = email)
    (hne : email ≠ []) (hreissues : KeepsCode s wallet email → Reissues s wallet asked)
    {out : Except HttpError NotVerifiedUser}
    (hexec : Exec Responds s (register sdk wallet row) asked out s')
    (hsent : ∀ e c r, ⟨.sendMail e c, r⟩ ∈ asked → Sent e c) : Inv sdk Sent Verified s' := by
  rcases hexec.call_bind_inv with ⟨error, -, hrespond, -⟩ | ⟨_, t, rest, rfl, hrespond, hissue⟩
  · rw [hrespond.error]
    exact h
  · exact h.issueSaved hrow hnormal hne
      (fun hkeeps => (hreissues hkeeps).mono rfl rfl (List.subset_cons_self _ _)) hrespond.2 hissue
      fun e c r hmem => hsent e c r (List.mem_cons_of_mem _ hmem)

/-! ## The calls -/

/-- An update that leaves the address of the user as it is. -/
theorem Inv.samePatch (h : Inv sdk Sent Verified s) {patch : UserPatch}
    (hsame : ∀ e, patch.email = some e → ∀ u, s.userOf wallet = some u → u.email = some e) :
    Inv sdk Sent Verified (s.effect (.updateUser wallet patch)) := by
  refine h.patch fun u e hu he => ?_
  cases hpatch : patch.email with
  | none =>
      simp only [UserPatch.apply, hpatch, Option.none_or] at he
      exact h.users wallet u e hu he
  | some e' =>
      simp only [UserPatch.apply, hpatch, Option.some_or, Option.some.injEq] at he
      subst he
      exact h.users wallet u e' hu (hsame e' hpatch u hu)

/-- The wallet has no user with another address. -/
def SameEmail (s : OnboardingState) (wallet email : Text) : Prop :=
  ∀ u, s.userOf wallet = some u → u.email = some email

/-- What a call that writes an address has to find: no user with another address, and no
code for another address that it does not replace. -/
structure Careful (s : OnboardingState) (wallet email : Text) (asked : List Asked) : Prop where
  user : SameEmail s wallet email
  pending : KeepsCode s wallet email → Reissues s wallet asked

theorem KeepsCode.congr {t : OnboardingState} {email : Text} (h : KeepsCode t wallet email)
    (hpending : t.pending = s.pending) : KeepsCode s wallet email := by
  rwa [KeepsCode, hpending] at h

/-- A state with the invariant whose pending rows and clock are those of `s`. -/
structure Frame (sdk : OnboardingSdk) (Sent Verified : Text → Text → Prop) (s t : OnboardingState) :
    Prop where
  inv : Inv sdk Sent Verified t
  pending : t.pending = s.pending
  now : t.now = s.now

theorem Inv.frame (h : Inv sdk Sent Verified s) : Frame sdk Sent Verified s s := ⟨h, rfl, rfl⟩

theorem Frame.patch {t : OnboardingState} (h : Frame sdk Sent Verified s t) {patch : UserPatch}
    (hsame : ∀ e, patch.email = some e → ∀ u, t.userOf wallet = some u → u.email = some e) :
    Frame sdk Sent Verified s (t.effect (.updateUser wallet patch)) :=
  ⟨h.inv.samePatch hsame, h.pending, h.now⟩

theorem updateEmail_exec (h : Inv sdk Sent Verified s) {email : Text} {platformNorm : Option Text}
    {user : Option User} (hsame : SameEmail s wallet email) {out : Except HttpError Unit}
    (hexec : Exec Responds s (updateEmail wallet email platformNorm user) asked out s') :
    Frame sdk Sent Verified s s' := by
  cases user with
  | none =>
      rcases Exec.pure_iff.mp hexec with ⟨-, -, rfl⟩
      exact h.frame
  | some user =>
      rcases hexec.call_inv with ⟨rfl, hrespond⟩
      rcases out with error | _
      · rw [hrespond.error]
        exact h.frame
      · rw [hrespond.2]
        refine h.frame.patch fun e he u hu => ?_
        cases he
        exact hsame u hu

theorem orNow_exec {t : Option Nat} {out : Except HttpError Nat}
    (h : Exec Responds s (orNow t) asked out s') : s' = s := by
  cases t with
  | none =>
      rcases h.call_inv with ⟨rfl, hrespond⟩
      rcases out with error | now
      · exact hrespond.error
      · exact hrespond.2
  | some t => exact (Exec.pure_iff.mp h).2.2

theorem joinTime_exec {early : Bool} {user : User} {out : Except HttpError (Option Nat)}
    (h : Exec Responds s (joinTime early user) asked out s') : s' = s := by
  unfold joinTime at h
  split at h
  · rcases h.call_bind_inv with ⟨error, -, hrespond, -⟩ | ⟨now, t, rest, -, hrespond, hend⟩
    · exact hrespond.error
    · exact (Exec.pure_iff.mp hend).2.2.trans hrespond.2
  · exact (Exec.pure_iff.mp h).2.2

theorem joinUser_exec (h : Inv sdk Sent Verified s) {email : Text} {platformNorm : Option Text}
    {user : Option User} (hsame : SameEmail s wallet email) {out : Except HttpError (Option Nat)}
    (hexec : Exec Responds s (joinUser wallet email platformNorm user) asked out s') :
    Frame sdk Sent Verified s s' := by
  cases user with
  | none =>
      rcases Exec.pure_iff.mp hexec with ⟨-, -, rfl⟩
      exact h.frame
  | some user =>
      rcases hexec.call_bind_inv with ⟨error, -, hrespond, -⟩ |
        ⟨early, t, rest, -, hrespond, hearly⟩
      · rw [hrespond.error]
        exact h.frame
      · have ht : s = t := hrespond.2.symm
        subst ht
        rcases hearly.bind_inv with ⟨error, hjoin, -⟩ | ⟨joined, u, before, after, -, hjoin, hafter⟩
        · rw [joinTime_exec hjoin]
          exact h.frame
        · have hu : s = u := (joinTime_exec hjoin).symm
          subst hu
          rcases hafter.call_bind_inv with ⟨error, -, hrespond, -⟩ | ⟨_, v, rest, -, hrespond, hend⟩
          · rw [hrespond.error]
            exact h.frame
          · rw [(Exec.pure_iff.mp hend).2.2, hrespond.2]
            refine h.frame.patch fun e he u hu => ?_
            cases he
            exact hsame u hu

/-- The end of a call that writes an address. -/
theorem Frame.register {t : OnboardingState} (h : Frame sdk Sent Verified s t)
    {row : NotVerifiedUser}
    {email : Text} (hrow : Readdressed (t.pending wallet) email row)
    (hnormal : normalizeEmail sdk email = email) (hne : email ≠ [])
    (hreissues : KeepsCode s wallet email → Reissues s wallet asked) {asked' : List Asked}
    (hsub : asked' ⊆ asked) {out : Except HttpError Outcome}
    (hexec : Exec Responds t (Onboarding.register sdk wallet row >>= fun _ => getStep wallet none)
      asked' out s')
    (hsent : ∀ e c r, ⟨.sendMail e c, r⟩ ∈ asked → Sent e c) : Inv sdk Sent Verified s' := by
  refine hexec.bind_first (fun before _ _ hbefore hreg => ?_) fun _ _ _ => getStep_exec
  have hsub' : before ⊆ asked := List.Subset.trans hbefore hsub
  exact h.inv.register hrow hnormal hne
    (fun hkeeps => (hreissues (hkeeps.congr h.pending)).mono h.pending h.now hsub')
    hreg fun e c r hmem => hsent e c r (hsub' hmem)

/-- Without a new address the pending row is left alone; a new one is saved. -/
theorem resendTo_exec {email : Text} {pending : Option NotVerifiedUser}
    {out : Except HttpError (Option NotVerifiedUser)}
    (h : Exec Responds s (resendTo wallet email pending) asked out s') :
    (s' = s ∧ ∃ error, out = .error error) ∨ (s' = s ∧ email = [] ∧ out = .ok pending) ∨
      (email ≠ [] ∧ out = .ok (some (readdress pending email none)) ∧
        s' = s.effect (.savePending wallet (readdress pending email none))) := by
  unfold resendTo at h
  split at h
  · rename_i hempty
    rcases Exec.pure_iff.mp h with ⟨-, rfl, rfl⟩
    exact .inr (.inl ⟨rfl, hempty, rfl⟩)
  · rename_i hne
    rcases h.bind_inv with ⟨error, hensure, rfl⟩ | ⟨_, t, before, rest, -, hensure, hsave⟩
    · exact .inl ⟨(ensureEmailIsFree_exec hensure).1, error, rfl⟩
    · rw [(ensureEmailIsFree_exec hensure).1] at hsave
      rcases hsave.call_bind_inv with ⟨error, -, hrespond, rfl⟩ | ⟨_, t, rest, -, hrespond, hend⟩
      · exact .inl ⟨hrespond.error, error, rfl⟩
      · rcases Exec.pure_iff.mp hend with ⟨-, rfl, rfl⟩
        exact .inr (.inr ⟨hne, rfl, hrespond.2⟩)

variable (hlower : ∀ email, normalizeEmail sdk (normalizeEmail sdk email) =
  normalizeEmail sdk email)
include hlower

theorem Inv.verifyEmail (h : Inv sdk Sent Verified s) {walletAddress email : Text}
    {platform : Option Text} {out : Except HttpError Outcome}
    (hexec : Exec Responds s (verifyEmail sdk walletAddress email platform) asked out s')
    (hcareful : ∀ wallet, normalizeWallet walletAddress = .ok wallet →
      Careful s wallet (normalizeEmail sdk email) asked)
    (hsent : ∀ e c r, ⟨.sendMail e c, r⟩ ∈ asked → Sent e c) : Inv sdk Sent Verified s' := by
  rcases hexec.lift_bind_inv with ⟨error, -, -, -, rfl⟩ | ⟨wallet, hwallet, hbody⟩
  · exact h
  have hcare := hcareful wallet hwallet
  rcases hbody.bind_inv with ⟨error, hensure, -⟩ | ⟨_, t, free, rest, rfl, hensure, hfind⟩
  · rw [(ensureEmailIsFree_exec hensure).1]
    exact h
  rcases ensureEmailIsFree_exec hensure with ⟨ht, hne⟩
  rw [ht] at hfind
  rcases hfind.call_bind_inv with ⟨error, -, hrespond, -⟩ | ⟨user, t, rest, rfl, hrespond, hupdate⟩
  · rw [hrespond.error]
    exact h
  rw [hrespond.2] at hupdate
  rcases hupdate.bind_inv with ⟨error, hset, -⟩ | ⟨_, t, set, rest, rfl, hset, hpending⟩
  · exact (updateEmail_exec h hcare.user hset).inv
  have hframe := updateEmail_exec h hcare.user hset
  rcases hpending.call_bind_inv with ⟨error, -, hrespond, -⟩ |
    ⟨pending, u, rest, rfl, hrespond, hregister⟩
  · rw [hrespond.error]
    exact hframe.inv
  have hfound : pending = t.pending wallet := of_decide_eq_true hrespond.1
  rw [hrespond.2] at hregister
  exact hframe.register (hfound ▸ readdressed pending _ _) (hlower email) (hne rfl) hcare.pending
    (fun x hx => by simp [hx]) hregister hsent

theorem Inv.joinWaitlist (h : Inv sdk Sent Verified s) {walletAddress email : Text}
    {platform : Option Text} {out : Except HttpError Outcome}
    (hexec : Exec Responds s (joinWaitlist sdk walletAddress email platform) asked out s')
    (hcareful : ∀ wallet, normalizeWallet walletAddress = .ok wallet →
      Careful s wallet (normalizeEmail sdk email) asked)
    (hsent : ∀ e c r, ⟨.sendMail e c, r⟩ ∈ asked → Sent e c) : Inv sdk Sent Verified s' := by
  rcases hexec.lift_bind_inv with ⟨error, -, -, -, rfl⟩ | ⟨wallet, hwallet, hbody⟩
  · exact h
  have hcare := hcareful wallet hwallet
  rcases hbody.bind_inv with ⟨error, hensure, -⟩ | ⟨_, t, free, rest, rfl, hensure, hfind⟩
  · rw [(ensureEmailIsFree_exec hensure).1]
    exact h
  rcases ensureEmailIsFree_exec hensure with ⟨ht, hne⟩
  rw [ht] at hfind
  rcases hfind.call_bind_inv with ⟨error, -, hrespond, -⟩ | ⟨user, t, rest, rfl, hrespond, hjoin⟩
  · rw [hrespond.error]
    exact h
  rw [hrespond.2] at hjoin
  rcases hjoin.bind_inv with ⟨error, hset, -⟩ | ⟨joinedAt, t, set, rest, rfl, hset, hpending⟩
  · exact (joinUser_exec h hcare.user hset).inv
  have hframe := joinUser_exec h hcare.user hset
  rcases hpending.call_bind_inv with ⟨error, -, hrespond, -⟩ |
    ⟨pending, u, rest, rfl, hrespond, hnow⟩
  · rw [hrespond.error]
    exact hframe.inv
  have hfound : pending = t.pending wallet := of_decide_eq_true hrespond.1
  rw [hrespond.2] at hnow
  rcases hnow.bind_inv with ⟨error, hor, -⟩ |
    ⟨waitlistJoinedAt, u, before, rest, rfl, hor, hregister⟩
  · rw [orNow_exec hor]
    exact hframe.inv
  rw [orNow_exec hor] at hregister
  have hrow : Readdressed (t.pending wallet) (normalizeEmail sdk email)
      { readdress pending (normalizeEmail sdk email) (normalizePlatform sdk platform) with
        waitlistJoinedAt := some waitlistJoinedAt } := by
    rw [← hfound]
    cases pending <;> exact ⟨rfl, rfl, rfl⟩
  exact hframe.register hrow (hlower email) (hne rfl) hcare.pending
    (fun x hx => by simp [hx]) hregister hsent

theorem Inv.resendOtp (h : Inv sdk Sent Verified s) {walletAddress : Text} {email : Option Text}
    {out : Except HttpError Outcome}
    (hexec : Exec Responds s (resendOtp sdk walletAddress email) asked out s')
    (hcareful : ∀ wallet e, normalizeWallet walletAddress = .ok wallet → email = some e →
      s.userOf wallet = none → KeepsCode s wallet (normalizeEmail sdk e) → Reissues s wallet asked)
    (hsent : ∀ e c r, ⟨.sendMail e c, r⟩ ∈ asked → Sent e c) : Inv sdk Sent Verified s' := by
  rcases hexec.lift_bind_inv with ⟨error, -, -, -, rfl⟩ | ⟨wallet, hwallet, hbody⟩
  · exact h
  rcases hbody.call_bind_inv with ⟨error, -, hrespond, -⟩ |
    ⟨existing, t, rest, rfl, hrespond, hexisting⟩
  · rw [hrespond.error]
    exact h
  have huser : existing = s.userOf wallet := of_decide_eq_true hrespond.1
  rw [hrespond.2] at hexisting
  split at hexisting
  · rw [getStep_exec hexisting]
    exact h
  rcases hexisting.call_bind_inv with ⟨error, -, hrespond, -⟩ |
    ⟨pending, t, rest, rfl, hrespond, hresend⟩
  · rw [hrespond.error]
    exact h
  have hpending : pending = s.pending wallet := of_decide_eq_true hrespond.1
  rw [hrespond.2] at hresend
  rcases hresend.bind_inv with ⟨error, hto, -⟩ | ⟨next, t, before, rest, rfl, hto, hissue⟩
  · rcases resendTo_exec hto with ⟨rfl, -⟩ | ⟨rfl, -⟩ | ⟨-, hout, -⟩
    · exact h
    · exact h
    · cases hout
  rcases resendTo_exec hto with ⟨-, error, hout⟩ | ⟨ht, hempty, hout⟩ | ⟨hne, hout, ht⟩
  · cases hout
  · -- the pending row as it is
    cases hout
    rw [ht] at hissue
    split at hissue
    · rw [(Exec.throw_iff.mp hissue).2.2]
      exact h
    · rename_i p hfilter
      rcases Option.filter_eq_some_iff.mp hfilter with ⟨hp, hfalsy⟩
      have hrow : s.pending wallet = some p := hpending.symm.trans hp
      have hsame : s = s.effect (.savePending wallet p) := by
        rw [OnboardingState.effect, ← hrow, Function.update_eq_self]
      refine hissue.bind_first (fun before _ _ hsub hcode => ?_) fun _ _ _ hend =>
        (Exec.pure_iff.mp hend).2.2
      cases hemail : p.email with
      | none => simp [hemail, falsy] at hfalsy
      | some e =>
          exact h.issue hemail (h.normal wallet p e hrow hemail) hsame hcode
            (fun e c r hmem => hsent e c r (by simp [hsub hmem])) fun _ => h
  · -- the new address
    cases hout
    cases hgiven : email with
    | none => simp [hgiven] at hne
    | some e =>
        simp only [hgiven, Option.map_some, Option.getD_some] at hne ht hissue
        have hrow := readdressed pending (normalizeEmail sdk e) none
        rw [hpending] at hrow ht hissue
        split at hissue
        · rename_i hfilter
          rw [Option.filter_eq_none_iff] at hfilter
          have hfalsy := hfilter _ rfl
          rw [hrow.email] at hfalsy
          simp [falsy, hne] at hfalsy
        · rename_i p hfilter
          rcases Option.filter_eq_some_iff.mp hfilter with ⟨hp, -⟩
          cases hp
          refine hissue.bind_first (fun before _ _ hsub hcode => ?_) fun _ _ _ hend =>
            (Exec.pure_iff.mp hend).2.2
          refine h.issueSaved hrow (hlower e) hne (fun hkeeps => ?_) ht hcode
            fun e c r hmem => hsent e c r (by simp [hsub hmem])
          refine (hcareful wallet e hwallet hgiven huser.symm hkeeps).mono rfl rfl fun x hx => ?_
          simp [hsub hx]

omit hlower in
theorem Inv.acceptTerms (h : Inv sdk Sent Verified s) {walletAddress : Text}
    {platform : Option Text}
    {out : Except HttpError Outcome}
    (hexec : Exec Responds s (acceptTerms sdk walletAddress platform) asked out s') :
    Inv sdk Sent Verified s' := by
  rcases hexec.lift_bind_inv with ⟨error, -, -, -, rfl⟩ | ⟨wallet, hwallet, hbody⟩
  · exact h
  rcases hbody.call_bind_inv with ⟨error, -, hrespond, -⟩ | ⟨now, t, rest, rfl, hrespond, hnow⟩
  · rw [hrespond.error]
    exact h
  rw [hrespond.2] at hnow
  rcases hnow.call_bind_inv with ⟨error, -, hrespond, -⟩ | ⟨user, t, rest, rfl, hrespond, huser⟩
  · rw [hrespond.error]
    exact h
  rw [hrespond.2] at huser
  split at huser
  · rcases huser.call_bind_inv with ⟨error, -, hrespond, -⟩ | ⟨_, t, rest, rfl, hrespond, hstep⟩
    · rw [hrespond.error]
      exact h
    · rw [getStep_exec hstep, hrespond.2]
      exact h.samePatch (by simp)
  · rcases huser.call_bind_inv with ⟨error, -, hrespond, -⟩ |
      ⟨pending, t, rest, rfl, hrespond, hfound⟩
    · rw [hrespond.error]
      exact h
    have hpending : pending = s.pending wallet := of_decide_eq_true hrespond.1
    rw [hrespond.2] at hfound
    rcases hfound.call_bind_inv with ⟨error, -, hrespond, -⟩ | ⟨_, t, rest, rfl, hrespond, hstep⟩
    · rw [hrespond.error]
      exact h
    rw [getStep_exec hstep, hrespond.2]
    cases pending with
    | none => exact h.savePending (by simp) (by simp)
    | some p =>
        exact h.savePending (fun code hcode => h.pending wallet p code hpending.symm hcode)
          fun e he => h.normal wallet p e hpending.symm he

omit hlower in
theorem newUserJoined_exec {pending : NotVerifiedUser} {currentUsers : Nat}
    {out : Except HttpError (Option Nat)}
    (h : Exec Responds s (newUserJoined pending currentUsers) asked out s') : s' = s := by
  unfold newUserJoined at h
  split at h
  · exact (Exec.pure_iff.mp h).2.2
  · rcases h.bind_inv with ⟨error, hor, -⟩ | ⟨t, u, before, rest, -, hor, hend⟩
    · exact orNow_exec hor
    · exact (Exec.pure_iff.mp hend).2.2.trans (orNow_exec hor)

/-- The transaction of a verification went through. -/
def Committed (wallet : Text) (asked : List Asked) : Prop :=
  (∃ patch, ⟨.syncUser wallet patch, .ok ()⟩ ∈ asked) ∨
    ∃ user, user.walletAddress = wallet ∧ ⟨.createUser user, .ok ()⟩ ∈ asked

omit hlower in
/-- The end of a verification writes the pending address, which is verified with it. -/
theorem Inv.verified (h : Inv sdk Sent Verified s) {pending : NotVerifiedUser}
    {workType email : Text}
    {requestPlatform : Option Text} {out : Except HttpError Outcome}
    (hemail : pending.email = some email) (hnormal : normalizeEmail sdk email = email)
    (hexec : Exec Responds s (verified sdk wallet pending workType requestPlatform) asked out s')
    (hcommitted : Committed wallet asked → Verified wallet email) : Inv sdk Sent Verified s' := by
  have hwritten : normalizeEmail sdk (pending.email.getD []) = email := by
    rw [hemail, Option.getD_some, hnormal]
  rcases hexec.bind_inv with ⟨error, hensure, -⟩ | ⟨_, t, before, rest, rfl, hensure, hfind⟩
  · rw [(ensureEmailIsFree_exec hensure).1]
    exact h
  rw [(ensureEmailIsFree_exec hensure).1] at hfind
  rcases hfind.call_bind_inv with ⟨error, -, hrespond, -⟩ |
    ⟨existing, t, rest, rfl, hrespond, hexisting⟩
  · rw [hrespond.error]
    exact h
  rw [hrespond.2] at hexisting
  split at hexisting
  · rcases hexisting.call_bind_inv with ⟨error, -, hrespond, -⟩ | ⟨_, t, rest, rfl, hrespond, hstep⟩
    · rw [hrespond.error]
      exact h
    · rw [getStep_exec hstep, hrespond.2]
      refine (h.patch fun u e _ he => ?_).deletePending wallet
      simp only [UserPatch.apply, verifiedPatch, Option.some_or, Option.some.injEq] at he
      rw [hwritten] at he
      subst he
      exact hcommitted
        (.inl ⟨_, List.mem_append_right _ (List.mem_cons_of_mem _ List.mem_cons_self)⟩)
  · rcases hexisting.call_bind_inv with ⟨error, -, hrespond, -⟩ |
      ⟨count, t, rest, rfl, hrespond, hcount⟩
    · rw [hrespond.error]
      exact h
    rw [hrespond.2] at hcount
    rcases hcount.bind_inv with ⟨error, hjoined, -⟩ | ⟨joined, t, time, rest, rfl, hjoined, hcreate⟩
    · rw [newUserJoined_exec hjoined]
      exact h
    rw [newUserJoined_exec hjoined] at hcreate
    rcases hcreate.call_bind_inv with ⟨error, -, hrespond, -⟩ | ⟨_, t, rest, rfl, hrespond, hlink⟩
    · rw [hrespond.error]
      exact h
    rcases hlink.caught_bind_inv with ⟨r, u, rest, rfl, hlinked, hstep⟩
    have hu : u = t := by
      rcases r with error | answer
      · exact hlinked.error
      · exact hlinked.2
    rw [getStep_exec hstep, hu, hrespond.2]
    refine (h.insert fun e he => ?_).deletePending wallet
    rw [hwritten] at he
    cases he
    have hmem := List.mem_append_right time (List.mem_cons_self (a := (⟨.createUser ⟨wallet,
      some (normalizeEmail sdk (pending.email.getD [])), (normalizePlatform sdk pending.platform).or
      requestPlatform, some workType, pending.termsAcceptedAt, joined⟩, .ok ()⟩ : Asked))
      (l := ⟨.linkAnalytics wallet, r⟩ :: rest))
    exact hcommitted (.inr ⟨_, rfl, List.mem_append_right _ (List.mem_cons_of_mem _
      (List.mem_cons_of_mem _ hmem))⟩)

omit hlower in
theorem Inv.verifyOtp (h : Inv sdk Sent Verified s) {walletAddress code workType : Text}
    {platform : Option Text} {out : Except HttpError Outcome}
    (hexec : Exec Responds s (verifyOtp sdk walletAddress code workType platform) asked out s')
    (hcommitted : ∀ wallet email c, normalizeWallet walletAddress = .ok wallet →
      Committed wallet asked →
      Sent email c → sdk.hashOtp (trim code) = sdk.hashOtp c → Verified wallet email) :
    Inv sdk Sent Verified s' := by
  rcases hexec.lift_bind_inv with ⟨error, -, -, -, rfl⟩ | ⟨wallet, hwallet, hbody⟩
  · exact h
  dsimp only at hbody
  split at hbody
  · rw [(Exec.throw_iff.mp hbody).2.2]
    exact h
  split at hbody
  · rw [(Exec.throw_iff.mp hbody).2.2]
    exact h
  rcases hbody.call_bind_inv with ⟨error, -, hrespond, -⟩ | ⟨found, t, rest, rfl, hrespond, hfound⟩
  · rw [hrespond.error]
    exact h
  have hpending : found = s.pending wallet := of_decide_eq_true hrespond.1
  rw [hrespond.2] at hfound
  split at hfound
  · -- no pending address: only the work type is written
    rcases hfound.call_bind_inv with ⟨error, -, hrespond, -⟩ |
      ⟨existing, t, rest, rfl, hrespond, huser⟩
    · rw [hrespond.error]
      exact h
    rw [hrespond.2] at huser
    split at huser
    · rw [(Exec.throw_iff.mp huser).2.2]
      exact h
    · rcases huser.call_bind_inv with ⟨error, -, hrespond, -⟩ | ⟨_, t, rest, rfl, hrespond, hstep⟩
      · rw [hrespond.error]
        exact h
      · rw [getStep_exec hstep, hrespond.2]
        exact h.samePatch (by simp)
  rename_i p hfilter
  rcases Option.filter_eq_some_iff.mp hfilter with ⟨hp, -⟩
  have hrow : s.pending wallet = some p := hpending.symm.trans hp
  split at hfound
  · rw [(Exec.throw_iff.mp hfound).2.2]
    exact h
  split at hfound
  · rw [(Exec.throw_iff.mp hfound).2.2]
    exact h
  rcases hfound.call_bind_inv with ⟨error, -, hrespond, -⟩ | ⟨now, t, rest, rfl, hrespond, hnow⟩
  · rw [hrespond.error]
    exact h
  rw [hrespond.2] at hnow
  split at hnow
  · rw [(Exec.throw_iff.mp hnow).2.2]
    exact h
  split at hnow
  · rw [(Exec.throw_iff.mp hnow).2.2]
    exact h
  split at hnow
  · -- a wrong code is counted
    rcases hnow.call_bind_inv with ⟨error, -, hrespond, -⟩ | ⟨_, t, rest, rfl, hrespond, hthrow⟩
    · rw [hrespond.error]
      exact h
    · rw [(Exec.throw_iff.mp hthrow).2.2, hrespond.2]
      exact h.savePending (fun digest hdigest => h.pending wallet p digest hrow hdigest)
        fun e he => h.normal wallet p e hrow he
  · rename_i hmatch
    have hcode : p.otpCode = some (sdk.hashOtp (trim code)) := not_not.mp hmatch
    rcases h.pending wallet p _ hrow hcode with ⟨email, c, hemail, hdigest, hsent⟩
    refine h.verified hemail (h.normal wallet p email hrow hemail) hnow fun hcommit => ?_
    refine hcommitted wallet email c hwallet ?_ hsent hdigest
    rcases hcommit with ⟨patch, hmem⟩ | ⟨user, huser, hmem⟩
    · exact .inl ⟨patch, List.mem_cons_of_mem _ (List.mem_cons_of_mem _ hmem)⟩
    · exact .inr ⟨user, huser, List.mem_cons_of_mem _ (List.mem_cons_of_mem _ hmem)⟩

/-! ## Histories -/

/-- A call of the history handed the code for the address to the mailer, which took it. -/
def SentBy (events : List Event) (email code : Text) : Prop :=
  ∃ request asked out, Event.call request asked out ∈ events ∧
    ⟨.sendMail email code, .ok ()⟩ ∈ asked

/-- The mailer took every code it was handed. -/
def Mailed (asked : List Asked) : Prop :=
  ∀ email code error, ⟨.sendMail email code, .error error⟩ ∉ asked

/-- A verification of the history, with a code that had been sent to the address, went
through for the wallet. Codes are compared by their digests. -/
def VerifiedBy (sdk : OnboardingSdk) (events : List Event) (wallet email : Text) : Prop :=
  ∃ past rest walletAddress code workType platform asked out sent,
    events = past ++ .call (.verifyOtp walletAddress code workType platform) asked out :: rest ∧
      normalizeWallet walletAddress = .ok wallet ∧ Committed wallet asked ∧
      SentBy past email sent ∧ sdk.hashOtp (trim code) = sdk.hashOtp sent

/-- The condition on the calls that write an address or send a code. -/
def CarefulCall (sdk : OnboardingSdk) (s : OnboardingState) : Event → Prop
  | .call (.verifyEmail walletAddress email _) asked _ =>
      Mailed asked ∧ ∀ wallet, normalizeWallet walletAddress = .ok wallet →
        Careful s wallet (normalizeEmail sdk email) asked
  | .call (.joinWaitlist walletAddress email _) asked _ =>
      Mailed asked ∧ ∀ wallet, normalizeWallet walletAddress = .ok wallet →
        Careful s wallet (normalizeEmail sdk email) asked
  | .call (.resendOtp walletAddress email) asked _ =>
      Mailed asked ∧ ∀ wallet address, normalizeWallet walletAddress = .ok wallet →
        email = some address → s.userOf wallet = none →
        KeepsCode s wallet (normalizeEmail sdk address) → Reissues s wallet asked
  | _ => True

omit hlower in
theorem SentBy.snoc {events : List Event} {email code : Text} (h : SentBy events email code)
    (event : Event) : SentBy (events ++ [event]) email code := by
  rcases h with ⟨request, asked, out, hmem, hsend⟩
  exact ⟨request, asked, out, List.mem_append_left _ hmem, hsend⟩

omit hlower in
/-- What a call handed to a mailer that took every code was sent. -/
theorem SentBy.last {events : List Event} {request : Request} {out : Except HttpError Outcome}
    (hmailed : Mailed asked) (email code : Text) (r : Except HttpError Unit)
    (hmem : ⟨.sendMail email code, r⟩ ∈ asked) :
    SentBy (events ++ [.call request asked out]) email code := by
  cases r with
  | error error => exact absurd hmem (hmailed email code error)
  | ok answer => exact ⟨request, asked, out, by simp, hmem⟩

omit hlower in
theorem VerifiedBy.snoc {events : List Event} {wallet email : Text}
    (h : VerifiedBy sdk events wallet email) (event : Event) :
    VerifiedBy sdk (events ++ [event]) wallet email := by
  rcases h with ⟨past, rest, w, code, workType, platform, asked, out, sent, rfl, hw, hc, hs, hd⟩
  exact ⟨past, rest ++ [event], w, code, workType, platform, asked, out, sent,
    by simp, hw, hc, hs, hd⟩

theorem Inv.step {events : List Event} {event : Event}
    (h : Inv sdk (SentBy events) (VerifiedBy sdk events) s) (hstep : Step sdk s event s')
    (hcareful : CarefulCall sdk s event) :
    Inv sdk (SentBy (events ++ [event])) (VerifiedBy sdk (events ++ [event])) s' := by
  have hverified := h.mono (fun _ _ hsent => hsent) fun w e hv => hv.snoc event
  have hlater := h.mono (fun e c hsent => hsent.snoc event) fun w e hv => hv.snoc event
  cases hstep with
  | tick ms => exact ⟨hlater.pending, hlater.normal, hlater.users⟩
  | @call _ request asked out hexec =>
      cases request with
      | acceptTerms walletAddress platform => exact hlater.acceptTerms hexec
      | verifyEmail walletAddress email platform =>
          exact hlater.verifyEmail hlower hexec hcareful.2 (SentBy.last hcareful.1)
      | joinWaitlist walletAddress email platform =>
          exact hlater.joinWaitlist hlower hexec hcareful.2 (SentBy.last hcareful.1)
      | resendOtp walletAddress email =>
          exact hlater.resendOtp hlower hexec hcareful.2 (SentBy.last hcareful.1)
      | verifyOtp walletAddress code workType platform =>
          refine (hverified.verifyOtp hexec ?_).mono (fun e c hs => hs.snoc _) fun _ _ hv => hv
          intro wallet email c hwallet hcommit hs hdigest
          exact ⟨events, [], walletAddress, code, workType, platform, asked, out, c, rfl, hwallet,
            hcommit, hs, hdigest⟩

/-- From empty tables, every stored email was verified, as long as no call writes the
address of a user or leaves the code of another address pending, and the mailer takes
every code. -/
theorem stored_email_verified {events : List Event} (husers : s.users = [])
    (hpending : ∀ wallet, s.pending wallet = none) (run : Run (Step sdk) s events s')
    (hcareful : ∀ k u event u', StepAt (Step sdk) s events k u event u' → CarefulCall sdk u event)
    {user : User} {email : Text} (huser : s'.userOf wallet = some user)
    (hemail : user.email = some email) : VerifiedBy sdk events wallet email := by
  have hinv : Inv sdk (SentBy events) (VerifiedBy sdk events) s' := by
    have hrun := run.with_steps hcareful
    clear run hcareful huser
    induction hrun with
    | nil =>
        exact ⟨fun w p _ hp => absurd hp (by simp [hpending]),
          fun w p _ hp => absurd hp (by simp [hpending]), fun w u _ hu =>
          absurd hu (by simp [OnboardingState.userOf, husers])⟩
    | snoc _ hstep ih => exact ih.step hlower hstep.1 hstep.2
  exact hinv.users wallet user email huser hemail

/-! ## Two emails before one code -/

omit hlower

/-- SHA-256 of the first code, in two lines. -/
def sampleDigest : Text :=
  "3bb78535cc9555ff19fe3556aaa41c78".toList ++
  "a0a45c64d49ba2bc564507648a8e77a1".toList

def sampleCode : Text := "100000".toList

def sampleSdk : OnboardingSdk where
  toLowerCase := id
  hashOtp code := if code = sampleCode then sampleDigest else code

def sampleWallet : Text := '0' :: 'x' :: List.replicate 40 '1'

def emptyTables : OnboardingState := ⟨0, [], fun _ => none⟩

/-- An answer for each call: no user is early, and every code is the smallest one. -/
def OnboardingState.sampleAnswer (s : OnboardingState) : (ask : Ask) → Answer ask
  | .newDate => s.now
  | .randomInt => 100000
  | .findUser wallet => s.userOf wallet
  | .findByEmail email => (s.users.find? fun user => user.email = some email).map User.walletAddress
  | .updateUser _ _ => ()
  | .findPending wallet => s.pending wallet
  | .savePending _ _ => ()
  | .syncUser _ _ => ()
  | .createUser _ => ()
  | .countUsers _ => s.users.length
  | .isEarlyUser _ => false
  | .sendMail _ _ => ()
  | .linkAnalytics _ => ()
  | .getStepByWallet _ _ => []

/-- A call throws only where the tables refuse it. -/
def sampleWorld (s : OnboardingState) (ask : Ask) :
    Except HttpError (Answer ask) × OnboardingState :=
  if s.answers ask (s.sampleAnswer ask) = true then (.ok (s.sampleAnswer ask), s.effect ask)
  else (.error ⟨.rejected, ""⟩, s)

theorem sampleWorld_responds (s : OnboardingState) (ask : Ask) :
    Responds s ⟨ask, (sampleWorld s ask).1⟩ (sampleWorld s ask).2 := by
  unfold sampleWorld
  split
  · rename_i hanswers
    exact ⟨hanswers, rfl⟩
  · rename_i hrefused
    refine ⟨?_, rfl⟩
    cases ask with
    | newDate | randomInt =>
        simp [OnboardingState.answers, OnboardingState.sampleAnswer] at hrefused
    | _ => rfl

/-- The calls one after the other. -/
def perform : OnboardingState → List Request → List Event × OnboardingState
  | s, [] => ([], s)
  | s, request :: requests =>
      let x := Exec.simulate sampleWorld s (request.program sampleSdk)
      let rest := perform x.2.2 requests
      (.call request x.1 x.2.1 :: rest.1, rest.2)

theorem perform_run (s : OnboardingState) (requests : List Request) :
    Run (Step sampleSdk) s (perform s requests).1 (perform s requests).2 := by
  induction requests generalizing s with
  | nil => exact .nil s
  | cons request requests ih =>
      exact (Run.single (.call (Exec.of_simulate sampleWorld_responds _ s))).append (ih _)

def firstEmail : Text := "a@x.io".toList

def secondEmail : Text := "b@x.io".toList

/-- The user that verified the first email. -/
def sampleUser : User := ⟨sampleWallet, some firstEmail, none, some "dev".toList, none, some 0⟩

def honest : List Request :=
  [.verifyEmail sampleWallet firstEmail none, .verifyOtp sampleWallet sampleCode "dev".toList none]

theorem sample_lower (email : Text) : normalizeEmail sampleSdk (normalizeEmail sampleSdk email) =
    normalizeEmail sampleSdk email := trim_trim email

theorem stored_email_verified_sample :
    (perform emptyTables honest).2.userOf sampleWallet = some sampleUser ∧
      VerifiedBy sampleSdk (perform emptyTables honest).1 sampleWallet firstEmail := by
  have huser : (perform emptyTables honest).2.userOf sampleWallet = some sampleUser := by
    decide +kernel
  refine ⟨huser, stored_email_verified sample_lower rfl (fun _ => rfl)
    (perform_run emptyTables honest) (fun k u event u' hat => ?_) huser rfl⟩
  have hfound := hat.found
  match k with
  | 0 =>
      cases hfound
      have hstart := hat.before.nil_inv
      refine ⟨fun email code error hmem => ?_,
        fun wallet _ => ⟨fun user hu => ?_, fun hkeeps => ?_⟩⟩
      · have hall : (perform emptyTables honest).1.head?.all (fun event => match event with
            | .call _ asked _ => asked.all fun x => match x with
              | ⟨.sendMail _ _, .error _⟩ => false
              | _ => true
            | .tick _ => true) = true := by decide +kernel
        exact absurd (List.all_eq_true.mp hall _ hmem) (by simp)
      · rw [← hstart] at hu
        cases hu
      · rcases hkeeps with ⟨p, hp, -⟩
        rw [← hstart] at hp
        cases hp
  | 1 =>
      cases hfound
      trivial
  | k + 2 => cases hfound

/-- The code of the first address confirms the second, whose own code was held back. -/
def switched : List Request :=
  [.verifyEmail sampleWallet firstEmail none, .verifyEmail sampleWallet secondEmail none,
   .verifyOtp sampleWallet sampleCode "dev".toList none]

/-- No code went to the second address. -/
theorem switched_unsent (code : Text) :
    ¬ SentBy (perform emptyTables switched).1 secondEmail code := by
  have hnone : ∀ event ∈ (perform emptyTables switched).1, ∀ request asked out,
      event = .call request asked out → asked.all (fun x => match x with
        | ⟨.sendMail recipient _, _⟩ => recipient ≠ secondEmail
        | _ => true) = true := by
    intro event hmem request asked out heq
    have hall : ((perform emptyTables switched).1.all fun event => match event with
        | .call _ asked _ => asked.all fun x => match x with
          | ⟨.sendMail recipient _, _⟩ => recipient ≠ secondEmail
          | _ => true
        | .tick _ => true) = true := by decide +kernel
    have hevent := List.all_eq_true.mp hall event hmem
    rw [heq] at hevent
    exact hevent
  rintro ⟨request, asked, out, hmem, hsend⟩
  have hasked := List.all_eq_true.mp (hnone _ hmem request asked out rfl) _ hsend
  simp at hasked

theorem stored_email_unverified :
    ¬ ∀ (s' : OnboardingState) (events : List Event) (wallet email : Text) (user : User),
      Run (Step sampleSdk) emptyTables events s' → s'.userOf wallet = some user →
      user.email = some email → VerifiedBy sampleSdk events wallet email := by
  intro h
  have huser : (perform emptyTables switched).2.userOf sampleWallet =
      some { sampleUser with email := some secondEmail } := by decide +kernel
  rcases h _ _ sampleWallet secondEmail _ (perform_run emptyTables switched) huser rfl with
    ⟨past, rest, walletAddress, code, workType, platform, asked, out, sent, hevents, -, -, hsent, -⟩
  rcases hsent with ⟨request, asked', out', hmem, hsend⟩
  exact switched_unsent sent ⟨request, asked', out', hevents ▸ List.mem_append_left _ hmem, hsend⟩

end Onboarding

end Lendoor.Backend
