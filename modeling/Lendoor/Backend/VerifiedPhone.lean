import Lendoor.Backend.AccountId
import Lendoor.Backend.PhoneOtp

/-! # Verified phones

What a stored number guarantees. A code is stored without the number it was sent to, and
it is compared and taken away in two steps, so the guarantee asks for requests that do
not mix numbers and do not overlap.
-/

namespace Lendoor.Backend

open Cctp (Text falsy)
open Async (call lift Exchange Trace Awaits AsksOnly)

namespace PhoneOtp

theorem walletOf_idem {walletAddress wallet : Text} (h : walletOf walletAddress = .ok wallet) :
    walletOf wallet = .ok wallet := by
  unfold walletOf at h ⊢
  cases hnormal : normalizeWallet walletAddress with
  | error error =>
      rw [hnormal] at h
      cases h
  | ok w =>
      rw [hnormal] at h
      cases h
      rw [normalizeWallet_idem hnormal]
      rfl

/-! ## What the requests ask -/

/-- The calls that neither write a code, a number or a check, nor send. -/
def Quiet : Ask → Prop
  | .dateNow => True
  | .random => True
  | .findUser _ => True
  | .findByPhone _ => True
  | .storeSentAt _ _ => True
  | _ => False

theorem findUserOrThrow_quiet (wallet : Text) : (findUserOrThrow wallet).AsksOnly Quiet := by
  refine AsksOnly.bind (AsksOnly.call trivial) fun user => ?_
  cases user <;> trivial

theorem findUserOrThrow_asked {wallet : Text} {user : User} {asked : List Asked}
    (h : Trace (findUserOrThrow wallet) asked (.ok user)) : asked ≠ [] := by
  rcases Async.trace_call_bind.mp h with ⟨_, _, hout⟩ | ⟨_, rest, rfl, -⟩
  · cases hout
  · simp

theorem ensurePhoneIsFreeForWallet_quiet (phone wallet : Text) :
    (ensurePhoneIsFreeForWallet phone wallet).AsksOnly Quiet := by
  refine AsksOnly.bind (AsksOnly.call trivial) fun existing => ?_
  split
  · trivial
  · split <;> trivial

theorem assertPhoneOtpThrottle_quiet (user : User) :
    (assertPhoneOtpThrottle user).AsksOnly Quiet := by
  unfold assertPhoneOtpThrottle
  split
  · trivial
  · refine AsksOnly.bind (AsksOnly.call trivial) fun now => ?_
    split <;> trivial

variable {kapso : Bool} {phone code wallet walletAddress : Text} {asked : List Asked} {ask : Ask}

/-- Where the sending of a code stands. -/
inductive SendingAt (phone wallet : Text) : List Asked → Ask → Prop
  | random : SendingAt phone wallet [] .random
  | dateNow (n : Nat) : SendingAt phone wallet [⟨.random, .ok n⟩] .dateNow
  | storeCode (n t : Nat) : SendingAt phone wallet [⟨.random, .ok n⟩, ⟨.dateNow, .ok t⟩]
      (.storeCode wallet (codeOf n) (t + 10 * 60000))
  | sendTemplate (n t : Nat) : SendingAt phone wallet [⟨.random, .ok n⟩, ⟨.dateNow, .ok t⟩,
      ⟨.storeCode wallet (codeOf n) (t + 10 * 60000), .ok ()⟩] (.sendTemplate phone (codeOf n))
  | sendText (n t : Nat) (error : Thrown) : SendingAt phone wallet
      [⟨.random, .ok n⟩, ⟨.dateNow, .ok t⟩, ⟨.storeCode wallet (codeOf n) (t + 10 * 60000), .ok ()⟩,
        ⟨.sendTemplate phone (codeOf n), .error error⟩]
      (.sendText phone (otpBody (codeOf n)))

theorem sendVerification_awaits (hwallet : walletOf wallet = .ok wallet)
    (h : Awaits (sendVerification kapso phone wallet) asked ask) :
    SendingAt phone wallet asked ask := by
  rcases Async.awaits_lift_bind.mp h with ⟨w, hw, hbody⟩
  cases hwallet.symm.trans hw
  rcases Async.awaits_call_bind.mp hbody with ⟨rfl, rfl⟩ | ⟨n, rest, rfl, hcode⟩
  · exact .random
  rcases Async.awaits_call_bind.mp hcode with ⟨rfl, rfl⟩ | ⟨t, rest, rfl, hnow⟩
  · exact .dateNow n
  rcases Async.awaits_call_bind.mp hnow with ⟨rfl, rfl⟩ | ⟨_, rest, rfl, hstored⟩
  · exact .storeCode n t
  split at hstored
  · rcases Async.awaits_caught_bind.mp hstored with ⟨rfl, rfl⟩ | ⟨r, rest, rfl, htemplate⟩
    · exact .sendTemplate n t
    cases r with
    | ok _ => exact absurd htemplate Async.not_awaits_pure
    | error error =>
        rcases Async.awaits_caught_bind.mp htemplate with ⟨rfl, rfl⟩ | ⟨r, rest, rfl, htext⟩
        · exact .sendText n t error
        · exact absurd htext Async.not_awaits_pure
  · exact absurd hstored Async.not_awaits_pure

/-- A request that is about to write or send is at the sending of its code. -/
theorem beginVerification_awaits
    (h : Awaits (beginVerification kapso walletAddress phone) asked ask)
    (hloud : ¬Quiet ask) :
    ∃ wallet before after, walletOf walletAddress = .ok wallet ∧ asked = before ++ after ∧
      (∀ x ∈ before, Quiet x.1) ∧ SendingAt phone wallet after ask := by
  rcases Async.awaits_lift_bind.mp h with ⟨wallet, hwallet, hbody⟩
  rcases Async.awaits_bind.mp hbody with hquiet | ⟨user, before₁, rest, rfl, huser, hfound⟩
  · exact absurd ((findUserOrThrow_quiet wallet).awaits hquiet) hloud
  rcases Async.awaits_bind.mp hfound with hquiet | ⟨_, before₂, rest, rfl, hfree, hensured⟩
  · exact absurd ((ensurePhoneIsFreeForWallet_quiet phone wallet).awaits hquiet) hloud
  rcases Async.awaits_bind.mp hensured with hquiet | ⟨_, before₃, rest, rfl, hthrottle, hsending⟩
  · exact absurd ((assertPhoneOtpThrottle_quiet user).awaits hquiet) hloud
  have hquiet : ∀ x ∈ before₁ ++ before₂ ++ before₃, Quiet x.1 := by
    intro x hx
    rcases List.mem_append.mp hx with hx | hx
    · rcases List.mem_append.mp hx with hx | hx
      · exact (findUserOrThrow_quiet wallet).of_mem_trace huser x hx
      · exact (ensurePhoneIsFreeForWallet_quiet phone wallet).of_mem_trace hfree x hx
    · exact (assertPhoneOtpThrottle_quiet user).of_mem_trace hthrottle x hx
  rcases Async.awaits_bind.mp hsending with hsend | ⟨_, sending, rest, rfl, -, hsent⟩
  · exact ⟨wallet, before₁ ++ before₂ ++ before₃, rest, hwallet, by simp, hquiet,
      sendVerification_awaits (walletOf_idem hwallet) hsend⟩
  rcases Async.awaits_call_bind.mp hsent with ⟨-, rfl⟩ | ⟨now, rest, rfl, hnow⟩
  · exact absurd trivial hloud
  · rcases Async.awaits_call.mp hnow with ⟨-, rfl⟩
    exact absurd trivial hloud

/-- A check that passed: the row it read, and its clock. -/
structure Passes (code wallet : Text) (t : Nat) (reads : List Asked) : Prop where
  passed : ∃ user expiresAt, reads = [⟨.findUser wallet, .ok (some user)⟩, ⟨.dateNow, .ok t⟩] ∧
    user.phoneOtpCode = some code ∧ user.phoneOtpExpiresAt = some expiresAt ∧ t ≤ expiresAt

theorem checkVerification_awaits (hwallet : walletOf wallet = .ok wallet)
    (h : Awaits (checkVerification phone code wallet) asked ask) :
    Quiet ask ∨ (ask = .clearCode wallet ∧ ∃ t, Passes code wallet t asked) := by
  rcases Async.awaits_lift_bind.mp h with ⟨w, hw, hbody⟩
  cases hwallet.symm.trans hw
  rcases Async.awaits_call_bind.mp hbody with ⟨-, rfl⟩ | ⟨found, rest, rfl, hfound⟩
  · exact .inl trivial
  split at hfound
  · exact absurd hfound Async.not_awaits_pure
  rename_i user
  split at hfound
  · exact absurd hfound Async.not_awaits_pure
  rename_i expiresAt hexpires
  split at hfound
  · exact absurd hfound Async.not_awaits_pure
  rcases Async.awaits_call_bind.mp hfound with ⟨-, rfl⟩ | ⟨t, rest, rfl, hnow⟩
  · exact .inl trivial
  split at hnow
  · exact absurd hnow Async.not_awaits_pure
  rename_i hlive
  split at hnow
  · rename_i hcode
    rcases Async.awaits_call_bind.mp hnow with ⟨rfl, rfl⟩ | ⟨_, rest, rfl, hcleared⟩
    · exact .inr ⟨rfl, t, user, expiresAt, rfl, hcode, hexpires, Nat.le_of_not_lt hlive⟩
    · exact absurd hcleared Async.not_awaits_pure
  · exact absurd hnow Async.not_awaits_pure

theorem checkVerification_trace (hwallet : walletOf wallet = .ok wallet)
    (h : Trace (checkVerification phone code wallet) asked (.ok true)) :
    ∃ reads t, Passes code wallet t reads ∧ asked = reads ++ [⟨.clearCode wallet, .ok ()⟩] := by
  rcases Async.trace_lift_bind.mp h with ⟨_, _, _, hout⟩ | ⟨w, hw, hbody⟩
  · cases hout
  cases hwallet.symm.trans hw
  rcases Async.trace_call_bind.mp hbody with ⟨_, _, hout⟩ | ⟨found, rest, rfl, hfound⟩
  · cases hout
  split at hfound
  · cases (Async.trace_pure.mp hfound).2
  rename_i user
  split at hfound
  · cases (Async.trace_pure.mp hfound).2
  rename_i expiresAt hexpires
  split at hfound
  · cases (Async.trace_pure.mp hfound).2
  rcases Async.trace_call_bind.mp hfound with ⟨_, _, hout⟩ | ⟨t, rest, rfl, hnow⟩
  · cases hout
  split at hnow
  · cases (Async.trace_pure.mp hnow).2
  rename_i hlive
  split at hnow
  · rename_i hcode
    rcases Async.trace_call_bind.mp hnow with ⟨_, _, hout⟩ | ⟨_, rest, rfl, hcleared⟩
    · cases hout
    rcases Async.trace_pure.mp hcleared with ⟨rfl, -⟩
    exact ⟨_, t, ⟨user, expiresAt, rfl, hcode, hexpires, Nat.le_of_not_lt hlive⟩, rfl⟩
  · cases (Async.trace_pure.mp hnow).2

/-- Where a verification stands that is about to write. -/
inductive VerifyingAt (phone code wallet : Text) : List Asked → Ask → Prop
  | clearCode {before reads : List Asked} {t : Nat} : before ≠ [] → (∀ x ∈ before, Quiet x.1) →
      Passes code wallet t reads →
      VerifyingAt phone code wallet (before ++ reads) (.clearCode wallet)
  | storePhone {before reads : List Asked} {t : Nat} (now : Nat) : (∀ x ∈ before, Quiet x.1) →
      Passes code wallet t reads →
      VerifyingAt phone code wallet
      (before ++ (reads ++ [⟨.clearCode wallet, .ok ()⟩, ⟨.dateNow, .ok now⟩]))
        (.storePhone wallet phone now)

theorem verifyPhoneOtp_awaits (h : Awaits (verifyPhoneOtp walletAddress phone code) asked ask)
    (hloud : ¬Quiet ask) :
    ∃ wallet, walletOf walletAddress = .ok wallet ∧ VerifyingAt phone code wallet asked ask := by
  rcases Async.awaits_lift_bind.mp h with ⟨wallet, hwallet, hbody⟩
  refine ⟨wallet, hwallet, ?_⟩
  rcases Async.awaits_bind.mp hbody with hquiet | ⟨user, before₁, rest, rfl, huser, hfound⟩
  · exact absurd ((findUserOrThrow_quiet wallet).awaits hquiet) hloud
  rcases Async.awaits_bind.mp hfound with hquiet | ⟨_, before₂, rest, rfl, hfree, hensured⟩
  · exact absurd ((ensurePhoneIsFreeForWallet_quiet phone wallet).awaits hquiet) hloud
  have hquiet : ∀ x ∈ before₁ ++ before₂, Quiet x.1 := by
    intro x hx
    rcases List.mem_append.mp hx with hx | hx
    · exact (findUserOrThrow_quiet wallet).of_mem_trace huser x hx
    · exact (ensurePhoneIsFreeForWallet_quiet phone wallet).of_mem_trace hfree x hx
  rw [← List.append_assoc]
  rcases Async.awaits_bind.mp hensured with hcheck |
    ⟨approved, checked, rest, rfl, hcheck, happroved⟩
  · rcases checkVerification_awaits (walletOf_idem hwallet) hcheck with hquiet' | ⟨rfl, t, hpasses⟩
    · exact absurd hquiet' hloud
    · exact .clearCode (by simp [findUserOrThrow_asked huser]) hquiet hpasses
  split at happroved
  · exact absurd happroved Async.not_awaits_throw
  rename_i htrue
  rw [Bool.not_eq_false] at htrue
  subst htrue
  rcases checkVerification_trace (walletOf_idem hwallet) hcheck with ⟨reads, t, hpasses, rfl⟩
  rcases Async.awaits_call_bind.mp happroved with ⟨-, rfl⟩ | ⟨now, rest, rfl, hnow⟩
  · exact absurd trivial hloud
  rcases Async.awaits_caught_bind.mp hnow with ⟨rfl, rfl⟩ | ⟨r, rest, rfl, hupdated⟩
  · have hat : VerifyingAt phone code wallet _ _ := .storePhone now hquiet hpasses
    simpa only [List.append_assoc, List.singleton_append] using hat
  · split at hupdated
    · exact absurd hupdated Async.not_awaits_pure
    · split at hupdated <;> exact absurd hupdated Async.not_awaits_throw

/-- A request that is about to write or send, by its kind. -/
theorem Request.loud {r : Request} (h : Awaits (r.program kapso) asked ask) (hloud : ¬Quiet ask) :
    ∃ wallet, walletOf r.walletAddress = .ok wallet ∧
      ((∃ before after, asked = before ++ after ∧ (∀ x ∈ before, Quiet x.1) ∧
        SendingAt r.phone wallet after ask) ∨
        ∃ walletAddress phone code, r = .verifyPhoneOtp walletAddress phone code ∧
          VerifyingAt phone code wallet asked ask) := by
  cases r with
  | verifyPhone walletAddress phone | resendPhoneOtp walletAddress phone
  | updatePhone walletAddress phone =>
      rcases beginVerification_awaits h hloud
        with ⟨wallet, before, after, hwallet, hasked, hquiet, hat⟩
      exact ⟨wallet, hwallet, .inl ⟨before, after, hasked, hquiet, hat⟩⟩
  | verifyPhoneOtp walletAddress phone code =>
      rcases verifyPhoneOtp_awaits h hloud with ⟨wallet, hwallet, hat⟩
      exact ⟨wallet, hwallet, .inr ⟨walletAddress, phone, code, rfl, hat⟩⟩

/-- A check has found the code it was given in the row, which a verification reads twice,
and has not taken it away yet. -/
def Reading (r : Request) (wallet code : Text) (asked : List Asked) : Prop :=
  ∃ walletAddress phone user before after, r = .verifyPhoneOtp walletAddress phone code ∧
    before ≠ [] ∧ asked = before ++ ⟨.findUser wallet, .ok (some user)⟩ :: after ∧
    user.phoneOtpCode = some code ∧ ∀ r, ⟨.clearCode wallet, r⟩ ∉ asked

theorem not_reading_nil (r : Request) (wallet code : Text) : ¬Reading r wallet code [] := by
  rintro ⟨_, _, _, before, after, -, hne, hasked, -⟩
  exact hne (List.append_eq_nil_iff.mp hasked.symm).1

/-- A check that has found its code had found it before, or has just read the row. -/
theorem Reading.snoc_cases {r : Request} {x : Asked} (h : Reading r wallet code (asked ++ [x])) :
    Reading r wallet code asked ∨
      ∃ user, x = ⟨.findUser wallet, .ok (some user)⟩ ∧ user.phoneOtpCode = some code := by
  rcases h with ⟨walletAddress, phone, user, before, after, hr, hne, hasked, hcode, hclear⟩
  rcases after.eq_nil_or_concat with rfl | ⟨after, y, rfl⟩
  · rcases List.append_inj' hasked rfl with ⟨-, hlast⟩
    exact .inr ⟨user, (List.cons.inj hlast).1, hcode⟩
  · rw [List.concat_eq_append, ← List.cons_append, ← List.append_assoc] at hasked
    rcases List.append_inj' hasked rfl with ⟨hbefore, -⟩
    exact .inl ⟨walletAddress, phone, user, before, after, hr, hne, hbefore, hcode,
      fun r hmem => hclear r (List.mem_append_left _ hmem)⟩

/-- A check is about to take away the code that it has found. -/
theorem VerifyingAt.reading {r : Request}
    (h : VerifyingAt phone code wallet asked (.clearCode wallet))
    (hr : r = .verifyPhoneOtp walletAddress phone code) : Reading r wallet code asked := by
  cases h with
  | @clearCode before reads t hne hquiet hpasses =>
      rcases hpasses.passed with ⟨user, expiresAt, rfl, hcode, -, -⟩
      refine ⟨walletAddress, phone, user, before, _, hr, hne, rfl, hcode, fun r hmem => ?_⟩
      rcases List.mem_append.mp hmem with hmem | hmem
      · exact hquiet _ hmem
      · simp at hmem

/-- A check stores no code. -/
theorem not_awaits_storeCode {expiresAt : Nat} {w c : Text} :
    ¬Awaits (verifyPhoneOtp walletAddress phone code) asked (.storeCode w c expiresAt) := by
  intro h
  rcases verifyPhoneOtp_awaits h (fun hquiet => hquiet) with ⟨wallet, -, hat⟩
  cases hat

/-! ## What an exchange changes -/

section Effects

variable {ι : Type} [DecidableEq ι] {i : ι} {s s' : PhoneState ι} {x : Asked}

/-- The messages of a call. -/
def Sends (recipient body : Text) : Ask → Prop
  | .sendTemplate r b => r = recipient ∧ b = body
  | .sendText r b => r = recipient ∧ b = body
  | _ => False

/-- Codes are at most taken away. -/
structure Calm (s s' : PhoneState ι) : Prop where
  now : s'.now = s.now
  issue : s'.issue = s.issue
  sent : s'.sent = s.sent
  users : ∀ user' ∈ s'.users, ∃ user ∈ s.users, user.walletAddress = user'.walletAddress ∧
    (user'.phoneOtpCode = user.phoneOtpCode ∨ user'.phoneOtpCode = none) ∧
    (user'.phoneOtpExpiresAt = user.phoneOtpExpiresAt ∨ user'.phoneOtpExpiresAt = none)

omit [DecidableEq ι] in
theorem Calm.refl (s : PhoneState ι) : Calm s s :=
  ⟨rfl, rfl, rfl, fun user hmem => ⟨user, hmem, rfl, .inl rfl, .inl rfl⟩⟩

omit [DecidableEq ι] in
theorem Calm.update {wallet : Text} {patch : User → User}
    (hpatch : ∀ user, (patch user).walletAddress = user.walletAddress ∧
      ((patch user).phoneOtpCode = user.phoneOtpCode ∨ (patch user).phoneOtpCode = none) ∧
      ((patch user).phoneOtpExpiresAt = user.phoneOtpExpiresAt ∨
        (patch user).phoneOtpExpiresAt = none)) :
    Calm s (s.update wallet patch) := by
  refine ⟨rfl, rfl, rfl, fun user' hmem => ?_⟩
  rcases List.mem_map.mp hmem with ⟨user, huser, rfl⟩
  refine ⟨user, huser, ?_⟩
  split
  · exact ⟨(hpatch user).1.symm, (hpatch user).2⟩
  · exact ⟨rfl, .inl rfl, .inl rfl⟩

/-- An exchange stores a code, or sends one, or is calm. -/
theorem Responds.cases (h : Responds i s x s') :
    (Calm s s' ∧ ∀ wallet code expiresAt, x ≠ ⟨.storeCode wallet code expiresAt, .ok ()⟩) ∨
      (∃ wallet code expiresAt, x.1 = .storeCode wallet code expiresAt ∧
      s' = s.issueCode i wallet code expiresAt) ∨
      ∃ recipient body, Sends recipient body x.1 ∧ s' = s.send i recipient body := by
  rcases x with ⟨ask, r⟩
  have heffect : (s' = s ∧ ∃ error, r = .error error) ∨ s' = s.effect i ask := by
    cases r with
    | ok answer => exact .inr h.2
    | error error =>
        rcases h.2 with hsame | ⟨_, -, heffect⟩
        · exact .inl ⟨hsame, error, rfl⟩
        · exact .inr heffect
  rcases heffect with ⟨rfl, error, rfl⟩ | rfl
  · exact .inl ⟨.refl _, fun wallet code expiresAt heq => by cases heq⟩
  cases ask with
  | storeCode wallet code expiresAt => exact .inr (.inl ⟨wallet, code, expiresAt, rfl, rfl⟩)
  | sendTemplate recipient code => exact .inr (.inr ⟨recipient, code, ⟨rfl, rfl⟩, rfl⟩)
  | sendText recipient body => exact .inr (.inr ⟨recipient, body, ⟨rfl, rfl⟩, rfl⟩)
  | clearCode wallet => exact .inl ⟨.update fun user => ⟨rfl, .inr rfl, .inr rfl⟩, by simp⟩
  | storeSentAt wallet sentAt => exact .inl ⟨.update fun user => ⟨rfl, .inl rfl, .inl rfl⟩, by simp⟩
  | storePhone wallet phone verifiedAt =>
      exact .inl ⟨.update fun user => ⟨rfl, .inl rfl, .inl rfl⟩, by simp⟩
  | dateNow | random | findUser | findByPhone => exact .inl ⟨.refl _, by simp⟩

/-- Every stored code has its issue. -/
def Issued (s : PhoneState ι) : Prop :=
  ∀ user ∈ s.users,
    (∀ code, user.phoneOtpCode = some code → ∃ issue, s.issue user.walletAddress = some issue ∧
      issue.code = code) ∧
      ∀ expiresAt, user.phoneOtpExpiresAt = some expiresAt →
        ∃ issue, s.issue user.walletAddress = some issue ∧ issue.expiresAt = expiresAt

theorem Issued.responds (h : Issued s) (hresponds : Responds i s x s') : Issued s' := by
  rcases hresponds.cases with ⟨hcalm, -⟩ | ⟨wallet, code, expiresAt, -, rfl⟩ |
    ⟨recipient, body, -, rfl⟩
  · intro user' hmem
    rcases hcalm.users user' hmem with ⟨user, huser, hwallet, hcode, hexpires⟩
    rw [← hwallet, hcalm.issue]
    constructor
    · intro code hstored
      rcases hcode with hcode | hcode <;> rw [hcode] at hstored
      · exact (h user huser).1 code hstored
      · cases hstored
    · intro expiresAt hstored
      rcases hexpires with hexpires | hexpires <;> rw [hexpires] at hstored
      · exact (h user huser).2 expiresAt hstored
      · cases hstored
  · intro user' hmem
    rcases List.mem_map.mp hmem with ⟨user, huser, rfl⟩
    by_cases hwallet : user.walletAddress = wallet
    · simp [PhoneState.issueCode, hwallet]
    · simp only [if_neg hwallet, PhoneState.issueCode, Function.update_of_ne hwallet]
      exact h user huser
  · intro user hmem
    rcases h user hmem with ⟨hcode, hexpires⟩
    constructor
    · intro code hstored
      rcases hcode code hstored with ⟨issue, hissue, rfl⟩
      refine ⟨_, Option.map_eq_some_iff.mpr ⟨issue, hissue, rfl⟩, ?_⟩
      split <;> rfl
    · intro expiresAt hstored
      rcases hexpires expiresAt hstored with ⟨issue, hissue, rfl⟩
      refine ⟨_, Option.map_eq_some_iff.mpr ⟨issue, hissue, rfl⟩, ?_⟩
      split <;> rfl

/-! ## The issues of a request -/

variable {request : ι → Request} {j : ι} {expiresAt : Nat} {issue : Issue ι}

/-- An issue is for the wallet and the number of its request. -/
structure Issue.Sound (request : ι → Request) (s : PhoneState ι) (wallet : Text) (issue : Issue ι) :
    Prop where
  wallet : walletOf (request issue.issuer).walletAddress = .ok wallet
  expires : issue.expiresAt ≤ issue.storedAt + 10 * 60000
  stored : issue.storedAt ≤ s.now
  message : ∀ m, issue.message = some m → m ∈ s.sent ∧
    m.Carries (request issue.issuer).phone issue.code ∧
    issue.storedAt ≤ m.sentAt

omit [DecidableEq ι] in
theorem Issue.Sound.mono (h : issue.Sound request s wallet) (hnow : s.now ≤ s'.now)
    (hsent : ∀ m ∈ s.sent, m ∈ s'.sent) : issue.Sound request s' wallet :=
  ⟨h.wallet, h.expires, Nat.le_trans h.stored hnow, fun m hm =>
    ⟨hsent m (h.message m hm).1, (h.message m hm).2⟩⟩

abbrev PhoneJob : Type := Job Unit Ask Answer Thrown Unit

/-- What is known of a thread: its program, the clock it has read, and that its issues are
sound and hold the code it stored. -/
structure Known (kapso : Bool) (request : ι → Request) (j : ι) (s : PhoneState ι)
    (o : Option PhoneJob) : Prop where
  program : ∀ job, o = some job → job.program = (request j).program kapso
  clock : ∀ job t, o = some job → ⟨.dateNow, .ok t⟩ ∈ job.asked → t ≤ s.now
  issues : ∀ wallet issue, s.issue wallet = some issue → issue.issuer = j →
    issue.Sound request s wallet
  stored : ∀ job wallet code expiresAt, o = some job →
    ⟨.storeCode wallet code expiresAt, .ok ()⟩ ∈ job.asked →
    ∀ wallet' issue, s.issue wallet' = some issue → issue.issuer = j → issue.code = code

omit [DecidableEq ι] in
/-- What others do leaves the issues of a thread as they are. -/
theorem Known.frame {o : Option PhoneJob} (h : Known kapso request j s o) (hnow : s.now ≤ s'.now)
    (hsent : ∀ m ∈ s.sent, m ∈ s'.sent)
    (hissue : ∀ wallet issue, s'.issue wallet = some issue → issue.issuer = j →
      s.issue wallet = some issue) :
    Known kapso request j s' o where
  program := h.program
  clock job t hjob hmem := Nat.le_trans (h.clock job t hjob hmem) hnow
  issues wallet issue hfound hissuer :=
    (h.issues wallet issue (hissue wallet issue hfound hissuer) hissuer).mono hnow hsent
  stored job wallet code expiresAt hjob hmem wallet' issue hfound hissuer :=
    h.stored job wallet code expiresAt hjob hmem wallet' issue
      (hissue wallet' issue hfound hissuer) hissuer

theorem Known.others {o : Option PhoneJob} (h : Known kapso request j s o) (hne : i ≠ j)
    (hresponds : Responds i s x s') : Known kapso request j s' o := by
  rcases hresponds.cases with ⟨hcalm, -⟩ | ⟨wallet, code, expiresAt, -, rfl⟩ |
    ⟨recipient, body, -, rfl⟩
  · refine h.frame (Nat.le_of_eq hcalm.now.symm) (fun m hm => by rwa [hcalm.sent])
      fun wallet issue hfound _ => ?_
    rwa [← hcalm.issue]
  · refine h.frame (Nat.le_refl _) (fun m hm => hm) fun wallet' issue hfound hissuer => ?_
    by_cases hwallet : wallet' = wallet
    · subst hwallet
      simp only [PhoneState.issueCode, Function.update_self, Option.some.injEq] at hfound
      subst hfound
      exact absurd hissuer hne
    · simpa only [PhoneState.issueCode, Function.update_of_ne hwallet] using hfound
  · refine h.frame (Nat.le_refl _) (fun m hm => List.mem_append_left _ hm)
      fun wallet issue hfound hissuer => ?_
    rcases Option.map_eq_some_iff.mp hfound with ⟨issue₀, hissue₀, rfl⟩
    split at hissuer
    · rename_i hown
      exact absurd (hown.symm.trans hissuer) hne
    · rename_i hother
      rw [hissue₀, if_neg hother]

/-- The answer of the clock is the present. -/
theorem Responds.dateNow {t : Nat} (h : Responds i s ⟨.dateNow, .ok t⟩ s') : t = s.now ∧ s' = s :=
  ⟨of_decide_eq_true h.1, h.2⟩

/-- A request goes on to its next exchange. -/
theorem Known.clock_snoc {job : PhoneJob} (h : Known kapso request j s (some job))
    (hresponds : Responds j s x s')
    (hnow : s.now ≤ s'.now) {t : Nat} (hmem : ⟨.dateNow, .ok t⟩ ∈ job.asked ++ [x]) :
    t ≤ s'.now := by
  rcases List.mem_append.mp hmem with hmem | hmem
  · exact Nat.le_trans (h.clock job t rfl hmem) hnow
  · cases List.mem_singleton.mp hmem
    exact Nat.le_trans (Nat.le_of_eq hresponds.dateNow.1) hnow

theorem Known.exchange_calm {job : PhoneJob} (h : Known kapso request j s (some job))
    (hresponds : Responds j s x s')
    (hcalm : Calm s s')
    (hx : ∀ wallet code expiresAt, x ≠ ⟨.storeCode wallet code expiresAt, .ok ()⟩) :
    Known kapso request j s' (some ⟨job.call, job.program, job.asked ++ [x]⟩) := by
  have hframe := h.frame (Nat.le_of_eq hcalm.now.symm) (fun m hm => by rwa [hcalm.sent])
    fun wallet issue hfound _ => by rwa [← hcalm.issue]
  refine ⟨?_, ?_, hframe.issues, ?_⟩
  · rintro _ ⟨⟩
    exact h.program job rfl
  · rintro _ t ⟨⟩ hmem
    exact h.clock_snoc hresponds (Nat.le_of_eq hcalm.now.symm) hmem
  · rintro _ wallet code expiresAt ⟨⟩ hmem
    rcases List.mem_append.mp hmem with hmem | hmem
    · exact hframe.stored job wallet code expiresAt rfl hmem
    · exact absurd (List.mem_singleton.mp hmem).symm (hx wallet code expiresAt)

theorem Known.exchange_store {job : PhoneJob} (h : Known kapso request j s (some job))
    (hawaits : Awaits job.program job.asked x.1)
    (hresponds : Responds j s x (s.issueCode j wallet code expiresAt))
    (hx : x.1 = .storeCode wallet code expiresAt) :
    Known kapso request j (s.issueCode j wallet code expiresAt)
      (some ⟨job.call, job.program, job.asked ++ [x]⟩) := by
  rw [h.program job rfl, hx] at hawaits
  rcases Request.loud hawaits (fun hquiet => hquiet) with
    ⟨w, hwallet, ⟨before, after, hasked, hbefore, hat⟩ | ⟨_, _, _, _, hat⟩⟩
  · cases hat with
    | storeCode n t =>
        have hclock : t ≤ s.now := h.clock job t rfl (by rw [hasked]; simp)
        have hfirst : ∀ w c e, ⟨.storeCode w c e, .ok ()⟩ ∉ job.asked := by
          intro w c e hmem
          rw [hasked] at hmem
          rcases List.mem_append.mp hmem with hmem | hmem
          · exact hbefore _ hmem
          · simp at hmem
        -- the request's issues before this one are for the same wallet, and are gone
        have hnew : ∀ wallet' issue,
            (s.issueCode j wallet (codeOf n) (t + 10 * 60000)).issue wallet' = some issue →
            issue.issuer = j → wallet' = wallet ∧
            issue = ⟨j, codeOf n, t + 10 * 60000, s.now, none⟩ := by
          intro wallet' issue hfound hissuer
          by_cases hsame : wallet' = wallet
          · subst hsame
            simp only [PhoneState.issueCode, Function.update_self, Option.some.injEq] at hfound
            exact ⟨rfl, hfound.symm⟩
          · simp only [PhoneState.issueCode, Function.update_of_ne hsame] at hfound
            have hold := (h.issues wallet' issue hfound hissuer).wallet
            rw [hissuer] at hold
            cases hold.symm.trans hwallet
            exact absurd rfl hsame
        refine ⟨?_, ?_, ?_, ?_⟩
        · rintro _ ⟨⟩
          exact h.program job rfl
        · rintro _ t' ⟨⟩ hmem
          exact h.clock_snoc hresponds (Nat.le_refl _) hmem
        · intro wallet' issue hfound hissuer
          rcases hnew wallet' issue hfound hissuer with ⟨rfl, rfl⟩
          exact ⟨hwallet, Nat.add_le_add_right hclock _, Nat.le_refl _, by simp⟩
        · rintro _ w c e ⟨⟩ hmem wallet' issue hfound hissuer
          rcases hnew wallet' issue hfound hissuer with ⟨rfl, rfl⟩
          rcases List.mem_append.mp hmem with hmem | hmem
          · exact absurd hmem (hfirst w c e)
          · have hask := congrArg Sigma.fst (List.mem_singleton.mp hmem)
            rw [hx] at hask
            cases hask
            rfl
  · generalize job.asked = asked at hat
    cases hat

theorem Known.exchange_send {job : PhoneJob} {recipient body : Text}
    (h : Known kapso request j s (some job))
    (hawaits : Awaits job.program job.asked x.1)
    (hresponds : Responds j s x (s.send j recipient body))
    (hx : Sends recipient body x.1) :
    Known kapso request j (s.send j recipient body)
    (some ⟨job.call, job.program, job.asked ++ [x]⟩) := by
  rw [h.program job rfl] at hawaits
  have hloud : ¬Quiet x.1 := by
    intro hquiet
    cases hask : x.1 <;> simp [hask, Quiet, Sends] at hquiet hx
  -- what goes out is the code that the request stored, to its number
  obtain ⟨code, w, e, hstored, hcarries⟩ : ∃ code w e, ⟨.storeCode w code e, .ok ()⟩ ∈ job.asked ∧
      (Message.mk recipient body s.now).Carries (request j).phone code := by
    rcases Request.loud hawaits hloud
      with ⟨w, hwallet, ⟨before, after, hasked, -, hat⟩ | ⟨_, _, _, _, hat⟩⟩
    · rw [hasked]
      rcases x with ⟨ask, r⟩
      cases hat with
      | random | dateNow | storeCode => exact absurd hx (by simp [Sends])
      | sendTemplate n t =>
          rcases hx with ⟨rfl, rfl⟩
          exact ⟨codeOf n, w, t + 10 * 60000, List.mem_append_right _ (by simp), rfl, .inl rfl⟩
      | sendText n t error =>
          rcases hx with ⟨rfl, rfl⟩
          exact ⟨codeOf n, w, t + 10 * 60000, List.mem_append_right _ (by simp), rfl, .inr rfl⟩
    · generalize job.asked = asked at hat
      rcases x with ⟨ask, r⟩
      cases hat <;> exact absurd hx (by simp [Sends])
  have hold : ∀ wallet issue, (s.send j recipient body).issue wallet =
      some issue → issue.issuer = j →
      ∃ issue₀, s.issue wallet = some issue₀ ∧ issue₀.issuer = j ∧
        issue = { issue₀ with message := some ⟨recipient, body, s.now⟩ } := by
    intro wallet issue hfound hissuer
    rcases Option.map_eq_some_iff.mp hfound with ⟨issue₀, hissue₀, rfl⟩
    split at hissuer
    · rename_i hown
      exact ⟨issue₀, hissue₀, hown, if_pos hown⟩
    · rename_i hother
      exact absurd hissuer hother
  refine ⟨?_, ?_, ?_, ?_⟩
  · rintro _ ⟨⟩
    exact h.program job rfl
  · rintro _ t ⟨⟩ hmem
    exact h.clock_snoc hresponds (Nat.le_refl _) hmem
  · intro wallet issue hfound hissuer
    rcases hold wallet issue hfound hissuer with ⟨issue₀, hissue₀, hown, rfl⟩
    have hsound := h.issues wallet issue₀ hissue₀ hown
    refine ⟨hsound.wallet, hsound.expires, hsound.stored, fun m hm => ?_⟩
    cases hm
    refine ⟨List.mem_append_right _ (List.mem_singleton_self _), ?_, hsound.stored⟩
    rw [← h.stored job w code e rfl hstored wallet issue₀ hissue₀ hown] at hcarries
    rwa [← hown] at hcarries
  · rintro _ w' c e' ⟨⟩ hmem wallet issue hfound hissuer
    rcases hold wallet issue hfound hissuer with ⟨issue₀, hissue₀, hown, rfl⟩
    rcases List.mem_append.mp hmem with hmem | hmem
    · exact h.stored job w' c e' rfl hmem wallet issue₀ hissue₀ hown
    · rw [← List.mem_singleton.mp hmem] at hx
      exact absurd hx (by simp [Sends])

theorem known_stable {guard : PhoneState ι → PhoneJob → Event ι → Prop} :
    (service kapso request).Stable j guard (fun _ _ => True) (Known kapso request j) := by
  constructor
  · intro s call h
    refine ⟨?_, ?_, h.issues, ?_⟩
    · rintro _ ⟨⟩
      rfl
    · rintro _ t ⟨⟩ hmem
      cases hmem
    · rintro _ wallet code expiresAt ⟨⟩ hmem
      cases hmem
  · intro s job x s' _ h hawaits hresponds _
    rcases Responds.cases hresponds with ⟨hcalm, hx⟩ | ⟨wallet, code, expiresAt, hx, rfl⟩ |
      ⟨recipient, body, hx, rfl⟩
    · exact h.exchange_calm hresponds hcalm hx
    · exact h.exchange_store hawaits hresponds hx
    · exact h.exchange_send hawaits hresponds hx
  · intro s job out _ h _ _
    exact ⟨by simp, by simp, h.issues, by simp⟩
  · intro k s o x s' h hne hresponds
    exact h.others hne hresponds
  · intro k s o call out h _
    exact h
  · rintro s o s' h ⟨ms, rfl⟩
    exact h.frame (Nat.le_add_right _ _) (fun m hm => hm) fun wallet issue hfound _ => hfound

/-! ## The checks of a request -/

/-- The number was sent the code, at most ten minutes before `t`. -/
def Received (sent : List Message) (phone code : Text) (t : Nat) : Prop :=
  ∃ m ∈ sent, m.Carries phone code ∧ t ≤ m.sentAt + 10 * 60000

/-- A request to verify a number has had its code accepted, by the clock at `t`. -/
structure AcceptedAt (r : Request) (asked : List Asked) (wallet phone code : Text) (t : Nat) :
    Prop where
  request : ∃ walletAddress, r = .verifyPhoneOtp walletAddress phone code
  accepted : [⟨.dateNow, .ok t⟩, ⟨.clearCode wallet, .ok ()⟩] <:+: asked

/-- A check takes away a code that was issued for its wallet and sent to its number. -/
def Backed (request : ι → Request) (s : PhoneState ι) (event : Event ι) : Prop :=
  ∀ i wallet walletAddress phone code, event = .exchange i ⟨.clearCode wallet, .ok ()⟩ →
    request i = .verifyPhoneOtp walletAddress phone code →
    ∃ issue, s.issue wallet = some issue ∧ issue.code = code ∧
      (request issue.issuer).phone = phone ∧ issue.message ≠ none

/-- Every stored code has its issue, and the issues are sound. -/
structure Sound (request : ι → Request) (s : PhoneState ι) : Prop where
  issued : Issued s
  issues : ∀ wallet issue, s.issue wallet = some issue → issue.Sound request s wallet

/-- What a thread has read has not outlived its issue, and what it had accepted was sent. -/
structure Held (request : ι → Request) (j : ι) (s : PhoneState ι) (o : Option PhoneJob) : Prop where
  read : ∀ job wallet user expiresAt, o = some job →
    ⟨.findUser wallet, .ok (some user)⟩ ∈ job.asked →
    user.phoneOtpExpiresAt = some expiresAt → ∃ issue, s.issue wallet = some issue ∧
      expiresAt ≤ issue.storedAt + 10 * 60000 ∧ issue.storedAt ≤ s.now
  accepted : ∀ job wallet, o = some job → ⟨.clearCode wallet, .ok ()⟩ ∈ job.asked →
    ∃ phone code t, AcceptedAt (request j) job.asked wallet phone code t ∧
    Received s.sent phone code t

omit [DecidableEq ι] in
theorem userOf_mem {user : User} (h : s.userOf wallet = some user) :
    user ∈ s.users ∧ user.walletAddress = wallet :=
  ⟨List.mem_of_find?_eq_some h, by simpa using List.find?_some h⟩

theorem Responds.sent_mono (h : Responds i s x s') : ∀ m ∈ s.sent, m ∈ s'.sent := by
  intro m hm
  rcases h.cases with ⟨hcalm, -⟩ | ⟨wallet, code, expiresAt, -, rfl⟩ | ⟨recipient, body, -, rfl⟩
  · rwa [hcalm.sent]
  · exact hm
  · exact List.mem_append_left _ hm

/-- The issues of a wallet follow each other in time. -/
theorem Responds.issue_mono (h : Responds i s x s') (hissue : s.issue wallet = some issue)
    (hstored : issue.storedAt ≤ s.now) : ∃ issue', s'.issue wallet = some issue' ∧
      issue.storedAt ≤ issue'.storedAt ∧ issue'.storedAt ≤ s'.now := by
  rcases h.cases with ⟨hcalm, -⟩ | ⟨wallet', code, expiresAt, -, rfl⟩ | ⟨recipient, body, -, rfl⟩
  · exact ⟨issue, by rw [hcalm.issue, hissue], Nat.le_refl _, by rwa [hcalm.now]⟩
  · by_cases hsame : wallet = wallet'
    · subst hsame
      exact ⟨_, Function.update_self .., hstored, Nat.le_refl _⟩
    · exact ⟨issue, by simp only [PhoneState.issueCode, Function.update_of_ne hsame, hissue],
        Nat.le_refl _, hstored⟩
  · refine ⟨_, Option.map_eq_some_iff.mpr ⟨issue, hissue, rfl⟩, ?_⟩
    split <;> exact ⟨Nat.le_refl _, hstored⟩

omit [DecidableEq ι] in
theorem Received.mono {sent sent' : List Message} {t : Nat} (h : Received sent phone code t)
    (hsent : ∀ m ∈ sent, m ∈ sent') : Received sent' phone code t := by
  rcases h with ⟨m, hm, hcarries, ht⟩
  exact ⟨m, hsent m hm, hcarries, ht⟩

theorem Held.responds {o : Option PhoneJob} (h : Held request j s o)
    (hresponds : Responds i s x s') :
    Held request j s' o := by
  constructor
  · intro job wallet user expiresAt hjob hmem hexpires
    rcases h.read job wallet user expiresAt hjob hmem hexpires with ⟨issue, hissue, hbound, hstored⟩
    rcases hresponds.issue_mono hissue hstored with ⟨issue', hissue', hlater, hstored'⟩
    exact ⟨issue', hissue', Nat.le_trans hbound (Nat.add_le_add_right hlater _), hstored'⟩
  · intro job wallet hjob hmem
    rcases h.accepted job wallet hjob hmem with ⟨phone, code, t, haccepted, hreceived⟩
    exact ⟨phone, code, t, haccepted, hreceived.mono hresponds.sent_mono⟩

omit [DecidableEq ι] in
/-- A request reads a row. -/
theorem Sound.read (h : Sound request s) {user : User} (hfound : s.userOf wallet = some user)
    (hexpires : user.phoneOtpExpiresAt = some expiresAt) : ∃ issue, s.issue wallet = some issue ∧
      expiresAt ≤ issue.storedAt + 10 * 60000 ∧ issue.storedAt ≤ s.now := by
  rcases userOf_mem hfound with ⟨hmem, rfl⟩
  rcases (h.issued user hmem).2 expiresAt hexpires with ⟨issue, hissue, rfl⟩
  have hsound := h.issues _ issue hissue
  exact ⟨issue, hissue, hsound.expires, hsound.stored⟩

omit [DecidableEq ι] in
/-- A check takes away the code it was given. -/
theorem Held.accept {job : PhoneJob} (hsound : Sound request s)
    (hheld : Held request j s (some job))
    (hawaits : Awaits ((request j).program kapso) job.asked (.clearCode wallet))
    (hbacked : Backed request s (.exchange j ⟨.clearCode wallet, .ok ()⟩)) :
    ∃ phone code t, AcceptedAt (request j)
    (job.asked ++ [⟨.clearCode wallet, .ok ()⟩]) wallet phone code t ∧
      Received s.sent phone code t := by
  rcases Request.loud hawaits (fun hquiet => hquiet) with
    ⟨w, -, ⟨before, after, hasked, -, hat⟩ | ⟨walletAddress, phone, code, hrequest, hat⟩⟩
  · cases hat
  generalize hjob : job.asked = asked at hat
  cases hat with
  | @clearCode before reads t hne hbefore hpasses =>
      rcases hpasses.passed with ⟨user, expiresAt, rfl, -, hexpires, hlive⟩
      rcases hbacked j wallet walletAddress phone code rfl hrequest
        with ⟨issue, hissue, rfl, hphone, hsent⟩
      rcases hheld.read job wallet user expiresAt rfl (by rw [hjob]; simp) hexpires
        with ⟨_, hissue', hbound, -⟩
      cases hissue.symm.trans hissue'
      rcases Option.ne_none_iff_exists'.mp hsent with ⟨m, hm⟩
      rcases (hsound.issues wallet issue hissue).message m hm with ⟨hmem, hcarries, hlater⟩
      rw [hphone] at hcarries
      refine ⟨phone, issue.code, t, ⟨⟨walletAddress, hrequest⟩, ?_⟩, m, hmem, hcarries, by omega⟩
      exact ⟨before ++ [⟨.findUser wallet, .ok (some user)⟩], [], by simp⟩

theorem held_stable : (service kapso request).Stable j
    (fun s _ event => Sound request s ∧ Backed request s event)
    (fun s o => True ∧ Known kapso request j s o)
    (Held request j) := by
  constructor
  · intro s call h
    constructor
    · rintro _ wallet user expiresAt ⟨⟩ hmem
      cases hmem
    · rintro _ wallet ⟨⟩ hmem
      cases hmem
  · intro s job x s' hknown h hawaits hresponds hguard
    rw [hknown.2.program job rfl] at hawaits
    have hlater := h.responds hresponds
    have hsent : ∀ m ∈ s.sent, m ∈ s'.sent := Responds.sent_mono (i := j) hresponds
    constructor
    · rintro _ wallet user expiresAt ⟨⟩ hmem hexpires
      rcases List.mem_append.mp hmem with hmem | hmem
      · exact hlater.read job wallet user expiresAt rfl hmem hexpires
      · cases List.mem_singleton.mp hmem
        have hfound := of_decide_eq_true hresponds.1
        rw [hresponds.2]
        exact hguard.1.read hfound.symm hexpires
    · rintro _ wallet ⟨⟩ hmem
      rcases List.mem_append.mp hmem with hmem | hmem
      · rcases hlater.accepted job wallet rfl hmem with ⟨phone, code, t, haccepted, hreceived⟩
        exact ⟨phone, code, t,
          ⟨haccepted.request, haccepted.accepted.trans (List.prefix_append _ _).isInfix⟩, hreceived⟩
      · cases List.mem_singleton.mp hmem
        rcases h.accept hguard.1 hawaits hguard.2 with ⟨phone, code, t, haccepted, hreceived⟩
        exact ⟨phone, code, t, haccepted, hreceived.mono hsent⟩
  · intro s job out _ h _ _
    exact ⟨by simp, by simp⟩
  · intro k s o x s' h _ hresponds
    exact h.responds hresponds
  · intro k s o call out h _
    exact h
  · rintro s o s' h ⟨ms, rfl⟩
    refine ⟨fun job wallet user expiresAt hjob hmem hexpires => ?_, h.accepted⟩
    rcases h.read job wallet user expiresAt hjob hmem hexpires with ⟨issue, hissue, hbound, hstored⟩
    exact ⟨issue, hissue, hbound, Nat.le_trans hstored (Nat.le_add_right _ _)⟩

/-! ## Runs -/

variable {w v v' : Pool ι} {events : List (Event ι)} {event : Event ι}

/-- No request is under way, and no code is stored. -/
structure Fresh (w : Pool ι) : Prop where
  idle : ∀ i, w.jobs i = none
  codes : ∀ user ∈ w.shared.users, user.phoneOtpCode = none ∧ user.phoneOtpExpiresAt = none
  issues : ∀ wallet, w.shared.issue wallet = none

omit [DecidableEq ι] in
theorem Fresh.known (h : Fresh w) : Known kapso request j w.shared (w.jobs j) := by
  rw [h.idle j]
  refine ⟨by simp, by simp, fun wallet issue hissue => ?_, by simp⟩
  rw [h.issues wallet] at hissue
  cases hissue

theorem Fresh.sound (h : Fresh w) (run : Run (service kapso request).Step w events v) :
    Sound request v.shared := by
  constructor
  · refine run.invariant (P := fun v => Issued v.shared)
      (fun u event u' hissued hstep => ?_) fun user hmem => ?_
    · cases hstep with
      | start | settle => exact hissued
      | exchange hjob hawaits hresponds => exact hissued.responds hresponds
      | outside houtside =>
          rcases houtside with ⟨ms, rfl⟩
          exact hissued
    · simp [h.codes user hmem]
  · intro wallet issue hissue
    have hstable : (service kapso request).Stable issue.issuer (fun _ _ _ => True) _ _ :=
      known_stable
    exact (hstable.run run (fun _ _ _ _ _ _ _ => trivial) h.known).issues wallet issue hissue rfl

/-- Nobody else is between finding a code of the wallet and taking it away. -/
def Unread (request : ι → Request) (w : Pool ι) (i : ι) (wallet : Text) : Prop :=
  ∀ j job code, j ≠ i → w.jobs j = some job → ¬Reading (request j) wallet code job.asked

/-- A code is stored or taken away while no other check of the wallet is under way that has
found one. -/
structure Apart (request : ι → Request) (w : Pool ι) (event : Event ι) : Prop where
  stores : ∀ i wallet code expiresAt r, event = .exchange i ⟨.storeCode wallet code expiresAt, r⟩ →
    Unread request w i wallet
  clears : ∀ i wallet, event = .exchange i ⟨.clearCode wallet, .ok ()⟩ → Unread request w i wallet

/-- As a check takes a code away, the request that stored a code of the wallet last was for
the number of the check, and its message has gone out. -/
def Addressed (request : ι → Request) (w : Pool ι) (event : Event ι) : Prop :=
  ∀ i wallet walletAddress phone code, event = .exchange i ⟨.clearCode wallet, .ok ()⟩ →
    request i = .verifyPhoneOtp walletAddress phone code →
    ∀ issue, w.shared.issue wallet = some issue →
      (request issue.issuer).phone = phone ∧ issue.message ≠ none

/-- Requests run their programs. -/
def Programmed (kapso : Bool) (request : ι → Request) (w : Pool ι) : Prop :=
  ∀ j job, w.jobs j = some job → job.program = (request j).program kapso

theorem Fresh.programmed (h : Fresh w) (run : Run (service kapso request).Step w events v) :
    Programmed kapso request v := by
  intro j job hjob
  have hstable : (service kapso request).Stable j (fun _ _ _ => True) _ _ := known_stable
  exact (hstable.run run (fun _ _ _ _ _ _ _ => trivial) h.known).program job hjob

/-- The code of a wallet's issue is replaced by storing another one only. -/
theorem Responds.issue_code (h : Responds i s x s') (hissue : s.issue wallet = some issue)
    (hx : ∀ code expiresAt, x.1 ≠ .storeCode wallet code expiresAt) :
    ∃ issue', s'.issue wallet = some issue' ∧ issue'.code = issue.code := by
  rcases h.cases with ⟨hcalm, -⟩ | ⟨wallet', code, expiresAt, hask, rfl⟩ | ⟨recipient, body, -, rfl⟩
  · exact ⟨issue, by rw [hcalm.issue, hissue], rfl⟩
  · have hne : wallet ≠ wallet' := fun heq => hx code expiresAt (heq ▸ hask)
    exact ⟨issue, by simp only [PhoneState.issueCode, Function.update_of_ne hne, hissue], rfl⟩
  · refine ⟨_, Option.map_eq_some_iff.mpr ⟨issue, hissue, rfl⟩, ?_⟩
    split <;> rfl

omit [DecidableEq ι] in
/-- A row with a code is read. -/
theorem Sound.read_code (h : Sound request s) {user : User} (hfound : s.userOf wallet = some user)
    (hcode : user.phoneOtpCode = some code) :
    ∃ issue, s.issue wallet = some issue ∧ issue.code = code := by
  rcases userOf_mem hfound with ⟨hmem, rfl⟩
  exact (h.issued user hmem).1 code hcode

/-- A code that a check has found is still the one that was issued last. -/
def Tracks (request : ι → Request) (w : Pool ι) : Prop :=
  ∀ j job wallet code, w.jobs j = some job → Reading (request j) wallet code job.asked →
    ∃ issue, w.shared.issue wallet = some issue ∧ issue.code = code

/-- A check that has found a code had found it before the step, or read the row in it. -/
theorem Reading.of_step {job : PhoneJob} (hstep : (service kapso request).Step w event v)
    (hjob : v.jobs j = some job) (hreading : Reading (request j) wallet code job.asked) :
    (∃ job', w.jobs j = some job' ∧ Reading (request j) wallet code job'.asked) ∨
      ∃ user, w.shared.userOf wallet = some user ∧ user.phoneOtpCode = some code ∧
        v.shared = w.shared := by
  cases hstep with
  | @start i call hidle =>
      by_cases hji : j = i
      · subst hji
        simp only [Function.update_self, Option.some.injEq] at hjob
        subst hjob
        exact absurd hreading (not_reading_nil _ _ _)
      · simp only [Function.update_of_ne hji] at hjob
        exact .inl ⟨job, hjob, hreading⟩
  | @exchange i job' x s hother hawaits hresponds =>
      by_cases hji : j = i
      · subst hji
        simp only [Function.update_self, Option.some.injEq] at hjob
        subst hjob
        rcases hreading.snoc_cases with hbefore | ⟨user, rfl, hcode⟩
        · exact .inl ⟨job', hother, hbefore⟩
        · exact .inr ⟨user, (of_decide_eq_true hresponds.1).symm, hcode, hresponds.2⟩
      · simp only [Function.update_of_ne hji] at hjob
        exact .inl ⟨job, hjob, hreading⟩
  | @settle i job' out hother htrace =>
      by_cases hji : j = i
      · subst hji
        simp at hjob
      · simp only [Function.update_of_ne hji] at hjob
        exact .inl ⟨job, hjob, hreading⟩
  | outside houtside => exact .inl ⟨job, hjob, hreading⟩

theorem issue_code_of_step (hstep : (service kapso request).Step w event v)
    (hissue : w.shared.issue wallet = some issue)
    (hevent : ∀ i code expiresAt r, event ≠ .exchange i ⟨.storeCode wallet code expiresAt, r⟩) :
    ∃ issue', v.shared.issue wallet = some issue' ∧ issue'.code = issue.code := by
  cases hstep with
  | start | settle => exact ⟨issue, hissue, rfl⟩
  | @exchange i job x s hjob hawaits hresponds =>
      refine Responds.issue_code hresponds hissue fun code expiresAt hask => ?_
      rcases x with ⟨ask, r⟩
      cases hask
      exact hevent i code expiresAt r rfl
  | outside houtside =>
      rcases houtside with ⟨ms, rfl⟩
      exact ⟨issue, hissue, rfl⟩

theorem Tracks.step (h : Tracks request w) (hprogrammed : Programmed kapso request w)
    (hsound : Sound request w.shared) (hapart : Apart request w event)
    (hstep : (service kapso request).Step w event v) : Tracks request v := by
  intro j job wallet code hjob hreading
  rcases hreading.of_step hstep hjob with ⟨job', hjob', hearlier⟩ | ⟨user, hfound, hcode, hsame⟩
  · rcases h j job' wallet code hjob' hearlier with ⟨issue, hissue, rfl⟩
    refine issue_code_of_step hstep hissue ?_
    rintro i code expiresAt r rfl
    by_cases hji : j = i
    · -- a check stores no code
      subst hji
      rcases hearlier with ⟨walletAddress, phone, _, _, _, hrequest, -⟩
      cases hstep with
      | exchange hother hawaits hresponds =>
          rw [hprogrammed j _ hother, hrequest] at hawaits
          exact not_awaits_storeCode hawaits
    · exact hapart.stores i wallet code expiresAt r rfl j job' issue.code hji hjob' hearlier
  · rw [hsame]
    exact hsound.read_code hfound hcode

theorem Fresh.tracks (hfresh : Fresh w) (run : Run (service kapso request).Step w events v)
    (hapart : ∀ k u event u', StepAt (service kapso request).Step w events k u event u' →
      Apart request u event) : Tracks request v := by
  have hrun := run.with_steps (Q := fun u event _ =>
    Programmed kapso request u ∧ Sound request u.shared ∧ Apart request u event)
    fun k u event u' hat =>
      ⟨hfresh.programmed hat.before, hfresh.sound hat.before, hapart k u event u' hat⟩
  refine hrun.invariant (P := Tracks request) (fun u event u' h hstep => ?_) fun j job _ _ hjob =>
    ?_
  · exact h.step hstep.2.1 hstep.2.2.1 hstep.2.2.2 hstep.1
  · rw [hfresh.idle j] at hjob
    cases hjob

/-- What a check takes away is the code that was sent to its number. -/
theorem Fresh.backed (hfresh : Fresh w)
    (haddressed : ∀ k u event u', StepAt (service kapso request).Step w events k u event u' →
      Addressed request u event)
    (hapart : ∀ k u event u', StepAt (service kapso request).Step w events k u event u' →
      Apart request u event) {k : Nat} {u u' : Pool ι}
    (hat : StepAt (service kapso request).Step w events k u event u') :
    Backed request u.shared event := by
  rintro i wallet walletAddress phone code rfl hrequest
  have htracks := hfresh.tracks hat.before fun k u event u' hat => hapart k u event u' hat.of_take.2
  have htaken := hat.taken
  cases htaken with
  | @exchange _ job _ s hjob hawaits hresponds =>
      rw [hfresh.programmed hat.before i job hjob, hrequest] at hawaits
      rcases verifyPhoneOtp_awaits hawaits (fun hquiet => hquiet) with ⟨w', -, hverifying⟩
      generalize hasked : job.asked = asked at hverifying
      cases hverifying with
      | @clearCode before reads t hne hquiet hpasses =>
          have hreading :=
            (VerifyingAt.clearCode hne hquiet hpasses : VerifyingAt phone code _ _ _).reading
              hrequest
          rcases htracks i job wallet code hjob (hasked ▸ hreading) with ⟨issue, hissue, hcode⟩
          exact ⟨issue, hissue, hcode,
            haddressed k u _ _ hat i wallet walletAddress phone code rfl hrequest
            issue hissue⟩

/-- A code that a wallet came to hold was stored by a request. -/
theorem exists_storeCode (run : Run (service kapso request).Step w events v)
    (hnone : ∀ user ∈ w.shared.users, user.walletAddress = wallet → user.phoneOtpCode = none) :
    ∀ user ∈ v.shared.users, user.walletAddress = wallet → user.phoneOtpCode = some code →
      ∃ i expiresAt r, .exchange i ⟨.storeCode wallet code expiresAt, r⟩ ∈ events := by
  induction run with
  | nil =>
      intro user hmem hwallet hcode
      rw [hnone user hmem hwallet] at hcode
      cases hcode
  | @snoc t u labels label _ hstep ih =>
      have hearlier : ∀ user ∈ t.shared.users, user.walletAddress = wallet →
          user.phoneOtpCode = some code →
          ∃ i expiresAt r, .exchange i ⟨.storeCode wallet code expiresAt, r⟩ ∈
          labels ++ [label] := by
        intro user hmem hwallet hcode
        rcases ih user hmem hwallet hcode with ⟨i, expiresAt, r, hfound⟩
        exact ⟨i, expiresAt, r, List.mem_append_left _ hfound⟩
      intro user hmem hwallet hcode
      cases hstep with
      | start | settle => exact hearlier user hmem hwallet hcode
      | outside houtside =>
          rcases houtside with ⟨ms, rfl⟩
          exact hearlier user hmem hwallet hcode
      | @exchange i job x s hjob hawaits hresponds =>
          rcases Responds.cases hresponds with ⟨hcalm, -⟩ | ⟨wallet', code', expiresAt, hx, rfl⟩ |
            ⟨_, _, -, rfl⟩
          · rcases hcalm.users user hmem with ⟨user₀, hmem₀, hwallet₀, hcode₀ | hcode₀, -⟩
            · exact hearlier user₀ hmem₀ (hwallet₀.trans hwallet) (hcode₀ ▸ hcode)
            · rw [hcode₀] at hcode
              cases hcode
          · rcases List.mem_map.mp hmem with ⟨user₀, hmem₀, rfl⟩
            split at hcode
            · rename_i hown
              rw [if_pos hown] at hwallet
              cases hcode
              cases hown.symm.trans hwallet
              rcases x with ⟨ask, r⟩
              cases hx
              exact ⟨i, expiresAt, r, List.mem_append_right _ (List.mem_singleton_self _)⟩
            · rename_i hother
              rw [if_neg hother] at hwallet
              exact hearlier user₀ hmem₀ hwallet hcode
          · exact hearlier user hmem hwallet hcode

/-- A code that a check came to find was stored by a request. -/
theorem exists_storeCode_of_reading (run : Run (service kapso request).Step w events v)
    (hnone : ∀ user ∈ w.shared.users, user.walletAddress = wallet → user.phoneOtpCode = none)
    (hunread : ∀ j job, w.jobs j = some job → ¬Reading (request j) wallet code job.asked) :
    ∀ j job, v.jobs j = some job → Reading (request j) wallet code job.asked →
      ∃ i expiresAt r, .exchange i ⟨.storeCode wallet code expiresAt, r⟩ ∈ events := by
  induction run with
  | nil => exact fun j job hjob hreading => absurd hreading (hunread j job hjob)
  | @snoc t u labels label hbefore hstep ih =>
      have hearlier :
          (∃ i expiresAt r, .exchange i ⟨.storeCode wallet code expiresAt, r⟩ ∈ labels) →
          ∃ i expiresAt r, .exchange i ⟨.storeCode wallet code expiresAt, r⟩ ∈
          labels ++ [label] := by
        rintro ⟨i, expiresAt, r, hfound⟩
        exact ⟨i, expiresAt, r, List.mem_append_left _ hfound⟩
      intro j job hjob hreading
      rcases hreading.of_step hstep hjob with ⟨job', hjob', hbefore'⟩ | ⟨user, hfound, hcode, -⟩
      · exact hearlier (ih j job' hjob' hbefore')
      · rcases userOf_mem hfound with ⟨hmem, hwallet⟩
        exact hearlier (exists_storeCode hbefore hnone user hmem hwallet hcode)

/-- The check of a request passes and takes the code away. -/
def AcceptsAt (events : List (Event ι)) (k : Nat) (i : ι) (wallet : Text) : Prop :=
  events[k]? = some (.exchange i ⟨.clearCode wallet, .ok ()⟩)

/-- A request stores a code, or tries to. -/
def StoresAt (events : List (Event ι)) (k : Nat) (wallet code : Text) : Prop :=
  ∃ i expiresAt r, events[k]? = some (.exchange i ⟨.storeCode wallet code expiresAt, r⟩)

/-- A request that is about to store its number. -/
theorem received_of_storePhone (hfresh : Fresh w)
    (hbacked : ∀ k u event u', StepAt (service kapso request).Step w events k u event u' →
      Backed request u.shared event) {k : Nat} {verifiedAt : Nat}
    (hat : StepAt (service kapso request).Step w events k v
      (.exchange i ⟨.storePhone wallet phone verifiedAt, .ok ()⟩) v') :
    ∃ job code t, v.jobs i = some job ∧ AcceptedAt (request i) job.asked wallet phone code t ∧
      Received v.shared.sent phone code t := by
  have hstable := (known_stable : (service kapso request).Stable i _ _ _).layer held_stable
  have hstart : Known kapso request i w.shared (w.jobs i) ∧ Held request i w.shared (w.jobs i) := by
    refine ⟨hfresh.known, ?_⟩
    rw [hfresh.idle i]
    exact ⟨by simp, by simp⟩
  rcases (hstable.at
    (fun k u event u' hat _ _ => ⟨hfresh.sound hat.before, hbacked k u event u' hat⟩)
    hstart hat).1 with ⟨hknown, hheld⟩
  have htaken := hat.taken
  cases htaken with
  | @exchange _ job _ s hjob hawaits hresponds =>
      rw [hjob] at hknown hheld
      rw [hknown.program job rfl] at hawaits
      rcases Request.loud hawaits (fun hquiet => hquiet) with
        ⟨w', -, ⟨before, after, hasked, -, hat⟩ | ⟨walletAddress, phone', code', hrequest, hat⟩⟩
      · cases hat
      generalize hasked : job.asked = asked at hat
      cases hat with
      | storePhone now hbefore hpasses =>
          rcases hheld.accepted job wallet rfl (by rw [hasked]; simp)
            with ⟨phone₁, code₁, t, haccepted, hreceived⟩
          rcases haccepted.request with ⟨_, hrequest'⟩
          cases hrequest.symm.trans hrequest'
          exact ⟨job, code', t, hjob, haccepted, hreceived⟩

/-- After a check no code is left. -/
theorem cleared_of_step
    (hstep : (service kapso request).Step v (.exchange i ⟨.clearCode wallet, .ok ()⟩) v') :
    ∀ user ∈ v'.shared.users, user.walletAddress = wallet → user.phoneOtpCode = none := by
  cases hstep with
  | exchange hjob hawaits hresponds =>
      rw [hresponds.2]
      intro user hmem hwallet
      rcases List.mem_map.mp hmem with ⟨user₀, -, rfl⟩
      split
      · rfl
      · rename_i hother
        rw [if_neg hother] at hwallet
        exact absurd hwallet hother

/-- Once a check has taken the code of a wallet away, nobody is about to take one away. -/
theorem not_reading_of_step (hapart : Apart request v (.exchange i ⟨.clearCode wallet, .ok ()⟩))
    (hstep : (service kapso request).Step v (.exchange i ⟨.clearCode wallet, .ok ()⟩) v') :
    ∀ j job, v'.jobs j = some job → ¬Reading (request j) wallet code job.asked := by
  intro j job hjob hreading
  cases hstep with
  | @exchange _ job' _ s hother hawaits hresponds =>
      by_cases hji : j = i
      · subst hji
        simp only [Function.update_self, Option.some.injEq] at hjob
        subst hjob
        rcases hreading with ⟨_, _, _, _, _, -, -, -, -, hclear⟩
        exact hclear (.ok ()) (List.mem_append_right _ (List.mem_singleton_self _))
      · simp only [Function.update_of_ne hji] at hjob
        exact hapart.clears i wallet rfl j job code hji hjob hreading

/-- As long as codes are stored and taken away while no other check of the wallet is under
way, and every check that passes is for the number that the wallet's last code went to: a
stored number was sent the code that was accepted for it, at most ten minutes earlier, and
before a code is accepted a second time it is stored again. -/
theorem verified_phone_received (hfresh : Fresh w)
    (run : Run (service kapso request).Step w events v)
    (haddressed : ∀ k u event u', StepAt (service kapso request).Step w events k u event u' →
      Addressed request u event)
    (hapart : ∀ k u event u', StepAt (service kapso request).Step w events k u event u' →
      Apart request u event) :
    (∀ k u u' i wallet phone verifiedAt, StepAt (service kapso request).Step w events k u
        (.exchange i ⟨.storePhone wallet phone verifiedAt, .ok ()⟩) u' →
      ∃ job code t, u.jobs i = some job ∧ AcceptedAt (request i) job.asked wallet phone code t ∧
        Received u.shared.sent phone code t) ∧
      ∀ k₁ k₂ i₁ i₂ wallet walletAddress phone code, k₁ < k₂ → AcceptsAt events k₁ i₁ wallet →
        AcceptsAt events k₂ i₂ wallet → request i₂ = .verifyPhoneOtp walletAddress phone code →
        ∃ k, k₁ < k ∧ k < k₂ ∧ StoresAt events k wallet code := by
  refine ⟨fun k u u' i wallet phone verifiedAt hat => received_of_storePhone hfresh
    (fun k u event u' hat => hfresh.backed haddressed hapart hat) hat, ?_⟩
  intro k₁ k₂ i₁ i₂ wallet walletAddress phone code hlt hfirst hsecond hrequest
  rcases run.stepAt hsecond with ⟨u, u', hat⟩
  rcases hat.since hlt hfirst with ⟨v₁, t, hat₁, hbetween⟩
  have hcleared := cleared_of_step hat₁.taken
  have hunread : ∀ j job, t.jobs j = some job → ¬Reading (request j) wallet code job.asked :=
    not_reading_of_step (hapart k₁ v₁ _ t hat₁) hat₁.taken
  have htaken := hat.taken
  cases htaken with
  | @exchange _ job _ s hjob hawaits hresponds =>
      rw [hfresh.programmed hat.before i₂ job hjob, hrequest] at hawaits
      rcases verifyPhoneOtp_awaits hawaits (fun hquiet => hquiet) with ⟨w', -, hverifying⟩
      have hreading : Reading (request i₂) wallet code job.asked := by
        generalize job.asked = asked at hverifying
        cases hverifying with
        | clearCode hne hquiet hpasses =>
            exact (VerifyingAt.clearCode hne hquiet hpasses).reading hrequest
      rcases exists_storeCode_of_reading hbetween hcleared hunread i₂ job hjob hreading with
        ⟨i, expiresAt, r, hstored⟩
      rcases List.getElem?_of_mem hstored with ⟨n, hn⟩
      rw [List.getElem?_drop] at hn
      rcases getElem?_take_eq_some hn with ⟨hbefore₂, hn⟩
      exact ⟨k₁ + 1 + n, by omega, hbefore₂, i, expiresAt, r, hn⟩

end Effects

/-! ## Two numbers and one code -/

def effect? (i : Nat) (s : PhoneState Nat) : Asked → Option (PhoneState Nat)
  | ⟨ask, .ok answer⟩ => if s.answers ask answer = true then some (s.effect i ask) else none
  | ⟨_, .error _⟩ => none

theorem effect?_responds {i : Nat} {s s' : PhoneState Nat} {x : Asked}
    (h : effect? i s x = some s') :
    Responds i s x s' := by
  rcases x with ⟨ask, error | answer⟩
  · cases h
  · rcases Option.ite_none_right_eq_some.mp h with ⟨hanswers, heffect⟩
    cases heffect
    exact ⟨hanswers, rfl⟩

def sampleWallet : Text := '0' :: 'x' :: List.replicate 40 '1'

def sampleUser : User := { walletAddress := sampleWallet }

def sampleCode : Text := "100000".toList

/-- The user with a code. -/
def pendingUser : User :=
  { sampleUser with
    phoneOtpCode := some sampleCode
    phoneOtpExpiresAt := some 600000
    lastPhoneOtpSentAt := some 0 }

def firstPhone : Text := "+5491".toList

def secondPhone : Text := "+5492".toList

/-- A code for the first number, and checks of it for the first and the second number. -/
def sampleRequest : Nat → Request
  | 0 => .verifyPhone sampleWallet firstPhone
  | 1 => .verifyPhoneOtp sampleWallet firstPhone sampleCode
  | 2 => .verifyPhoneOtp sampleWallet secondPhone sampleCode
  | _ => .verifyPhoneOtp sampleWallet firstPhone sampleCode

def samplePool : Pool Nat := ⟨⟨0, [sampleUser], fun _ => none, []⟩, fun _ => none⟩

def sending : List (Event Nat) :=
  [.start 0 (),
   .exchange 0 ⟨.findUser sampleWallet, .ok (some sampleUser)⟩,
   .exchange 0 ⟨.findByPhone firstPhone, .ok none⟩,
   .exchange 0 ⟨.random, .ok 100000⟩,
   .exchange 0 ⟨.dateNow, .ok 0⟩,
   .exchange 0 ⟨.storeCode sampleWallet sampleCode 600000, .ok ()⟩,
   .exchange 0 ⟨.sendTemplate firstPhone sampleCode, .ok ()⟩,
   .exchange 0 ⟨.dateNow, .ok 0⟩,
   .exchange 0 ⟨.storeSentAt sampleWallet 0, .ok ()⟩,
   .settle 0 (.ok ())]

/-- A check up to its clock. -/
def checking (i : Nat) (phone : Text) : List (Event Nat) :=
  [.start i (),
   .exchange i ⟨.findUser sampleWallet, .ok (some pendingUser)⟩,
   .exchange i ⟨.findByPhone phone, .ok none⟩,
   .exchange i ⟨.findUser sampleWallet, .ok (some pendingUser)⟩,
   .exchange i ⟨.dateNow, .ok 0⟩]

def clearing (i : Nat) : List (Event Nat) := [.exchange i ⟨.clearCode sampleWallet, .ok ()⟩]

def storing (i : Nat) (phone : Text) : List (Event Nat) :=
  [.exchange i ⟨.dateNow, .ok 0⟩, .exchange i ⟨.storePhone sampleWallet phone 0, .ok ()⟩]

def honest : List (Event Nat) :=
  sending ++ checking 1 firstPhone ++ clearing 1 ++ storing 1 firstPhone

/-- The code of the first number confirms the second. -/
def switched : List (Event Nat) :=
  sending ++ checking 2 secondPhone ++ clearing 2 ++ storing 2 secondPhone

/-- Two checks of one code. -/
def overlapping : List (Event Nat) :=
  sending ++ checking 1 firstPhone ++ checking 3 firstPhone ++ clearing 1 ++ clearing 3

abbrev sampleStep : Pool Nat → Event Nat → Option (Pool Nat) :=
  (service true sampleRequest).next? effect?

theorem sample_run {events : List (Event Nat)} {w w' : Pool Nat}
    (h : events.foldlM sampleStep w = some w') :
    Run (service true sampleRequest).Step w events w' :=
  Run.of_foldlM (Service.next?_step fun _ _ _ _ => effect?_responds) h

theorem exists_sample_run {events : List (Event Nat)}
    (h : (events.foldlM sampleStep samplePool).isSome = true) :
    ∃ w', Run (service true sampleRequest).Step samplePool events w' := by
  rcases Option.isSome_iff_exists.mp h with ⟨w', hw'⟩
  exact ⟨w', sample_run hw'⟩

theorem samplePool_fresh : Fresh samplePool :=
  ⟨fun _ => rfl, by simp [samplePool, sampleUser], fun _ => rfl⟩

/-- What an event does to the table when nothing throws. -/
def effectOf (s : PhoneState Nat) : Event Nat → PhoneState Nat
  | .exchange i ⟨ask, .ok _⟩ => s.effect i ask
  | _ => s

/-- Time stands still, and nothing throws. -/
def smooth : Event Nat → Bool
  | .outside => false
  | .exchange _ ⟨_, .error _⟩ => false
  | _ => true

theorem shared_of_smooth {request : Nat → Request} {events : List (Event Nat)} {w v : Pool Nat}
    (run : Run (service kapso request).Step w events v) (hsmooth : events.all smooth = true) :
    v.shared = events.foldl effectOf w.shared := by
  induction run with
  | nil => rfl
  | snoc before hstep ih =>
      rw [List.all_append, Bool.and_eq_true] at hsmooth
      rw [List.foldl_append, ← ih hsmooth.1]
      cases hstep with
      | start | settle => rfl
      | outside => cases hsmooth.2
      | @exchange i job x s hjob hawaits hresponds =>
          rcases x with ⟨ask, error | answer⟩
          · cases hsmooth.2
          · exact hresponds.2

/-- A code is stored or taken away. -/
def isCodeWrite : Event Nat → Bool
  | .exchange _ ⟨.storeCode _ _ _, _⟩ => true
  | .exchange _ ⟨.clearCode _, _⟩ => true
  | _ => false

def threadOf : Event Nat → Option Nat
  | .start i _ => some i
  | .exchange i _ => some i
  | .settle i _ => some i
  | .outside => none

theorem honest_codeWrite {k : Nat} {event : Event Nat} (hfound : honest[k]? = some event)
    (hwrite : isCodeWrite event = true) : k = 5 ∨ k = 15 := by
  have hposition : ∀ k < honest.length, (honest[k]?.any isCodeWrite) = true → k = 5 ∨ k = 15 := by
    decide
  exact hposition k (List.getElem?_eq_some_iff.mp hfound).choose (by rw [hfound]; exact hwrite)

/-- Nobody but the check itself reads a code. -/
theorem honest_unread {k i : Nat} {u : Pool Nat} {wallet : Text}
    (before : Run (service true sampleRequest).Step samplePool (honest.take k) u)
    (hthreads : ∀ event ∈ honest.take k, threadOf event = some 0 ∨ threadOf event = some i) :
    Unread sampleRequest u i wallet := by
  intro j job code hne hjob hreading
  rcases hreading with ⟨_, _, user, reads, after, hrequest, -, hasked, -, -⟩
  have hmem := (Service.events_of_job before (fun _ => rfl) hjob).2 _
    (hasked ▸ List.mem_append_right reads List.mem_cons_self)
  rcases hthreads _ hmem with hthread | hthread
  · cases hthread
    cases hrequest
  · cases hthread
    exact hne rfl

theorem honest_apart (k : Nat) (u : Pool Nat) (event : Event Nat) (u' : Pool Nat)
    (hat : StepAt (service true sampleRequest).Step samplePool honest k u event u') :
    Apart sampleRequest u event := by
  constructor
  · rintro i wallet code expiresAt r rfl
    rcases honest_codeWrite hat.found rfl with rfl | rfl
    · exact honest_unread hat.before (fun event hmem => .inl (by revert event; decide))
    · cases hat.found
  · rintro i wallet rfl
    rcases honest_codeWrite hat.found rfl with rfl | rfl
    · cases hat.found
    · cases hat.found
      exact honest_unread hat.before (by decide)

theorem honest_addressed (k : Nat) (u : Pool Nat) (event : Event Nat) (u' : Pool Nat)
    (hat : StepAt (service true sampleRequest).Step samplePool honest k u event u') :
    Addressed sampleRequest u event := by
  rintro i wallet walletAddress phone code rfl hrequest issue hissue
  rcases honest_codeWrite hat.found rfl with rfl | rfl
  · cases hat.found
  · cases hat.found
    cases hrequest
    have hlast : u.shared.issue sampleWallet =
        some ⟨0, sampleCode, 600000, 0, some ⟨firstPhone, sampleCode, 0⟩⟩ := by
      rw [shared_of_smooth hat.before (by decide)]
      decide +kernel
    rw [hlast, Option.some.injEq] at hissue
    subst hissue
    exact ⟨rfl, by simp⟩

theorem verified_phone_received_honest :
    ∃ u u' job code t, StepAt (service true sampleRequest).Step samplePool honest 17 u
        (.exchange 1 ⟨.storePhone sampleWallet firstPhone 0, .ok ()⟩) u' ∧ u.jobs 1 = some job ∧
      AcceptedAt (sampleRequest 1) job.asked sampleWallet firstPhone code t ∧
      Received u.shared.sent firstPhone code t := by
  rcases exists_sample_run (by decide +kernel : (honest.foldlM sampleStep samplePool).isSome = true)
    with ⟨w', run⟩
  rcases run.stepAt (i := 17) rfl with ⟨u, u', hat⟩
  rcases (verified_phone_received samplePool_fresh run honest_addressed honest_apart).1 17 u u' 1
    sampleWallet firstPhone 0 hat with
    ⟨job, code, t, hjob, haccepted, hreceived⟩
  exact ⟨u, u', job, code, t, hat, hjob, haccepted, hreceived⟩

/-- A number is stored that was sent nothing, and one code is accepted twice. -/
theorem verified_phone_not_received :
    Fresh samplePool ∧
      (∃ u u', StepAt (service true sampleRequest).Step samplePool switched 17 u
          (.exchange 2 ⟨.storePhone sampleWallet secondPhone 0, .ok ()⟩) u' ∧
        ∀ code t, ¬Received u.shared.sent secondPhone code t) ∧
      ∃ w', Run (service true sampleRequest).Step samplePool overlapping w' ∧
        AcceptsAt overlapping 20 1 sampleWallet ∧ AcceptsAt overlapping 21 3 sampleWallet ∧
        ¬∃ k, 20 < k ∧ k < 21 ∧ StoresAt overlapping k sampleWallet sampleCode := by
  refine ⟨samplePool_fresh, ?_, ?_⟩
  · rcases exists_sample_run (by decide +kernel : (switched.foldlM sampleStep samplePool).isSome =
      true) with ⟨w', run⟩
    rcases run.stepAt (i := 17) rfl with ⟨u, u', hat⟩
    refine ⟨u, u', hat, fun code t hreceived => ?_⟩
    have hsent : u.shared.sent = [⟨firstPhone, sampleCode, 0⟩] := by
      rw [shared_of_smooth hat.before (by decide)]
      decide +kernel
    rcases hreceived with ⟨m, hm, hcarries, -⟩
    rw [hsent, List.mem_singleton] at hm
    rw [hm] at hcarries
    exact absurd hcarries.1 (by decide)
  · rcases exists_sample_run
      (by decide +kernel : (overlapping.foldlM sampleStep samplePool).isSome = true) with ⟨w', run⟩
    refine ⟨w', run, rfl, rfl, ?_⟩
    rintro ⟨k, hafter, hbefore, -⟩
    omega

end PhoneOtp

end Lendoor.Backend
