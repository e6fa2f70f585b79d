import Lendoor.Backend.OtpGuesses

/-! # What can be guessed

The bound on session codes and onboarding codes, a run that reaches it, and the runs that
pass it where requests overlap.
-/

namespace Lendoor.Backend

open Cctp (Text)
open Attempts (Shown Shows Bounded ApartRun)

/-- Between two codes at most five wrong ones are compared, and a session code gives one
token at most, where requests keep apart. -/
theorem otp_guesses_bounded (sdk : Onboarding.OnboardingSdk) (ι : Type) [DecidableEq ι] :
    (∀ (email : Text) (w w' : WalletLink.Pool ι) (labels : List
      (WalletLink.Event ι × Option Shown)), ApartRun (WalletLink.guessing sdk email)
      (WalletLink.service sdk ι) w labels w' →
        Bounded 5 (labels.map Prod.snd)) ∧
    ∀ (wallet : Text) (w w' : Onboarding.OtpPool ι)
    (labels : List (Onboarding.OtpEvent ι × Option Shown)),
      ApartRun (Onboarding.guessing sdk wallet) (Onboarding.service sdk ι) w labels w' →
        Bounded 5 (labels.map Prod.snd) :=
  ⟨fun email _ _ _ hrun => (WalletLink.guarded sdk email ι).bounded hrun,
    fun wallet _ _ _ hrun => (Onboarding.guarded sdk wallet ι).bounded hrun⟩

/-! ## Requests one after the other, and at once -/

def rightCode : Text := "100000".toList

def wrongCode : Text := "000000".toList

/-- SHA-256 of the two codes. -/
def rightDigest : Text :=
  "3bb78535cc9555ff19fe3556aaa41c78".toList ++
  "a0a45c64d49ba2bc564507648a8e77a1".toList

def wrongDigest : Text :=
  "91b4d142823f7d20c5f08df69122de43".toList ++
  "f35f057a988d9619f6d3138485c9a203".toList

def otpSdk : Onboarding.OnboardingSdk where
  toLowerCase := id
  hashOtp code := if code = rightCode then rightDigest else if code = wrongCode then
    wrongDigest else code

def otpEmail : Text := "a@x.io".toList

namespace WalletLink

def effect? : LinkState → Asked → Option LinkState :=
  Service.effectOf? LinkState.answers LinkState.effect

theorem effect?_responds {s s' : LinkState} {x : Asked} (h : effect? s x = some s') :
    Responds s x s' := by
  rcases Service.effectOf?_eq_some.mp h with ⟨ask, answer, rfl, hdone⟩
  exact hdone

theorem effect?_unique {s t u : LinkState} {x : Asked} (h : effect? s x = some t)
    (hresponds : Responds s x u) : u = t := by
  rcases Service.effectOf?_eq_some.mp h with ⟨ask, answer, rfl, -, rfl⟩
  exact hresponds.2

/-- The row after a code was sent and wrong codes were compared. -/
def sentRow (count : Nat) : WalletLinkSession :=
  { issued otpSdk 1 rightCode 0 with otpAttemptCount := count }

def sampleToken : Text := List.replicate 48 'a'

abbrev Label (ι : Type) : Type := Event ι × Option Shown

section Labels

variable {ι : Type} (i : ι)

def sending : List (Label ι) :=
  [(.start i (.start otpEmail), none),
   (.exchange i ⟨.findUsers otpEmail, .ok [1]⟩, none),
   (.exchange i ⟨.findSession otpEmail, .ok none⟩, none),
   (.exchange i ⟨.newDate, .ok 0⟩, none),
   (.exchange i ⟨.randomInt, .ok 100000⟩, none),
   (.exchange i ⟨.insertSession otpEmail (sentRow 0), .ok ()⟩, some .issued),
   (.settle i (.ok (.started (some 600000))), none)]

def reading (code : Text) (count : Nat) : List (Label ι) :=
  [(.start i (.session otpEmail code sampleToken), none),
   (.exchange i ⟨.findSession otpEmail, .ok (some (sentRow count))⟩, none)]

def comparing (shown : Option Shown) : List (Label ι) := [(.exchange i ⟨.newDate, .ok 0⟩, shown)]

def counting (count : Nat) : List (Label ι) :=
  [(.exchange i ⟨.saveSession otpEmail (sentRow (count + 1)), .ok ()⟩, none),
    (.settle i (.error fail), none)]

def granting : List (Label ι) :=
  [(.exchange i ⟨.saveSession otpEmail (granted (sentRow 0) sampleToken 0), .ok ()⟩, some .granted)]

end Labels

/-- Five wrong codes one after the other, and a sixth that is not compared. -/
def sequential : List (Label Unit) :=
  sending () ++
    (List.range 5).flatMap
    (fun n => reading () wrongCode n ++ comparing () (some .wrong) ++ counting () n) ++
    reading () wrongCode 5 ++ comparing () none ++
      [(.settle () (.error ⟨.unauthorized, "Too many attempts, request a new code"⟩), none)]

/-- Six wrong codes and the right one twice, all read before any is counted. -/
def overlapping : List (Label Nat) :=
  [1, 2, 3, 4, 5, 6].flatMap (fun i => reading i wrongCode 0) ++ reading 7 rightCode 0 ++
    reading 8 rightCode 0 ++
    [1, 2, 3, 4, 5, 6].flatMap (fun i => comparing i (some .wrong)) ++
    comparing 7 none ++ comparing 8 none ++
      granting 7 ++ granting 8

def samplePool (ι : Type) : Pool ι := ⟨⟨0, fun _ => none⟩, fun _ => none⟩

/-- The request has read the row that is stored, and nothing throws. -/
def reads? (w : Pool Unit) : Event Unit → Bool
  | .exchange i ⟨_, r⟩ => r.toOption.isSome &&
      (w.jobs i).all fun job => job.asked.all fun
        | ⟨.findSession email, .ok (some row)⟩ => w.shared.sessions email = some row
        | _ => true
  | _ => true

theorem apart_of_reads? {w : Pool Unit} {event : Event Unit} (h : reads? w event = true) :
    (guessing otpSdk otpEmail).Apart w event := by
  rintro i ⟨ask, r⟩ job rfl hjob
  rw [reads?, hjob, Option.all_some, Bool.and_eq_true, List.all_eq_true] at h
  refine ⟨fun _ j _ hj _ => absurd (Subsingleton.elim j i) hj, fun _ row hrow => ?_, fun _ _ => ?_⟩
  · exact ⟨row, of_decide_eq_true (h.2 _ hrow), rfl, rfl⟩
  · cases r with
    | error error => cases h.1
    | ok answer => exact ⟨answer, rfl⟩

theorem sequential_apart :
    ∃ w', ApartRun (guessing otpSdk otpEmail) (service otpSdk Unit) (samplePool Unit) sequential
      w' := by
  have hsome :
      (sequential.foldlM
      (Attempts.apart? (guessing otpSdk otpEmail) (service otpSdk Unit) (fun _ => effect?) reads?)
      (samplePool Unit)).isSome = true := by decide +kernel
  rcases Option.isSome_iff_exists.mp hsome with ⟨w', hw'⟩
  exact ⟨w',
    ApartRun.of_foldlM (fun _ _ _ _ h => effect?_responds h) (fun _ _ _ _ _ h => effect?_unique h)
    (fun _ _ h => apart_of_reads? h) (fun _ => rfl) hw'⟩

theorem overlapping_run :
    ∃ w', Run (Shows (service otpSdk Nat).Step (guessing otpSdk otpEmail).observe) (samplePool Nat)
    (sending 0 ++ overlapping) w' := by
  have hsome : ((sending 0 ++ overlapping).foldlM
      (Attempts.showing? (guessing otpSdk otpEmail) (service otpSdk Nat) fun _ => effect?)
      (samplePool Nat)).isSome = true := by decide +kernel
  rcases Option.isSome_iff_exists.mp hsome with ⟨w', hw'⟩
  exact ⟨w', Attempts.run_of_showing (fun _ _ _ _ h => effect?_responds h) hw'⟩

end WalletLink

namespace Onboarding

def otpEffect? : OnboardingState → Asked → Option OnboardingState :=
  Service.effectOf? OnboardingState.answers OnboardingState.effect

theorem otpEffect?_responds {s s' : OnboardingState} {x : Asked} (h : otpEffect? s x = some s') :
    Responds s x s' := by
  rcases Service.effectOf?_eq_some.mp h with ⟨ask, answer, rfl, hdone⟩
  exact hdone

theorem otpEffect?_unique {s t u : OnboardingState} {x : Asked} (h : otpEffect? s x = some t)
    (hresponds : Responds s x u) : u = t := by
  rcases Service.effectOf?_eq_some.mp h with ⟨ask, answer, rfl, -, rfl⟩
  exact hresponds.2

def otpWallet : Text := '0' :: 'x' :: List.replicate 40 '1'

def registeredRow : NotVerifiedUser := { email := some otpEmail }

/-- The row after a code was sent and wrong codes were compared. -/
def codeRow (count : Nat) : NotVerifiedUser :=
  { withCode otpSdk registeredRow rightCode 0 with otpAttemptCount := count }

abbrev OtpLabel (ι : Type) : Type := OtpEvent ι × Option Shown

section Labels

variable {ι : Type} (i : ι)

def registering : List (OtpLabel ι) :=
  [(.start i (.verifyEmail otpWallet otpEmail none), none),
   (.exchange i ⟨.findByEmail otpEmail, .ok none⟩, none),
   (.exchange i ⟨.findUser otpWallet, .ok none⟩, none),
   (.exchange i ⟨.findPending otpWallet, .ok none⟩, none),
   (.exchange i ⟨.savePending otpWallet registeredRow, .ok ()⟩, none),
   (.exchange i ⟨.newDate, .ok 0⟩, none),
   (.exchange i ⟨.randomInt, .ok 100000⟩, none),
   (.exchange i ⟨.savePending otpWallet (codeRow 0), .ok ()⟩, some .issued),
   (.exchange i ⟨.sendMail otpEmail rightCode, .ok ()⟩, none),
   (.exchange i ⟨.getStepByWallet otpWallet none, .ok []⟩, none),
   (.settle i (.ok (.step [])), none)]

def verifying (count : Nat) : List (OtpLabel ι) :=
  [(.start i (.verifyOtp otpWallet wrongCode "dev".toList none), none),
   (.exchange i ⟨.findPending otpWallet, .ok (some (codeRow count))⟩, none)]

def rejecting (shown : Option Shown) : List (OtpLabel ι) := [(.exchange i ⟨.newDate, .ok 0⟩, shown)]

def savingAttempt (count : Nat) : List (OtpLabel ι) :=
  [(.exchange i ⟨.savePending otpWallet (codeRow (count + 1)), .ok ()⟩, none),
   (.settle i (.error (badRequest "Invalid code")), none)]

end Labels

/-- Five wrong codes one after the other, and a sixth that is not compared. -/
def otpSequential : List (OtpLabel Unit) :=
  registering () ++
    (List.range 5).flatMap
    (fun n => verifying () n ++ rejecting () (some .wrong) ++ savingAttempt () n) ++
      verifying () 5 ++ rejecting () none ++
        [(.settle () (.error (badRequest "Too many failed attempts, request a new code")), none)]

/-- Six wrong codes, all read before any is counted. -/
def otpOverlapping : List (OtpLabel Nat) :=
  [1, 2, 3, 4, 5, 6].flatMap (fun i => verifying i 0) ++ [1, 2, 3, 4, 5, 6].flatMap fun i =>
    rejecting i (some .wrong)

def otpPool (ι : Type) : OtpPool ι := ⟨⟨0, [], fun _ => none⟩, fun _ => none⟩

/-- The request has read the code and the attempts that are stored, and nothing throws. -/
def otpReads? (w : OtpPool Unit) : OtpEvent Unit → Bool
  | .exchange i ⟨_, r⟩ => r.toOption.isSome &&
      (w.jobs i).all fun job => job.asked.all fun
        | ⟨.findPending wallet, .ok (some row)⟩ => w.shared.pending wallet = some row
        | _ => true
  | _ => true

theorem apart_of_otpReads? {w : OtpPool Unit} {event : OtpEvent Unit}
    (h : otpReads? w event = true) :
    (guessing otpSdk otpWallet).Apart w event := by
  rintro i ⟨ask, r⟩ job rfl hjob
  rw [otpReads?, hjob, Option.all_some, Bool.and_eq_true, List.all_eq_true] at h
  refine ⟨fun _ j _ hj _ => absurd (Subsingleton.elim j i) hj, fun _ row hrow => ?_, fun _ _ => ?_⟩
  · exact ⟨row, of_decide_eq_true (h.2 _ hrow), rfl⟩
  · cases r with
    | error error => cases h.1
    | ok answer => exact ⟨answer, rfl⟩

theorem otpSequential_apart :
    ∃ w', ApartRun (guessing otpSdk otpWallet) (service otpSdk Unit) (otpPool Unit) otpSequential
      w' := by
  have hsome : (otpSequential.foldlM
      (Attempts.apart? (guessing otpSdk otpWallet) (service otpSdk Unit)
        (fun _ => otpEffect?) otpReads?)
      (otpPool Unit)).isSome = true := by decide +kernel
  rcases Option.isSome_iff_exists.mp hsome with ⟨w', hw'⟩
  exact ⟨w', ApartRun.of_foldlM (fun _ _ _ _ h => otpEffect?_responds h)
    (fun _ _ _ _ _ h => otpEffect?_unique h)
    (fun _ _ h => apart_of_otpReads? h) (fun _ => rfl) hw'⟩

theorem otpOverlapping_run :
    ∃ w', Run (Shows (service otpSdk Nat).Step (guessing otpSdk otpWallet).observe)
    (otpPool Nat) (registering 0 ++ otpOverlapping) w' := by
  have hsome : ((registering 0 ++ otpOverlapping).foldlM
      (Attempts.showing? (guessing otpSdk otpWallet) (service otpSdk Nat) fun _ => otpEffect?)
      (otpPool Nat)).isSome = true := by decide +kernel
  rcases Option.isSome_iff_exists.mp hsome with ⟨w', hw'⟩
  exact ⟨w', Attempts.run_of_showing (fun _ _ _ _ h => otpEffect?_responds h) hw'⟩

end Onboarding

/-- Requests one after the other reach the limit and stop there. -/
theorem otp_guesses_bounded_sequential :
    (∃ w', ApartRun (WalletLink.guessing otpSdk otpEmail) (WalletLink.service otpSdk Unit)
        (WalletLink.samplePool Unit) WalletLink.sequential w' ∧
        Bounded 5 (WalletLink.sequential.map Prod.snd) ∧
        (WalletLink.sequential.map Prod.snd).count (some .wrong) = 5) ∧
      ∃ w', ApartRun (Onboarding.guessing otpSdk Onboarding.otpWallet)
        (Onboarding.service otpSdk Unit) (Onboarding.otpPool Unit) Onboarding.otpSequential w' ∧
        Bounded 5 (Onboarding.otpSequential.map Prod.snd) ∧
        (Onboarding.otpSequential.map Prod.snd).count (some .wrong) = 5 := by
  rcases WalletLink.sequential_apart with ⟨w, hw⟩
  rcases Onboarding.otpSequential_apart with ⟨w', hw'⟩
  exact ⟨⟨w, hw, (otp_guesses_bounded otpSdk Unit).1 _ _ _ _ hw, by decide⟩,
    w', hw', (otp_guesses_bounded otpSdk Unit).2 _ _ _ _ hw', by decide⟩

/-- Six wrong codes are compared with one code and it gives two tokens, where requests
overlap. -/
theorem otp_guesses_unbounded :
    (∀ i, (WalletLink.samplePool Nat).jobs i = none) ∧
      (∃ w', Run
        (Shows (WalletLink.service otpSdk Nat).Step (WalletLink.guessing otpSdk otpEmail).observe)
        (WalletLink.samplePool Nat) (WalletLink.sending 0 ++ WalletLink.overlapping) w') ∧
      some Shown.issued ∉ WalletLink.overlapping.map Prod.snd ∧
      (WalletLink.overlapping.map Prod.snd).count (some .wrong) = 6 ∧
      (WalletLink.overlapping.map Prod.snd).count (some .granted) = 2 ∧
      (∀ i, (Onboarding.otpPool Nat).jobs i = none) ∧
      (∃ w', Run
        (Shows (Onboarding.service otpSdk Nat).Step
          (Onboarding.guessing otpSdk Onboarding.otpWallet).observe)
        (Onboarding.otpPool Nat) (Onboarding.registering 0 ++ Onboarding.otpOverlapping) w') ∧
      some Shown.issued ∉ Onboarding.otpOverlapping.map Prod.snd ∧
      (Onboarding.otpOverlapping.map Prod.snd).count (some .wrong) = 6 :=
  ⟨fun _ => rfl, WalletLink.overlapping_run, by decide, by decide, by decide,
    fun _ => rfl, Onboarding.otpOverlapping_run, by decide, by decide⟩

end Lendoor.Backend
