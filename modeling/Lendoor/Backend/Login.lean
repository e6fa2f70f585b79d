import Lendoor.Backend.Auth

/-! # Logins by nonce

How often a nonce logs in. A login holds a nonce from its successful lookup to its save;
as long as no two logins hold a nonce at once, at most one returns a token for it.
-/

namespace Lendoor.Backend

open Cctp (Text falsy)
open Async (call caught lift Trace Awaits AsksOnly)

namespace Auth

variable (sdk : AuthSdk)

/-- The nonce that a login consumes. Logins of the trusted domain consume none. -/
def Request.nonce? : Request → Option Text
  | .verifyStellar input => some input.nonce
  | .verifySiwe input =>
      match sdk.parseSiweMessage input.message with
      | none => none
      | some parsed =>
          if falsy parsed.nonce = true ∨ isLemonDomain (parsed.domain.getD []) = true then none
          else parsed.nonce
  | .refreshToken _ => none
  | .validateToken _ => none

/-! ## What a login asks -/

/-- A call that neither looks a nonce up nor saves one, and leaves cached tokens alone. -/
def Quiet : Ask → Prop
  | .findNonce _ _ => False
  | .saveNonce _ _ => False
  | .setEntry _ _ _ => False
  | .delEntry _ => False
  | _ => True

/-- A save marks its nonce as used. -/
def MarksUsed : Ask → Prop
  | .saveNonce _ row => row.used = true
  | _ => True

/-- What a login may ask. -/
def LoginAsk : Ask → Prop
  | .saveNonce _ row => row.used = true
  | .setEntry _ _ _ => False
  | .delEntry _ => False
  | _ => True

theorem Quiet.loginAsk {ask : Ask} (h : Quiet ask) : LoginAsk ask := by
  cases ask with
  | saveNonce | setEntry | delEntry => exact h.elim
  | _ => trivial

theorem LoginAsk.marksUsed {ask : Ask} (h : LoginAsk ask) : MarksUsed ask := by
  cases ask with
  | saveNonce nonce row => exact h
  | _ => trivial

variable {sdk}

theorem createAccessToken_quiet (wallet : Text) : (createAccessToken wallet).AsksOnly Quiet := by
  refine .bind (.call trivial) fun token => .bind (.call trivial) fun now => ?_
  exact .bind (.lift _) fun walletAddress => .bind (.call trivial) fun _ => trivial

theorem verifyStellar_quiet (input : LoginInput) (wallet : Text) :
    (verifyStellar sdk input wallet).AsksOnly Quiet := by
  unfold verifyStellar
  dsimp only
  split
  · trivial
  · split
    · trivial
    · exact .bind (.caught trivial) fun _ => trivial

theorem verifySiwe_quiet (input : LoginInput) (parsed : SiweMessage) (now : Nat) :
    (verifySiwe input parsed now).AsksOnly Quiet := by
  refine .bind (.caught trivial) fun direct => ?_
  split
  · trivial
  · split
    · exact .bind (.caught trivial) fun _ => trivial
    · split
      · split
        · trivial
        · exact .bind (.caught trivial) fun _ => trivial
      · trivial

theorem markLemonNonce_asks (nonce : Text) : (markLemonNonce nonce).AsksOnly LoginAsk := by
  refine .bind (.caught trivial) fun found => ?_
  split
  · trivial
  · split
    · exact .bind (.caught rfl) fun _ => trivial
    · trivial

theorem verifyLemon_asks (input : LoginInput) (parsed : SiweMessage) (nonce : Text) (now : Nat) :
    (verifyLemon input parsed nonce now).AsksOnly LoginAsk := by
  unfold verifyLemon
  split
  · trivial
  · refine .bind (.call trivial) fun alreadyUsed => ?_
    split
    · trivial
    · refine .bind ((verifySiwe_quiet ..).mono fun _ => Quiet.loginAsk) fun isValid => ?_
      split
      · trivial
      · refine .bind (markLemonNonce_asks nonce) fun _ => .bind (.call trivial) fun _ => ?_
        exact .bind ((createAccessToken_quiet _).mono fun _ => Quiet.loginAsk) fun _ => trivial

/-- A login by nonce, after what it reads first. -/
theorem Request.login_form {request : Request} {n : Text} (h : request.nonce? sdk = some n) :
    ∃ (before : Program (Nat × Text)) (verify : Nat × Text → Program Bool) (message : String),
      before.AsksOnly Quiet ∧ (∀ c, (verify c).AsksOnly Quiet) ∧
      request.program sdk = before >>= fun c =>
        loginWithNonce n c.1 (verify c) message c.2 >>= fun s => pure (.session s) := by
  cases request with
  | verifyStellar input =>
      cases h
      refine ⟨lift (normalizeWallet input.wallet) >>= fun wallet => call Ask.newDate >>= fun now =>
        pure (now, wallet), fun c => Auth.verifyStellar sdk input c.2,
          "Invalid Stellar signature", ?_,
        fun c => verifyStellar_quiet input c.2, ?_⟩
      · exact .bind (.lift _) fun _ => .bind (.call trivial) fun _ => trivial
      · simp only [Request.program, verifyStellarAndIssueToken, Async.bind_assoc]
        rfl
  | verifySiwe input =>
      simp only [Request.nonce?] at h
      split at h
      · cases h
      · rename_i parsed hparsed
        split at h
        · cases h
        · rename_i hnonce
          rcases not_or.mp hnonce with ⟨hnamed, hdomain⟩
          refine ⟨call Ask.newDate >>= fun now =>
            pure (now, (parsed.address.map toLowerCase).getD []),
            fun c => Auth.verifySiwe input parsed c.1, "Invalid SIWE signature",
            .bind (.call trivial) fun _ => trivial, fun c => verifySiwe_quiet input parsed c.1, ?_⟩
          rw [h] at hnamed
          simp only [Request.program, verifySiweAndIssueToken, Async.bind_assoc]
          simp only [hparsed, hnamed, hdomain, h, Bool.false_eq_true, if_false, Option.getD_some]
          rfl
  | refreshToken currentToken => cases h
  | validateToken token => cases h

/-- What a login asks after its lookup. -/
def AfterLookup (n : Text) : Ask → Prop
  | .findNonce _ _ => False
  | .saveNonce nonce row => nonce = n ∧ row.used = true
  | .setEntry _ _ _ => False
  | .delEntry _ => False
  | _ => True

theorem Quiet.afterLookup {ask : Ask} (h : Quiet ask) (n : Text) : AfterLookup n ask := by
  cases ask with
  | findNonce | saveNonce | setEntry | delEntry => exact h.elim
  | _ => trivial

theorem AfterLookup.loginAsk {n : Text} {ask : Ask} (h : AfterLookup n ask) : LoginAsk ask := by
  cases ask with
  | saveNonce nonce row => exact h.2
  | setEntry | delEntry => exact h.elim
  | _ => trivial

/-- A login is its lookup, then calls that look nothing up and save only its nonce. -/
theorem loginWithNonce_form (n : Text) (now : Nat) {verify : Program Bool}
    (hverify : verify.AsksOnly Quiet) (message : String) (wallet : Text) :
    ∃ rest :
    Option SiweNonce → Program Session, (∀ stored, (rest stored).AsksOnly (AfterLookup n)) ∧
      loginWithNonce n now verify message wallet = call (Ask.findNonce n now) >>= rest := by
  refine ⟨_, fun stored => ?_, rfl⟩
  split
  · trivial
  · refine .bind (hverify.mono fun _ h => h.afterLookup n) fun isValid => ?_
    split
    · trivial
    · refine .bind (.call ⟨rfl, rfl⟩) fun _ => ?_
      exact .bind ((createAccessToken_quiet wallet).mono fun _ h => h.afterLookup n) fun _ =>
        trivial

/-- A login returns a token after it found its nonce and saved it, once. -/
theorem loginWithNonce_settles {n wallet : Text} {now : Nat}
    {verify : Program Bool} {message : String}
    (hverify : verify.AsksOnly Quiet) {asked : List Asked} {session : Session}
    (h : Trace (loginWithNonce n now verify message wallet) asked (.ok session)) :
    ∃ stored row quiet quiet', (∀ x ∈ quiet, Quiet x.1) ∧ (∀ x ∈ quiet', Quiet x.1) ∧
      asked = ⟨.findNonce n now, .ok (some stored)⟩ ::
        (quiet ++ ⟨.saveNonce n row, .ok ()⟩ :: quiet') := by
  rcases Async.trace_call_bind.mp h with ⟨_, _, hout⟩ | ⟨found, rest, rfl, hfound⟩
  · cases hout
  · cases found with
    | none => cases (Async.trace_throw.mp hfound).2
    | some stored =>
        rcases Async.trace_bind.mp hfound with ⟨_, _, hout⟩ |
          ⟨isValid, quiet, rest, rfl, hquiet, hvalid⟩
        · cases hout
        · split at hvalid
          · cases (Async.trace_throw.mp hvalid).2
          · rcases Async.trace_call_bind.mp hvalid with ⟨_, _, hout⟩ | ⟨_, rest, rfl, hsaved⟩
            · cases hout
            · rcases Async.trace_bind.mp hsaved with ⟨_, _, hout⟩ |
                ⟨token, quiet', rest, rfl, htoken, hend⟩
              · cases hout
              · rcases Async.trace_pure.mp hend with ⟨rfl, -⟩
                refine ⟨stored, { stored with used := true }, quiet, quiet',
                  hverify.of_mem_trace hquiet, (createAccessToken_quiet wallet).of_mem_trace htoken,
                  ?_⟩
                rw [List.append_nil]

theorem loginWithNonce_asks {n wallet : Text} {now : Nat} {verify : Program Bool}
    {message : String} (hverify : verify.AsksOnly Quiet) :
    (loginWithNonce n now verify message wallet).AsksOnly LoginAsk := by
  rcases loginWithNonce_form n now hverify message wallet with ⟨rest, hrest, hlogin⟩
  rw [hlogin]
  exact .bind (.call trivial) fun stored => (hrest stored).mono fun _ => AfterLookup.loginAsk

theorem verifyStellarAndIssueToken_asks (input : LoginInput) :
    (verifyStellarAndIssueToken sdk input).AsksOnly LoginAsk := by
  refine .bind (.lift _) fun wallet => .bind (.call trivial) fun now => ?_
  exact loginWithNonce_asks (verifyStellar_quiet input wallet)

theorem verifySiweAndIssueToken_asks (input : LoginInput) :
    (verifySiweAndIssueToken sdk input).AsksOnly LoginAsk := by
  refine .bind (.call trivial) fun now => ?_
  split
  · trivial
  · rename_i parsed _
    split
    · trivial
    · dsimp only
      split
      · exact verifyLemon_asks ..
      · exact loginWithNonce_asks (verifySiwe_quiet input parsed now)

theorem refreshToken_marksUsed (currentToken : Text) :
    (refreshToken currentToken).AsksOnly MarksUsed := by
  refine .bind (.call trivial) fun record => ?_
  split
  · trivial
  · split
    · trivial
    · refine .bind (.call trivial) fun now => ?_
      split
      · trivial
      · refine .bind (.call trivial) fun revokedAt => .bind (.call trivial) fun affected => ?_
        split
        · trivial
        · refine .bind (.call trivial) fun _ => .bind ?_ fun _ => trivial
          exact (createAccessToken_quiet _).mono fun _ h => h.loginAsk.marksUsed

theorem validateToken_marksUsed (token : Text) : (validateToken token).AsksOnly MarksUsed := by
  refine .bind (.call trivial) fun now => .bind (.call trivial) fun cached => ?_
  split
  · trivial
  · refine .bind (.call trivial) fun record => ?_
    split
    · trivial
    · split
      · trivial
      · split
        · trivial
        · exact .bind (.call trivial) fun _ => trivial

/-- Every save marks its nonce as used. -/
theorem Request.marksUsed (request : Request) : (request.program sdk).AsksOnly MarksUsed := by
  have hlogin := fun ask (h : LoginAsk ask) => h.marksUsed
  cases request with
  | verifyStellar input =>
      exact .bind ((verifyStellarAndIssueToken_asks input).mono hlogin) fun _ => trivial
  | verifySiwe input => exact .bind ((verifySiweAndIssueToken_asks input).mono hlogin) fun _ =>
      trivial
  | refreshToken currentToken => exact .bind (refreshToken_marksUsed _) fun _ => trivial
  | validateToken token => exact .bind (validateToken_marksUsed _) fun _ => trivial

variable {request : Request} {n : Text} {asked : List Asked}

/-- What a login by nonce asks comes before its lookup, is its lookup, or comes after. -/
theorem Request.login_awaits (h : request.nonce? sdk = some n) {ask : Ask}
    (hawaits : Awaits (request.program sdk) asked ask) :
    ((∀ x ∈ asked, Quiet x.1) ∧ (Quiet ask ∨ ∃ now, ask = .findNonce n now)) ∨
      AfterLookup n ask := by
  rcases Request.login_form h with ⟨before, verify, message, hbefore, hverify, hform⟩
  rw [hform] at hawaits
  rcases Async.awaits_bind.mp hawaits with hfirst | ⟨c, pre, rest, rfl, hpre, hafter⟩
  · exact .inr ((hbefore.awaits hfirst).afterLookup n)
  · rcases Async.awaits_bind.mp hafter with hlogin | ⟨s, _, _, _, _, hend⟩
    · rcases loginWithNonce_form n c.1 (hverify c) message c.2 with ⟨next, hnext, hform'⟩
      rw [hform'] at hlogin
      rcases Async.awaits_call_bind.mp hlogin with ⟨rfl, rfl⟩ | ⟨stored, rest, rfl, hrest⟩
      · rw [List.append_nil]
        exact .inl ⟨hbefore.of_mem_trace hpre, .inr ⟨c.1, rfl⟩⟩
      · exact .inr ((hnext stored).awaits hrest)
    · exact absurd hend Async.not_awaits_pure

/-- A login that returned found its nonce unused, and its save went through. -/
theorem Request.login_settles (h : request.nonce? sdk = some n) {out : Outcome}
    (htrace : Trace (request.program sdk) asked (.ok out)) :
    (∃ now stored, ⟨.findNonce n now, .ok (some stored)⟩ ∈ asked) ∧
      (∃ row, ⟨.saveNonce n row, .ok ()⟩ ∈ asked) ∧
        ∀ row e, ⟨.saveNonce n row, .error e⟩ ∉ asked := by
  rcases Request.login_form h with ⟨before, verify, message, hbefore, hverify, hform⟩
  rw [hform] at htrace
  rcases Async.trace_bind.mp htrace with ⟨_, _, hout⟩ | ⟨c, pre, rest, rfl, hpre, hafter⟩
  · cases hout
  · rcases Async.trace_bind.mp hafter with ⟨_, _, hout⟩ | ⟨s, login, rest, rfl, hlogin, hend⟩
    · cases hout
    · rcases Async.trace_pure.mp hend with ⟨rfl, -⟩
      rcases loginWithNonce_settles (hverify c) hlogin with
        ⟨stored, row, quiet, quiet', hquiet, hquiet', rfl⟩
      refine ⟨⟨c.1, stored, by simp⟩, ⟨row, by simp⟩, fun row' e hmem => ?_⟩
      simp only [List.append_nil, List.mem_append, List.mem_cons] at hmem
      rcases hmem with hmem | hmem | hmem | hmem | hmem
      · exact hbefore.of_mem_trace hpre _ hmem
      · cases hmem
      · exact hquiet _ hmem
      · cases hmem
      · exact hquiet' _ hmem

/-! ## Who holds a nonce -/

abbrev LoginJob : Type := Job Request Ask Answer HttpError Outcome

variable (sdk)

/-- The login has found the nonce. -/
def Looked (n : Text) (job : LoginJob) : Prop :=
  job.call.nonce? sdk = some n ∧ ∃ now row, ⟨.findNonce n now, .ok (some row)⟩ ∈ job.asked

/-- It has found the nonce and not yet asked to save it. -/
def Holds (n : Text) (job : LoginJob) : Prop :=
  Looked sdk n job ∧ ∀ row r, ⟨.saveNonce n row, r⟩ ∉ job.asked

/-- It has found the nonce, and no save of it was rejected. -/
def Engaged (n : Text) (job : LoginJob) : Prop :=
  Looked sdk n job ∧ ∀ row e, ⟨.saveNonce n row, .error e⟩ ∉ job.asked

def Saved (n : Text) (job : LoginJob) : Prop :=
  Engaged sdk n job ∧ ∃ row, ⟨.saveNonce n row, .ok ()⟩ ∈ job.asked

variable {sdk}

theorem Engaged.holds_or_saved {job : LoginJob} (h : Engaged sdk n job) :
    Holds sdk n job ∨ Saved sdk n job := by
  by_cases hsaved : ∃ row, ⟨.saveNonce n row, .ok ()⟩ ∈ job.asked
  · exact .inr ⟨h, hsaved⟩
  · refine .inl ⟨h.1, fun row r hmem => ?_⟩
    rcases r with e | answer
    · exact h.2 row e hmem
    · exact hsaved ⟨row, hmem⟩

def Spent (n : Text) (s : AuthState) : Prop := ∃ row, s.nonces n = some row ∧ row.used = true

variable (sdk) in
/-- How many logins returned for the nonce. -/
def logins (n : Text) (s : AuthState) : Nat := (s.returned.filterMap (Request.nonce? sdk)).count n

theorem Spent.effect {s : AuthState} (h : Spent n s) {ask : Ask} (hmarks : MarksUsed ask) :
    Spent n (s.effect ask) := by
  cases ask with
  | saveNonce nonce row =>
      by_cases heq : n = nonce
      · subst heq
        exact ⟨row, by simp [AuthState.effect], hmarks⟩
      · rcases h with ⟨row', hrow', hused⟩
        exact ⟨row', by simp [AuthState.effect, heq, hrow'], hused⟩
  | saveToken token row =>
      simp only [AuthState.effect]
      split <;> exact h
  | revokeToken token revokedAt =>
      simp only [AuthState.effect]
      split <;> exact h
  | _ => exact h

theorem effect_returned (s : AuthState) (ask : Ask) : (s.effect ask).returned = s.returned := by
  cases ask with
  | saveToken token row =>
      simp only [AuthState.effect]
      split <;> rfl
  | revokeToken token revokedAt =>
      simp only [AuthState.effect]
      split <;> rfl
  | _ => rfl

theorem Responds.spent {s s' : AuthState} {x : Asked} (h : Responds s x s') (hspent : Spent n s)
    (hmarks : MarksUsed x.1) : Spent n s' := by
  rcases h.cases with rfl | rfl
  · exact hspent
  · exact hspent.effect hmarks

theorem Responds.logins {s s' : AuthState} {x : Asked} (h : Responds s x s') :
    logins sdk n s' = logins sdk n s := by
  rcases h.cases with rfl | rfl
  · rfl
  · rw [Auth.logins, Auth.logins, effect_returned]

/-! ## The invariant -/

section Runs

variable {ι : Type} [DecidableEq ι]

variable (sdk) in
/-- At most one login is engaged with a nonce that has not logged in, none once it has. -/
structure SingleUse (n : Text) (w : Pool ι) : Prop where
  alone : ∀ i j a b, w.jobs i = some a → w.jobs j = some b → Engaged sdk n a →
    Engaged sdk n b → i = j
  spent : ∀ i job, w.jobs i = some job → Saved sdk n job → Spent n w.shared
  once : logins sdk n w.shared ≤ 1
  done : logins sdk n w.shared ≠ 0 →
    Spent n w.shared ∧ ∀ i job, w.jobs i = some job → ¬ Engaged sdk n job

variable {w w' : Pool ι} {event : Event ι}

/-- The invariant survives a step after which no login is newly engaged. -/
theorem SingleUse.update (h : SingleUse sdk n w) (i : ι) (o : Option LoginJob) (s : AuthState)
    (hspent : Spent n w.shared → Spent n s) (hlogins : logins sdk n s = logins sdk n w.shared)
    (hengaged : ∀ job, o = some job → Engaged sdk n job →
      ∃ old, w.jobs i = some old ∧ Engaged sdk n old)
    (hsaved : ∀ job, o = some job → Saved sdk n job → Spent n s) :
    SingleUse sdk n ⟨s, Function.update w.jobs i o⟩ := by
  have hold : ∀ j job, Function.update w.jobs i o j = some job → Engaged sdk n job →
      ∃ old, w.jobs j = some old ∧ Engaged sdk n old := by
    intro j job hjob hjobEngaged
    by_cases hji : j = i
    · subst hji
      rw [Function.update_self] at hjob
      exact hengaged job hjob hjobEngaged
    · rw [Function.update_of_ne hji] at hjob
      exact ⟨job, hjob, hjobEngaged⟩
  constructor
  · intro j k a b ha hb haEngaged hbEngaged
    rcases hold j a ha haEngaged with ⟨a', ha', haEngaged'⟩
    rcases hold k b hb hbEngaged with ⟨b', hb', hbEngaged'⟩
    exact h.alone j k a' b' ha' hb' haEngaged' hbEngaged'
  · intro j job hjob hjobSaved
    by_cases hji : j = i
    · subst hji
      simp only [Function.update_self] at hjob
      exact hsaved job hjob hjobSaved
    · simp only [Function.update_of_ne hji] at hjob
      exact hspent (h.spent j job hjob hjobSaved)
  · exact hlogins ▸ h.once
  · intro hdone
    rcases h.done (hlogins ▸ hdone) with ⟨hnow, hnone⟩
    refine ⟨hspent hnow, fun j job hjob hjobEngaged => ?_⟩
    rcases hold j job hjob hjobEngaged with ⟨old, hold', holdEngaged⟩
    exact hnone j old hold' holdEngaged

/-- A login finds a nonce that no other login holds. -/
def Alone (sdk : AuthSdk) (w : Pool ι) : Event ι → Prop
  | .exchange i ⟨.findNonce n _, .ok (some _)⟩ =>
      ∀ j job, j ≠ i → w.jobs j = some job → ¬ Holds sdk n job
  | _ => True

theorem not_spent_of_freshNonce {s : AuthState} {now : Nat} {row : SiweNonce}
    (h : s.freshNonce n now = some row) : ¬ Spent n s := by
  rintro ⟨row', hrow', hused⟩
  rcases Option.filter_eq_some_iff.mp h with ⟨hrow, hfresh⟩
  rw [hrow'] at hrow
  cases hrow
  simp [hused] at hfresh

/-- A lookup that succeeds engages its login alone. -/
theorem SingleUse.lookup (h : SingleUse sdk n w) {i : ι} {job : LoginJob} {now : Nat}
    {row : SiweNonce} (hquiet : ∀ x ∈ job.asked, Quiet x.1)
    (hfresh : w.shared.freshNonce n now = some row)
    (halone : ∀ j job, j ≠ i → w.jobs j = some job → ¬ Holds sdk n job) :
    SingleUse sdk n ⟨w.shared, Function.update w.jobs i (some ⟨job.call, job.program,
      job.asked ++ [⟨.findNonce n now, .ok (some row)⟩]⟩)⟩ := by
  have hunspent := not_spent_of_freshNonce hfresh
  have hothers : ∀ j job, j ≠ i → w.jobs j = some job → ¬ Engaged sdk n job := by
    intro j other hji hother hengaged
    rcases hengaged.holds_or_saved with hholds | hsaved
    · exact halone j other hji hother hholds
    · exact hunspent (h.spent j other hother hsaved)
  have hself : ∀ j other, Function.update w.jobs i (some ⟨job.call, job.program,
      job.asked ++ [⟨.findNonce n now, .ok (some row)⟩]⟩) j = some other → Engaged sdk n other →
      j = i := by
    intro j other hother hengaged
    by_contra hji
    rw [Function.update_of_ne hji] at hother
    exact hothers j other hji hother hengaged
  constructor
  · intro j k a b ha hb haEngaged hbEngaged
    rw [hself j a ha haEngaged, hself k b hb hbEngaged]
  · intro j other hother hsaved
    have hji := hself j other hother hsaved.1
    subst hji
    simp only [Function.update_self, Option.some.injEq] at hother
    subst hother
    rcases hsaved.2 with ⟨row', hmem⟩
    rcases List.mem_append.mp hmem with hmem | hmem
    · exact (hquiet _ hmem).elim
    · cases List.mem_singleton.mp hmem
  · exact h.once
  · intro hdone
    exact absurd (h.done hdone).1 hunspent

theorem SingleUse.exchange (h : SingleUse sdk n w) {i : ι} {job : LoginJob} {x : Asked}
    {s : AuthState} (hjob : w.jobs i = some job)
    (hawaits : Awaits (job.call.program sdk) job.asked x.1) (hrespond : Responds w.shared x s)
    (halone : Alone sdk w (.exchange i x)) :
    SingleUse sdk n ⟨s,
      Function.update w.jobs i (some ⟨job.call, job.program, job.asked ++ [x]⟩)⟩ := by
  have hmarks := (Request.marksUsed job.call).awaits hawaits
  by_cases hnew : Looked sdk n ⟨job.call, job.program, job.asked ++ [x]⟩ ∧ ¬ Looked sdk n job
  · -- the exchange is the lookup
    rcases hnew with ⟨⟨hnonce, now, row, hmem⟩, hnot⟩
    rcases List.mem_append.mp hmem with hmem | hmem
    · exact absurd ⟨hnonce, now, row, hmem⟩ hnot
    · rcases List.mem_singleton.mp hmem with rfl
      rcases hrespond with ⟨hanswers, rfl⟩
      rcases Request.login_awaits hnonce hawaits with ⟨hquiet, -⟩ | hafter
      · exact h.lookup hquiet (of_decide_eq_true hanswers).symm halone
      · exact hafter.elim
  · have hengaged : Engaged sdk n ⟨job.call, job.program, job.asked ++ [x]⟩ →
        Engaged sdk n job := by
      intro hengaged
      refine ⟨by_contra fun hnot => hnew ⟨hengaged.1, hnot⟩, fun row e hmem => ?_⟩
      exact hengaged.2 row e (List.mem_append_left _ hmem)
    refine h.update i _ s (fun hspent => hrespond.spent hspent hmarks) hrespond.logins ?_ ?_
    · intro job' hjob' hjobEngaged
      cases hjob'
      exact ⟨job, hjob, hengaged hjobEngaged⟩
    · intro job' hjob' hsaved
      cases hjob'
      rcases hsaved.2 with ⟨row, hmem⟩
      rcases List.mem_append.mp hmem with hmem | hmem
      · exact hrespond.spent (h.spent i job hjob ⟨hengaged hsaved.1, row, hmem⟩) hmarks
      · rcases List.mem_singleton.mp hmem with rfl
        rw [hrespond.2]
        exact ⟨row, by simp [AuthState.effect], hmarks⟩

theorem SingleUse.settle (h : SingleUse sdk n w) {i : ι} {job : LoginJob}
    {out : Except HttpError Outcome}
    (hjob : w.jobs i = some job) (htrace : Trace (job.call.program sdk) job.asked out) :
    SingleUse sdk n ⟨(service sdk ι).settle w.shared i job.call out,
      Function.update w.jobs i none⟩ := by
  rcases out with e | outcome
  · exact h.update i none _ id rfl (by simp) (by simp)
  · by_cases hnonce : job.call.nonce? sdk = some n
    · rcases Request.login_settles hnonce htrace with ⟨hfound, hsave, hrejected⟩
      have hsaved : Saved sdk n job := ⟨⟨⟨hnonce, hfound⟩, hrejected⟩, hsave⟩
      have hzero : logins sdk n w.shared = 0 := by
        by_contra hdone
        exact (h.done hdone).2 i job hjob hsaved.1
      have hone : logins sdk n ((service sdk ι).settle w.shared i job.call (.ok outcome)) = 1 := by
        simp only [logins, service, List.filterMap_cons, hnonce, List.count_cons_self]
        exact congrArg (· + 1) hzero
      have hnone : ∀ j other, Function.update w.jobs i none j = some other →
          ¬ Engaged sdk n other := by
        intro j other hother hengaged
        by_cases hji : j = i
        · subst hji
          rw [Function.update_self] at hother
          cases hother
        · rw [Function.update_of_ne hji] at hother
          exact hji (h.alone j i other job hother hjob hengaged hsaved.1)
      exact ⟨fun j k a b ha hb haEngaged => absurd haEngaged (hnone j a ha),
        fun j other hother hsaved' => absurd hsaved'.1 (hnone j other hother),
        hone.le, fun _ => ⟨h.spent i job hjob hsaved, hnone⟩⟩
    · refine h.update i none _ id ?_ (by simp) (by simp)
      simp only [logins, service, List.filterMap_cons]
      cases hother : job.call.nonce? sdk with
      | none => rfl
      | some m =>
          rw [hother] at hnonce
          exact List.count_cons_of_ne fun heq => hnonce (congrArg some heq)

theorem SingleUse.step (h : SingleUse sdk n w) (hstep : (service sdk ι).Step w event w')
    (hprogrammed : ∀ i job, w.jobs i = some job → job.program = job.call.program sdk)
    (halone : Alone sdk w event) : SingleUse sdk n w' := by
  cases hstep with
  | @start i call hidle =>
      refine h.update i _ _ id rfl ?_ ?_
      · intro job hjob hengaged
        cases hjob
        rcases hengaged.1.2 with ⟨now, row, hmem⟩
        cases hmem
      · intro job hjob hsaved
        cases hjob
        rcases hsaved.2 with ⟨row, hmem⟩
        cases hmem
  | @exchange i job x s hjob hawaits hrespond =>
      exact h.exchange hjob (hprogrammed i job hjob ▸ hawaits) hrespond halone
  | @settle i job out hjob htrace => exact h.settle hjob (hprogrammed i job hjob ▸ htrace)
  | outside houtside =>
      have hshared : ∀ s, (Spent n w.shared → Spent n s) → s.returned = w.shared.returned →
          SingleUse sdk n ⟨s, w.jobs⟩ := by
        intro s hspent hreturned
        have hlogins : logins sdk n s = logins sdk n w.shared := by rw [logins, logins, hreturned]
        exact ⟨h.alone,
          fun i job hjob hsaved => hspent (h.spent i job hjob hsaved), hlogins ▸ h.once,
          fun hdone => ⟨hspent (h.done (hlogins ▸ hdone)).1, (h.done (hlogins ▸ hdone)).2⟩⟩
      cases houtside with
      | tick ms => exact hshared _ id rfl
      | issue nonce row hfree =>
          refine hshared _ (fun hspent => ?_) rfl
          rcases hspent with ⟨row', hrow', hused⟩
          have hne : n ≠ nonce := by
            rintro rfl
            rw [hfree] at hrow'
            cases hrow'
          exact ⟨row', by simp only [Function.update_of_ne hne, hrow'], hused⟩

variable {events : List (Event ι)}

/-- As long as every lookup that succeeds finds a nonce that no other login holds, at
most one login returns a token for a nonce. -/
theorem nonce_single_use (hidle : ∀ i, w.jobs i = none) (hfresh : w.shared.returned = [])
    (run : Run (service sdk ι).Step w events w')
    (halone : ∀ k v event v', StepAt (service sdk ι).Step w events k v event v' → Alone sdk v event)
    (n : Text) : logins sdk n w'.shared ≤ 1 := by
  have hrun := run.with_steps (Q := fun v event _ => Alone sdk v event ∧
      ∀ i job, v.jobs i = some job → job.program = job.call.program sdk)
    fun k v event v' hat => ⟨halone k v event v' hat, fun i job hjob => by
      rcases Service.run_program hat.before hidle i job hjob with ⟨s, hprogram⟩
      exact hprogram⟩
  have hzero : logins sdk n w.shared = 0 := by simp [logins, hfresh]
  have hstart : SingleUse sdk n w :=
    ⟨fun i j a b ha => absurd ha (by simp [hidle]), fun i job hjob => absurd hjob (by simp [hidle]),
      hzero.le.trans (Nat.zero_le 1), fun hdone => absurd hzero hdone⟩
  exact (hrun.invariant (P := SingleUse sdk n)
    (fun _ _ _ h hstep => h.step hstep.1 hstep.2.2 hstep.2.1) hstart).once

end Runs

/-! ## Two logins with one nonce -/

def sampleNonce : Text := "0123456789abcdef".toList

def sampleAddress : Text := "0x00000000000000000000000000000000000000aa".toList

def sampleMessage : Text :=
  ["localhost wants you to sign in with your Ethereum account:",
    "0x00000000000000000000000000000000000000aa", "", "URI: http://localhost", "Version: 1",
    "Chain ID: 8453", "Nonce: 0123456789abcdef", "Issued At: 2026-01-01T00:00:00.000Z"].flatMap
    fun line => line.toList ++ ['\n']

def sampleParsed : SiweMessage :=
  ⟨some sampleAddress, some sampleNonce, some 8453, some "localhost".toList, some 1767225600000⟩

def sampleSdk : AuthSdk where
  parseSiweMessage _ := some sampleParsed
  utf8 text := text.map fun c => UInt8.ofNat c.toNat
  decodeUtf8 bytes := bytes.map fun b => Char.ofNat b.toNat
  base64 _ := []
  sha256 _ := []

def sampleLogin : Request := .verifySiwe ⟨sampleAddress, "0x".toList, sampleMessage, sampleNonce⟩

def sampleState : AuthState :=
  { now := 0
    nonces := fun nonce => if nonce = sampleNonce then some ⟨false, 600000⟩ else none
    tokens := fun _ => none
    cache := fun _ => none
    evicted := []
    returned := [] }

section Schedules

variable {ι : Type}

/-- The login `i` from its start to the verified signature. -/
def beginLogin (i : ι) : List (Event ι) :=
  [.start i sampleLogin, .exchange i ⟨.newDate, .ok 0⟩,
   .exchange i ⟨.findNonce sampleNonce 0, .ok (some ⟨false, 600000⟩)⟩,
   .exchange i ⟨.verifySiweMessage 8453 sampleMessage "0x".toList (some sampleAddress), .ok true⟩]

/-- The login `i` from its save to the token it returns. -/
def endLogin (i : ι) (token : String) : List (Event ι) :=
  [.exchange i ⟨.saveNonce sampleNonce ⟨true, 600000⟩, .ok ()⟩,
   .exchange i ⟨.randomBytes 24, .ok token.toList⟩, .exchange i ⟨.newDate, .ok 0⟩,
   .exchange i ⟨.saveToken token.toList ⟨sampleAddress, none, some 3600000⟩, .ok ()⟩,
   .settle i (.ok (.session ⟨sampleAddress, token.toList⟩))]

/-- A login of a used nonce. -/
def refusedLogin (i : ι) : List (Event ι) :=
  [.start i sampleLogin, .exchange i ⟨.newDate, .ok 0⟩,
   .exchange i ⟨.findNonce sampleNonce 0, .ok none⟩,
   .settle i (.error (unauthorized "Invalid or expired nonce"))]

theorem alone_of_subsingleton [Subsingleton ι] {sdk : AuthSdk} (w : Pool ι) (event : Event ι) :
    Alone sdk w event := by
  unfold Alone
  split
  · intro j job hne
    exact absurd (Subsingleton.elim j _) hne
  · trivial

variable [DecidableEq ι]

theorem sample_run {sdk : AuthSdk} {events : List (Event ι)} {w w' : Pool ι}
    (h : events.foldlM ((service sdk ι).next? fun _ => effect?) w = some w') :
    Run (service sdk ι).Step w events w' :=
  Run.of_foldlM (fun _ _ _ => Service.next?_step (fun _ _ _ _ => effect?_responds) _ _ _) h

end Schedules

theorem nonce_single_use_sample :
    ∃ w', Run (service sampleSdk Unit).Step ⟨sampleState, fun _ => none⟩
      (beginLogin () ++ endLogin () "t" ++ refusedLogin ()) w' ∧
        logins sampleSdk sampleNonce w'.shared = 1 ∧
      logins sampleSdk sampleNonce w'.shared ≤ 1 := by
  have heval : ((beginLogin () ++ endLogin () "t" ++ refusedLogin ()).foldlM
      ((service sampleSdk Unit).next? fun _ => effect?) ⟨sampleState, fun _ => none⟩).map
      (fun w => logins sampleSdk sampleNonce w.shared) = some 1 := by
    decide +kernel
  rcases Option.map_eq_some_iff.mp heval with ⟨w', hw', hlogins⟩
  have hrun := sample_run hw'
  exact ⟨w', hrun, hlogins, nonce_single_use (fun _ => rfl) rfl hrun
    (fun _ v event _ _ => alone_of_subsingleton v event) sampleNonce⟩

/-- Two logins that look the nonce up before either saves it both return a token. -/
theorem nonce_used_twice :
    ¬ ∀ (w w' : Pool Nat) (events : List (Event Nat)), (∀ i, w.jobs i = none) →
      w.shared.returned = [] → Run (service sampleSdk Nat).Step w events w' →
      ∀ n, logins sampleSdk n w'.shared ≤ 1 := by
  intro h
  have heval : ((beginLogin 0 ++ beginLogin 1 ++ endLogin 0 "t" ++ endLogin 1 "u").foldlM
      ((service sampleSdk Nat).next? fun _ => effect?) ⟨sampleState, fun _ => none⟩).map
      (fun w : Pool Nat => logins sampleSdk sampleNonce w.shared) = some 2 := by
    decide +kernel
  rcases Option.map_eq_some_iff.mp heval with ⟨w', hw', hlogins⟩
  have hone := h ⟨sampleState, fun _ => none⟩ w' _ (fun _ => rfl) rfl (sample_run hw') sampleNonce
  omega

end Auth

end Lendoor.Backend
