import Lendoor.Backend.LinkedWallets

/-! # Where a linked wallet comes from

Every linked wallet was signed for by its key, over a message that was written for its user,
and that user had proved an email address: each step of the way is an event of the run.
-/

namespace Lendoor.Backend

open Cctp (Text falsy)
open Async (call lift AsksAfter)

namespace LinkedWallets

open Onboarding (OnboardingSdk normalizeEmail)
open WalletLink (WalletLinkSession LinkState issued failed granted)

/-! ## What the requests ask -/

/-- What a sign-in writes to the row of an email, after what it was told. -/
inductive SavedBy (sdk : OnboardingSdk) (past : List WalletLink.Asked) :
    WalletLink.Request → Text → WalletLinkSession → Prop
  | started {emailRaw code : Text} {userId t : Nat} :
      ⟨.findUsers (normalizeEmail sdk emailRaw), .ok [userId]⟩ ∈ past →
      SavedBy sdk past (.start emailRaw) (normalizeEmail sdk emailRaw) (issued sdk userId code t)
  | failed {emailRaw code token : Text} {row : WalletLinkSession} :
      ⟨.findSession (normalizeEmail sdk emailRaw), .ok (some row)⟩ ∈ past →
      SavedBy sdk past (.session emailRaw code token) (normalizeEmail sdk emailRaw) (failed row)
  | granted {emailRaw code token : Text} {row : WalletLinkSession} {t : Nat} :
      ⟨.findSession (normalizeEmail sdk emailRaw), .ok (some row)⟩ ∈ past →
      row.otpCodeHash = some (sdk.hashOtp (trim code)) →
      SavedBy sdk past (.session emailRaw code token) (normalizeEmail sdk emailRaw)
      (granted row token t)

/-- What a sign-in permits itself to ask. -/
def SignInAsks (sdk : OnboardingSdk) (request : WalletLink.Request) (past : List WalletLink.Asked) :
    WalletLink.Ask → Prop
  | .insertSession email row => SavedBy sdk past request email row
  | .saveSession email row => SavedBy sdk past request email row
  | _ => True

/-- What a request has shown: the session of its bearer token, alive. -/
structure Bears (authHeader : Option Text) (userId : Nat) (past : List Asked) : Prop where
  shown : ∃ token email session t, bearerToken authHeader = .ok token ∧
    session.userId = some userId ∧
    past = [⟨.findByToken token, .ok (some (email, session))⟩, ⟨.companion .newDate, .ok t⟩]

/-- And the nonce for the message, alive, with the signer of the message. -/
structure Verified (authHeader : Option Text) (userId : Nat) (address : Text)
    (message : Option Text) (signature : Text)
    (row : WalletLinkNonce) (past : List Asked) : Prop where
  shown : ∃ bearer t signer, Bears authHeader userId bearer ∧ t ≤ row.expiresAt ∧
    Auth.toLowerCase signer = address ∧
    past = bearer ++ [⟨.findNonce userId address message, .ok (some row)⟩,
      ⟨.companion .newDate, .ok t⟩, ⟨.recoverMessageAddress message signature, .ok signer⟩]

/-- What a request permits itself to ask, as far as it writes. -/
def Permitted (sdk : LinkSdk) (request : Request) (past : List Asked) : Ask → Prop
  | .companion ask => ask = .newDate ∨ ∃ signIn own, request = .companion signIn ∧
      past = own.map (outer Ask.companion) ∧ SignInAsks sdk.toOnboardingSdk signIn own ask
  | .insertNonce userId address nonce message expiresAt =>
      ∃ authHeader addressRaw chainId bearer issuedAt,
        request = .nonce authHeader addressRaw chainId ∧
        Bears authHeader userId bearer ∧ message = linkMessage address chainId nonce issuedAt ∧
        expiresAt = issuedAt + nonceTtlMs ∧
        past = bearer ++ [⟨.randomBytes, .ok nonce⟩, ⟨.companion .newDate, .ok issuedAt⟩]
  | .consumeNonce id =>
      ∃ authHeader addressRaw chainId message signature userId address row,
        request = .verify authHeader addressRaw chainId message (some signature) ∧
        Verified authHeader userId address message signature row past ∧ id = row.id
  | .insertLinked linked =>
      ∃ authHeader addressRaw chainId message signature userId address row verified t,
        request = .verify authHeader addressRaw chainId message (some signature) ∧
        Verified authHeader userId address message signature row verified ∧
        linked = linkedRow userId address chainId t (message.getD []) signature ∧
        past = verified ++ [⟨.consumeNonce row.id, .ok true⟩, ⟨.findLinked address, .ok none⟩,
          ⟨.companion .newDate, .ok t⟩]
  | _ => True

variable {sdk : LinkSdk}

theorem start_asks (sdk : OnboardingSdk) (emailRaw : Text) :
    (WalletLink.start sdk emailRaw).AsksAfter (SignInAsks sdk (.start emailRaw)) [] := by
  rw [WalletLink.start]
  split
  · trivial
  refine AsksAfter.call_bind trivial fun matching => ?_
  split
  · rename_i userId
    refine AsksAfter.call_bind trivial fun session => AsksAfter.call_bind trivial fun now => ?_
    split
    · trivial
    refine AsksAfter.call_bind trivial fun n => ?_
    cases session with
    | none => exact AsksAfter.call_bind (SavedBy.started (by simp)) fun _ => trivial
    | some row => exact AsksAfter.call_bind (SavedBy.started (by simp)) fun _ => trivial
  · trivial

theorem session_asks (sdk : OnboardingSdk) (emailRaw code token : Text) :
    (WalletLink.session sdk emailRaw code token).AsksAfter
      (SignInAsks sdk (.session emailRaw code token)) [] := by
  rw [WalletLink.session]
  refine AsksAfter.call_bind trivial fun found => ?_
  split
  · trivial
  rename_i row
  split
  · split
    · trivial
    refine AsksAfter.call_bind trivial fun now => ?_
    split
    · trivial
    split
    · trivial
    split
    · exact AsksAfter.call_bind (SavedBy.failed (by simp)) fun _ => trivial
    · rename_i hcode
      exact AsksAfter.call_bind (SavedBy.granted (by simp) (not_not.mp hcode)) fun _ =>
        AsksAfter.call_bind trivial fun _ => trivial
  · trivial

theorem signIn_asks (sdk : LinkSdk) (request : WalletLink.Request) :
    (signIn sdk request).AsksAfter (Permitted sdk (.companion request)) [] := by
  have hown : (request.program sdk.toOnboardingSdk).AsksAfter
      (SignInAsks sdk.toOnboardingSdk request) [] := by
    cases request with
    | start emailRaw => exact start_asks _ emailRaw
    | session emailRaw code token => exact session_asks _ emailRaw code token
  have hpermitted : (request.program sdk.toOnboardingSdk).AsksAfter
      (fun past ask => Permitted sdk (.companion request) (past.map (outer Ask.companion))
        (.companion ask)) [] :=
    hown.imp fun past ask h => .inr ⟨request, past, rfl, rfl, h⟩
  exact AsksAfter.bind hpermitted.within fun _ _ _ => trivial

theorem canActivate_asks {P : List Asked → Ask → Prop} {authHeader : Option Text}
    {f : Nat → Program Outcome}
    (hfind : ∀ past token, P past (.findByToken token))
    (hclock : ∀ past, P past (.companion .newDate))
    (hf : ∀ userId bearer, Bears authHeader userId bearer → (f userId).AsksAfter P bearer) :
    (canActivate authHeader >>= f).AsksAfter P [] := by
  rw [canActivate, Async.bind_assoc]
  refine AsksAfter.lift_bind fun token htoken => ?_
  rw [validateLinkSession, Async.bind_assoc]
  refine AsksAfter.call_bind (hfind _ _) fun found => ?_
  split
  · trivial
  rename_i email session
  split
  · rename_i userId tokenExpiresAt huser _
    rw [Async.bind_assoc]
    refine AsksAfter.call_bind (hclock _) fun now => ?_
    split
    · trivial
    · exact hf userId _ ⟨token, email, session, now, htoken, huser, rfl⟩
  · trivial

theorem createNonce_asks {authHeader addressRaw : Option Text} {chainId : Text} {userId : Nat}
    {bearer : List Asked}
    (hbears : Bears authHeader userId bearer) :
    (createNonce userId addressRaw chainId).AsksAfter
      (Permitted sdk (.nonce authHeader addressRaw chainId)) bearer := by
  refine AsksAfter.lift_bind fun address _ => AsksAfter.call_bind trivial fun nonce => ?_
  refine AsksAfter.call_bind (.inl rfl) fun issuedAt => ?_
  refine AsksAfter.call_bind ?_ fun _ => trivial
  exact ⟨authHeader, addressRaw, chainId, bearer, issuedAt, rfl, hbears, rfl, rfl, by simp⟩

theorem verify_asks {authHeader addressRaw message signature : Option Text}
    {chainId : Int} {userId : Nat}
    {bearer : List Asked} (hbears : Bears authHeader userId bearer) :
    (verify userId addressRaw chainId message signature).AsksAfter
      (Permitted sdk (.verify authHeader addressRaw chainId message signature)) bearer := by
  refine AsksAfter.lift_bind fun address _ => ?_
  split
  · trivial
  rename_i hecdsa
  rcases signature with _ | signature
  · exact absurd rfl hecdsa
  refine AsksAfter.call_bind trivial fun found => ?_
  split
  · trivial
  rename_i row
  refine AsksAfter.call_bind (.inl rfl) fun now => ?_
  split
  · trivial
  rename_i halive
  refine AsksAfter.caught_bind trivial fun recovered => ?_
  split
  · trivial
  rename_i signer
  split
  · trivial
  rename_i hsigner
  have hverified : Verified authHeader userId address message signature row
      (bearer ++ [⟨.findNonce userId address message, .ok (some row)⟩,
        ⟨.companion .newDate, .ok now⟩, ⟨.recoverMessageAddress message signature, .ok signer⟩]) :=
    ⟨bearer, now, signer, hbears, Nat.le_of_not_lt halive, not_not.mp hsigner, rfl⟩
  rw [List.append_assoc, List.append_assoc]
  refine AsksAfter.call_bind ⟨authHeader, addressRaw, chainId, message, signature, userId, address,
    row, rfl, hverified, rfl⟩
    fun affected => ?_
  split
  · trivial
  rename_i haffected
  rw [Bool.not_eq_false] at haffected
  subst haffected
  refine AsksAfter.call_bind trivial fun existing => ?_
  split
  · split
    · trivial
    · exact AsksAfter.call_bind (.inl rfl) fun _ => trivial
  · refine AsksAfter.call_bind (.inl rfl) fun verifiedAt => AsksAfter.call_bind ?_ fun _ => trivial
    exact ⟨authHeader, addressRaw, chainId, message, signature, userId, address, row, _, verifiedAt,
      rfl, hverified, rfl, by simp⟩

/-- A request asks only what it permits itself. -/
theorem program_asks (request : Request) :
    (request.program sdk).AsksAfter (Permitted sdk request) [] := by
  cases request with
  | companion request => exact signIn_asks sdk request
  | nonce authHeader addressRaw chainId =>
      exact canActivate_asks (fun _ _ => trivial) (fun _ => .inl rfl) fun _ _ => createNonce_asks
  | verify authHeader addressRaw chainId message signature =>
      exact canActivate_asks (fun _ _ => trivial) (fun _ => .inl rfl) fun _ _ => verify_asks

/-! ## The way to a linked wallet -/

section Provenance

variable {ι : Type} [DecidableEq ι] (sdk : LinkSdk) (w : Pool ι) (events : List (Event ι))

/-- `save` of the row of an email. -/
inductive Saves (email : Text) (row : WalletLinkSession) : Asked → Prop
  | insert : Saves email row ⟨.companion (.insertSession email row), .ok ()⟩
  | update : Saves email row ⟨.companion (.saveSession email row), .ok ()⟩

/-- Event `k` issues the user a code of that hash, sent to an email that was the user's alone. -/
def CodeIssued (k : Nat) (email : Text) (userId : Nat) (hash : Text) : Prop :=
  ∃ i emailRaw code t x, email = normalizeEmail sdk.toOnboardingSdk emailRaw ∧
    hash = sdk.hashOtp code ∧
    Exchanged (service sdk ι) w events k i (.companion (.start emailRaw)) x ∧
    Saves email (issued sdk.toOnboardingSdk userId code t) x ∧
    ∃ l < k, Exchanged (service sdk ι) w events l i (.companion (.start emailRaw))
      ⟨.companion (.findUsers email), .ok [userId]⟩

/-- Event `k` grants the token to the user, for a code of the hash of one that was issued. -/
def TokenGranted (k : Nat) (userId : Nat) (token : Text) : Prop :=
  ∃ i emailRaw code row t x, row.userId = some userId ∧
    Exchanged (service sdk ι) w events k i (.companion (.session emailRaw code token)) x ∧
    Saves (normalizeEmail sdk.toOnboardingSdk emailRaw) (granted row token t) x ∧
    ∃ l < k, CodeIssued sdk w events l (normalizeEmail sdk.toOnboardingSdk emailRaw) userId
    (sdk.hashOtp (trim code))

/-- The header bears a token that the user was granted before event `k`. -/
def Bearer (k : Nat) (authHeader : Option Text) (userId : Nat) : Prop :=
  ∃ token, bearerToken authHeader = .ok token ∧ ∃ l < k, TokenGranted sdk w events l userId token

/-- Event `k` is the user's request for the message of the nonce. -/
def NonceIssued (k : Nat) (row : WalletLinkNonce) : Prop :=
  ∃ i authHeader addressRaw chainId issuedAt,
    Exchanged (service sdk ι) w events k i (.nonce authHeader addressRaw chainId)
      ⟨.insertNonce row.userId row.address row.nonce row.message row.expiresAt, .ok ()⟩ ∧
    row.message = linkMessage row.address chainId row.nonce issuedAt ∧
      row.expiresAt = issuedAt + nonceTtlMs ∧
    Bearer sdk w events k authHeader row.userId

/-- Event `k` links the wallet, on a signature of its key over a message that was issued to the
same user for it, and that the request found alive. -/
def WalletLinked (k : Nat) (linked : LinkedExternalWallet) : Prop :=
  ∃ i authHeader addressRaw chainId,
    Exchanged (service sdk ι) w events k i
      (.verify authHeader addressRaw chainId (some linked.message) (some linked.signature))
      ⟨.insertLinked linked, .ok ()⟩ ∧
    (∃ signer, sdk.recoverMessageAddress linked.message linked.signature = some signer ∧
      Auth.toLowerCase signer = linked.address) ∧
    Bearer sdk w events k authHeader linked.userId ∧
    ∃ row l m t, l < m ∧ m < k ∧ NonceIssued sdk w events l row ∧ row.userId = linked.userId ∧
      row.address = linked.address ∧ row.message = linked.message ∧ t ≤ row.expiresAt ∧
      Exchanged (service sdk ι) w events m i
        (.verify authHeader addressRaw chainId (some linked.message) (some linked.signature))
        ⟨.companion .newDate, .ok t⟩

variable {sdk w events} {k : Nat} {event : Event ι}

theorem CodeIssued.snoc {email hash : Text} {userId : Nat}
    (h : CodeIssued sdk w events k email userId hash) :
    CodeIssued sdk w (events ++ [event]) k email userId hash := by
  rcases h with ⟨i, emailRaw, code, t, x, hemail, hhash, hx, hsaves, l, hl, hfound⟩
  exact ⟨i, emailRaw, code, t, x, hemail, hhash, hx.snoc event, hsaves, l, hl, hfound.snoc event⟩

theorem TokenGranted.snoc {token : Text} {userId : Nat}
    (h : TokenGranted sdk w events k userId token) :
    TokenGranted sdk w (events ++ [event]) k userId token := by
  rcases h with ⟨i, emailRaw, code, row, t, x, huser, hx, hsaves, l, hl, hissued⟩
  exact ⟨i, emailRaw, code, row, t, x, huser, hx.snoc event, hsaves, l, hl, hissued.snoc⟩

theorem Bearer.snoc {authHeader : Option Text} {userId : Nat}
    (h : Bearer sdk w events k authHeader userId) :
    Bearer sdk w (events ++ [event]) k authHeader userId := by
  rcases h with ⟨token, htoken, l, hl, hgranted⟩
  exact ⟨token, htoken, l, hl, hgranted.snoc⟩

theorem NonceIssued.snoc {row : WalletLinkNonce} (h : NonceIssued sdk w events k row) :
    NonceIssued sdk w (events ++ [event]) k row := by
  rcases h with ⟨i, authHeader, addressRaw, chainId, issuedAt, hx, hmessage, hexpires, hbearer⟩
  exact ⟨i, authHeader, addressRaw, chainId, issuedAt, hx.snoc event, hmessage,
    hexpires, hbearer.snoc⟩

theorem WalletLinked.snoc {linked : LinkedExternalWallet} (h : WalletLinked sdk w events k linked) :
    WalletLinked sdk w (events ++ [event]) k linked := by
  rcases h with ⟨i, authHeader, addressRaw, chainId, hx, hsigner, hbearer, row, l, m, t, hl, hm,
    hissued, huser, haddress, hmessage, halive, hclock⟩
  exact ⟨i, authHeader, addressRaw, chainId, hx.snoc event, hsigner, hbearer.snoc, row, l, m, t, hl,
    hm, hissued.snoc, huser, haddress, hmessage, halive, hclock.snoc event⟩

/-! ## What the tables hold -/

variable (sdk w events)

/-- What the row of an email holds was issued and granted before event `k`. -/
structure SessionSound (k : Nat) (email : Text) (row : WalletLinkSession) : Prop where
  code : ∀ userId hash, row.userId = some userId → row.otpCodeHash = some hash →
    ∃ l < k, CodeIssued sdk w events l email userId hash
  token : ∀ userId token, row.userId = some userId → row.token = some token →
    ∃ l < k, TokenGranted sdk w events l userId token

/-- Everything in the tables came about as it should. -/
structure TablesSound (s : LinkTables) : Prop where
  sessions : ∀ email row, s.companion.sessions email = some row →
    SessionSound sdk w events events.length email row
  nonces : ∀ row ∈ s.nonces, ∃ l < events.length, NonceIssued sdk w events l row
  wallets : ∀ linked ∈ s.wallets, ∃ l, WalletLinked sdk w events l linked

/-- What event `k` shows a request of the tables. -/
def Shown (k : Nat) : Asked → Prop
  | ⟨.companion (.findSession email), .ok (some row)⟩ => SessionSound sdk w events k email row
  | ⟨.findByToken token, .ok (some (email, row))⟩ => row.token = some token ∧
      SessionSound sdk w events k email row
  | ⟨.findNonce userId address message, .ok (some row)⟩ =>
      row.Matches userId address message ∧ ∃ l < k, NonceIssued sdk w events l row
  | ⟨.recoverMessageAddress message signature, .ok signer⟩ =>
      ∃ m, message = some m ∧ sdk.recoverMessageAddress m signature = some signer
  | _ => True

variable {sdk w events}

theorem SessionSound.snoc {email : Text} {row : WalletLinkSession} {l : Nat}
    (h : SessionSound sdk w events k email row)
    (hle : k ≤ l) : SessionSound sdk w (events ++ [event]) l email row := by
  refine ⟨fun userId hash huser hhash => ?_, fun userId token huser htoken => ?_⟩
  · rcases h.code userId hash huser hhash with ⟨m, hm, hissued⟩
    exact ⟨m, Nat.lt_of_lt_of_le hm hle, hissued.snoc⟩
  · rcases h.token userId token huser htoken with ⟨m, hm, hgranted⟩
    exact ⟨m, Nat.lt_of_lt_of_le hm hle, hgranted.snoc⟩

theorem TablesSound.snoc {s : LinkTables} (h : TablesSound sdk w events s) :
    TablesSound sdk w (events ++ [event]) s := by
  have hle : events.length ≤ (events ++ [event]).length := by simp
  refine ⟨fun email row hrow => (h.sessions email row hrow).snoc hle,
    fun row hrow => ?_, fun linked hlinked => ?_⟩
  · rcases h.nonces row hrow with ⟨l, hl, hissued⟩
    exact ⟨l, Nat.lt_of_lt_of_le hl hle, hissued.snoc⟩
  · rcases h.wallets linked hlinked with ⟨l, hwallet⟩
    exact ⟨l, hwallet.snoc⟩

theorem Shown.snoc {x : Asked} (h : Shown sdk w events k x) :
    Shown sdk w (events ++ [event]) k x := by
  unfold Shown at h
  split at h
  · exact h.snoc (Nat.le_refl k)
  · exact ⟨h.1, h.2.snoc (Nat.le_refl k)⟩
  · rcases h with ⟨hmatches, l, hl, hissued⟩
    exact ⟨hmatches, l, hl, hissued.snoc⟩
  · exact h
  · rename_i hsession htoken hnonce hsigner
    rw [Shown.eq_5 _ _ _ _ x hsession htoken hnonce hsigner]
    trivial

/-- An answer shows what the tables hold. -/
theorem TablesSound.shown {s s' : LinkTables} {x : Asked} (h : TablesSound sdk w events s)
    (hresponds : Responds sdk s x s') :
    Shown sdk w events events.length x := by
  unfold Shown
  split
  · rename_i email row
    have hfound : some row = s.companion.sessions email := of_decide_eq_true hresponds.1
    exact h.sessions email row hfound.symm
  · exact ⟨hresponds.1.2, h.sessions _ _ hresponds.1.1⟩
  · exact ⟨hresponds.1.2, h.nonces _ hresponds.1.1⟩
  · exact hresponds.1
  · trivial

/-- The record of a request. -/
abbrev RequestRecord (sdk : LinkSdk) (w : Pool ι) (events : List (Event ι)) (i : ι)
    (request : Request) (asked : List Asked) : Prop :=
  Happened (service sdk ι) w (Shown sdk w) events i request asked

variable {s s' : LinkTables} {i : ι} {request : Request} {asked : List Asked} {x : Asked}

theorem RequestRecord.of_mem (h : RequestRecord sdk w events i request asked) (hx : x ∈ asked) :
    ∃ l, Exchanged (service sdk ι) w events l i request x ∧ Shown sdk w events l x := by
  rcases List.getElem?_of_mem hx with ⟨n, hn⟩
  exact h.at hn

/-- A sign-in writes what was issued or granted. -/
theorem SavedBy.sound {signIn : WalletLink.Request} {own : List WalletLink.Asked} {email : Text}
    {row : WalletLinkSession}
    (hsaved : SavedBy sdk.toOnboardingSdk own signIn email row)
    (hrecord : RequestRecord sdk w events i (.companion signIn) (own.map (outer Ask.companion)))
    (hx : Exchanged (service sdk ι) w (events ++ [event]) events.length i (.companion signIn) x)
    (hsaves : Saves email row x) :
    SessionSound sdk w (events ++ [event]) (events.length + 1) email row := by
  cases hsaved with
  | @started emailRaw code userId t hfound =>
      rcases hrecord.of_mem (List.mem_map_of_mem hfound) with ⟨l, hl, -⟩
      refine ⟨?_, ?_⟩
      · rintro _ _ ⟨⟩ ⟨⟩
        exact ⟨events.length, Nat.lt_succ_self _, i, emailRaw, code, t, x, rfl, rfl, hx, hsaves, l,
          hl.lt, hl.snoc event⟩
      · rintro _ _ - ⟨⟩
  | @failed emailRaw code token row hfound =>
      rcases hrecord.of_mem (List.mem_map_of_mem hfound) with ⟨l, hl, hsound⟩
      have hrow : SessionSound sdk w (events ++ [event]) (events.length + 1)
          (normalizeEmail sdk.toOnboardingSdk emailRaw) row :=
        SessionSound.snoc hsound (Nat.le_succ_of_le hl.lt.le)
      exact ⟨hrow.code, hrow.token⟩
  | @granted emailRaw code token row t hfound hhash =>
      rcases hrecord.of_mem (List.mem_map_of_mem hfound) with ⟨l, hl, hsound⟩
      refine ⟨?_, ?_⟩
      · rintro _ _ - ⟨⟩
      · rintro userId _ huser ⟨⟩
        rcases SessionSound.code hsound userId _ huser hhash with ⟨m, hm, hissued⟩
        exact ⟨events.length, Nat.lt_succ_self _, i, emailRaw, code, row, t, x, huser, hx, hsaves,
          m, hm.trans hl.lt, hissued.snoc⟩

/-- The header of a request bears a granted token. -/
theorem Bears.bearer {authHeader : Option Text} {userId : Nat} {bearer rest : List Asked}
    (hbears : Bears authHeader userId bearer)
    (hrecord : RequestRecord sdk w events i request (bearer ++ rest)) :
    Bearer sdk w (events ++ [event]) events.length authHeader userId := by
  rcases hbears with ⟨token, email, session, t, htoken, huser, rfl⟩
  rcases hrecord.of_mem (x := ⟨.findByToken token, .ok (some (email, session))⟩) (by simp)
    with ⟨l, hl, hfound, hsound⟩
  rcases hsound.token userId token huser hfound with ⟨m, hm, hgranted⟩
  exact ⟨token, htoken, m, hm.trans hl.lt, hgranted.snoc⟩

/-- What a request has verified when it goes on to link the wallet. -/
theorem Verified.linked {authHeader addressRaw message : Option Text} {chainId : Int} {userId : Nat}
    {address signature : Text}
    {row : WalletLinkNonce} {verified rest : List Asked} {t : Nat}
    (hverified : Verified authHeader userId address message signature row verified)
    (hrecord : RequestRecord sdk w events i (.verify authHeader addressRaw chainId message
      (some signature)) (verified ++ rest))
    (hx : Exchanged (service sdk ι) w (events ++ [event]) events.length i
      (.verify authHeader addressRaw chainId message (some signature))
      ⟨.insertLinked (linkedRow userId address chainId t (message.getD []) signature), .ok ()⟩) :
    WalletLinked sdk w (events ++ [event]) events.length
      (linkedRow userId address chainId t (message.getD []) signature) := by
  rcases hverified with ⟨bearer, clock, signer, hbears, halive, hsigner, rfl⟩
  rw [List.append_assoc] at hrecord
  have hbearer : Bearer sdk w (events ++ [event]) events.length authHeader userId :=
    hbears.bearer hrecord
  rcases hrecord.of_mem (x := ⟨.recoverMessageAddress message signature, .ok signer⟩) (by simp) with
    ⟨-, -, m, rfl, hrecovered⟩
  have hfind : ∀ rest : List Asked, (bearer ++ rest)[2]? = rest[0]? ∧
      (bearer ++ rest)[3]? = rest[1]? := by
    rcases hbears with ⟨token, email, session, t', -, -, rfl⟩
    exact fun rest => ⟨rfl, rfl⟩
  rcases hrecord.order (n := 2) (m := 3) (by omega) (hfind _).1 (hfind _).2 with
    ⟨l, l', hlt, ⟨hmatches, k', hk', hissued⟩, hclock⟩
  refine ⟨i, authHeader, addressRaw, chainId, hx, ⟨signer, hrecovered, hsigner⟩,
    hbearer, row, k', l', clock, hk'.trans hlt, hclock.lt, hissued.snoc, hmatches.1, hmatches.2.1,
    hmatches.2.2.1 m rfl, halive, hclock.snoc event⟩

theorem LinkState.save_sessions {c : LinkState} {email email' : Text} {row row' : WalletLinkSession}
    (h : (c.save email row).sessions email' = some row') :
    (email' = email ∧ row' = row) ∨ c.sessions email' = some row' := by
  by_cases he : email' = email
  · subst he
    simp only [WalletLink.LinkState.save, Function.update_self] at h
    exact .inl ⟨rfl, (Option.some.inj h).symm⟩
  · simp only [WalletLink.LinkState.save, Function.update_of_ne he] at h
    exact .inr h

/-- The tables stay sound under the exchanges that the requests permit themselves. -/
theorem TablesSound.exchange (h : TablesSound sdk w events s)
    (hrecord : RequestRecord sdk w events i request asked)
    (hpermitted : Permitted sdk request asked x.1) (hresponds : Responds sdk s x s')
    (hx : Exchanged (service sdk ι) w (events ++ [event]) events.length i request x) :
    TablesSound sdk w (events ++ [event]) s' := by
  have hsnoc : TablesSound sdk w (events ++ [event]) s := h.snoc
  have hlength : (events ++ [event]).length = events.length + 1 := by simp
  rcases x with ⟨ask, error | answer⟩
  · rw [hresponds.2]
    exact hsnoc
  rcases hresponds with ⟨hanswers, rfl⟩
  have hsave : ∀ email row, Saves email row ⟨ask, .ok answer⟩ →
      SessionSound sdk w (events ++ [event]) (events.length + 1) email row →
      TablesSound sdk w (events ++ [event]) { s with companion := s.companion.save email row } := by
    intro email row hsaves hrow
    refine ⟨fun email' row' hrow' => ?_, hsnoc.nonces, hsnoc.wallets⟩
    rcases LinkState.save_sessions hrow' with ⟨rfl, rfl⟩ | hrow'
    · exact hlength ▸ hrow
    · exact hsnoc.sessions email' row' hrow'
  cases ask with
  | companion ask =>
      rcases hpermitted with hclock | ⟨signIn, own, rfl, rfl, hasks⟩
      · cases hclock
        exact hsnoc
      cases ask with
      | insertSession email row => exact hsave email row .insert (hasks.sound hrecord hx .insert)
      | saveSession email row => exact hsave email row .update (hasks.sound hrecord hx .update)
      | newDate | randomInt | findUsers | findUser | findSession => exact hsnoc
  | insertNonce userId address nonce message expiresAt =>
      rcases hpermitted with ⟨authHeader, addressRaw, chainId, bearer, issuedAt, rfl, hbears,
        hmessage, hexpires, rfl⟩
      refine ⟨hsnoc.sessions, fun row hrow => ?_, hsnoc.wallets⟩
      rcases List.mem_append.mp hrow with hrow | hrow
      · exact hsnoc.nonces row hrow
      · rw [List.mem_singleton] at hrow
        subst hrow
        exact ⟨events.length, by simp, i, authHeader, addressRaw, chainId, issuedAt,
          hx, hmessage, hexpires, hbears.bearer hrecord⟩
  | consumeNonce id =>
      refine ⟨hsnoc.sessions, fun row hrow => ?_, hsnoc.wallets⟩
      rcases List.mem_map.mp hrow with ⟨old, hold, rfl⟩
      rcases hsnoc.nonces old hold with ⟨l, hl, hissued⟩
      refine ⟨l, hl, ?_⟩
      rw [WalletLinkNonce.consume]
      split <;> exact hissued
  | insertLinked linked =>
      rcases hpermitted with ⟨authHeader, addressRaw, chainId, message, signature, userId, address,
        row, verified, t, rfl, hverified, rfl, rfl⟩
      refine ⟨hsnoc.sessions, hsnoc.nonces, fun other hother => ?_⟩
      rcases List.mem_append.mp hother with hother | hother
      · exact hsnoc.wallets other hother
      · rw [List.mem_singleton] at hother
        subst hother
        exact ⟨events.length, hverified.linked hrecord hx⟩
  | randomBytes | findByToken | findNonce | recoverMessageAddress | findLinked => exact hsnoc

theorem TablesSound.outside (h : TablesSound sdk w events s) (houtside : Outside s s') :
    TablesSound sdk w events s' := by
  cases houtside with
  | clock ms => exact ⟨h.sessions, h.nonces, h.wallets⟩
  | sweepNonces now hnow =>
      exact ⟨h.sessions, fun row hrow => h.nonces row (List.mem_filter.mp hrow).1, h.wallets⟩
  | sweepTokens now hnow =>
      refine ⟨fun email row hrow => ?_, h.nonces, h.wallets⟩
      rcases Option.map_eq_some_iff.mp hrow with ⟨old, hold, hrow⟩
      have hsound := h.sessions email old hold
      split at hrow
      · subst hrow
        exact ⟨hsound.code, by rintro _ _ - ⟨⟩⟩
      · exact hrow ▸ hsound

/-- Nobody is signed in or linked, and no nonce is out. -/
structure Fresh (w : Pool ι) : Prop where
  idle : ∀ i, w.jobs i = none
  sessions : ∀ email, w.shared.companion.sessions email = none
  nonces : w.shared.nonces = []
  wallets : w.shared.wallets = []

theorem Fresh.sound (h : Fresh w) : TablesSound sdk w [] w.shared := by
  refine ⟨fun email row hrow => ?_, fun row hrow => ?_, fun linked hlinked => ?_⟩
  · rw [h.sessions email] at hrow
    cases hrow
  · rw [h.nonces] at hrow
    cases hrow
  · rw [h.wallets] at hlinked
    cases hlinked

theorem sound_records (sdk : LinkSdk) (w : Pool ι) :
    Records (service sdk ι) w (Permitted sdk) (TablesSound sdk w) fun events _ =>
      RequestRecord sdk w events :=
  Records.of_facts (fun _ _ _ h => h.snoc) (fun _ _ _ _ h => h.snoc) (fun _ _ _ _ _ h => h)
    (fun _ _ _ h houtside => h.outside houtside)
    fun _ _ _ _ _ _ _ h hrecord hpermitted hresponds hx =>
    ⟨h.exchange hrecord hpermitted hresponds hx, (h.shown hresponds).snoc⟩

variable {v : Pool ι}

/-- Every linked wallet came about by a signature of its key over a message for its user. -/
theorem linked_wallet_proven {linked : LinkedExternalWallet} (hfresh : Fresh w)
    (run : Run (service sdk ι).Step w events v) (hlinked : linked ∈ v.shared.wallets) :
    ∃ k, WalletLinked sdk w events k linked :=
  (Records.run (sound_records sdk w) (fun _ _ request => program_asks request)
    (Kept.of_idle hfresh.idle hfresh.sound)
    run).shared.wallets linked hlinked

end Provenance

/-! ## A run -/

/-- The answers of a call that can be told from the tables. -/
def LinkTables.answers? (sdk : LinkSdk) (s : LinkTables) : (ask : Ask) → Answer ask → Bool
  | .companion ask, answer => s.companion.answers ask answer
  | .randomBytes, nonce => nonce.length = 32 ∧ nonce.all isLowerHexDigit = true
  | .findByToken _, none => false
  | .findByToken token, some (email, row) => s.companion.sessions email = some row ∧
      row.token = some token
  | .insertNonce _ _ nonce _ _, _ => s.nonces.all fun row => row.nonce ≠ nonce
  | .findNonce _ _ _, none => false
  | .findNonce userId address message, some row =>
      row ∈ s.nonces ∧ row.userId = userId ∧ row.address = address ∧ some row.message =
        message ∧ row.used = false
  | .recoverMessageAddress message signature, signer =>
      (message.bind fun m => sdk.recoverMessageAddress m signature) = some signer
  | .consumeNonce id, affected => affected = s.nonces.any fun row => row.id = id ∧ row.used = false
  | .findLinked address, found => found = s.wallets.find? fun row => row.address = address
  | .insertLinked row, _ => s.wallets.all fun other => other.address ≠ row.address

theorem answers_of_answers? {sdk : LinkSdk} {s : LinkTables} {ask : Ask} {answer : Answer ask}
    (h : s.answers? sdk ask answer = true) : s.Answers sdk ask answer := by
  cases ask with
  | companion ask => exact h
  | randomBytes =>
      simp only [LinkTables.answers?, decide_eq_true_eq] at h
      exact ⟨h.1, List.all_eq_true.mp h.2⟩
  | findByToken token =>
      rcases answer with _ | ⟨email, row⟩
      · cases h
      · simp only [LinkTables.answers?, decide_eq_true_eq] at h
        exact h
  | insertNonce userId address nonce message expiresAt =>
      intro row hrow
      exact of_decide_eq_true (List.all_eq_true.mp h row hrow)
  | findNonce userId address message =>
      rcases answer with _ | row
      · cases h
      · rcases of_decide_eq_true h with ⟨hmem, huser, haddress, hmessage, hused⟩
        exact ⟨hmem, huser, haddress, fun m hm => Option.some.inj (hmessage.trans hm), hused⟩
  | recoverMessageAddress message signature =>
      exact Option.bind_eq_some_iff.mp (of_decide_eq_true h)
  | consumeNonce id | findLinked address =>
      simp only [LinkTables.answers?, decide_eq_true_eq] at h
      exact h
  | insertLinked row =>
      intro other hother
      exact of_decide_eq_true (List.all_eq_true.mp h other hother)

def effect? (sdk : LinkSdk) (s : LinkTables) : Asked → Option LinkTables :=
  Service.effectOf? (LinkTables.answers? sdk) LinkTables.effect s

theorem effect?_responds {sdk : LinkSdk} {s s' : LinkTables} {x : Asked}
    (h : effect? sdk s x = some s') : Responds sdk s x s' := by
  rcases Service.effectOf?_eq_some.mp h with ⟨ask, answer, rfl, hanswers, rfl⟩
  exact ⟨answers_of_answers? hanswers, rfl⟩

def sampleSignature : Text := '0' :: 'x' :: List.replicate 130 'a'

def sampleAddress : Text := '0' :: 'x' :: List.replicate 40 'a'

def sampleSdk : LinkSdk where
  toLowerCase := Auth.toLowerCase
  hashOtp code := code.reverse
  recoverMessageAddress _ signature :=
    if signature = sampleSignature then some ('0' :: 'x' :: List.replicate 40 'A') else none

def sampleEmail : Text := "a@b.c".toList

def sampleCode : Text := "100000".toList

def sampleToken : Text := "t".toList

def sampleNonce : Text := List.replicate 32 '0'

def sampleMessage : Text := linkMessage sampleAddress "1".toList sampleNonce 0

/-- The session before its code is used, and after. -/
def pendingSession : WalletLinkSession := issued sampleSdk.toOnboardingSdk 1 sampleCode 0

def grantedSession : WalletLinkSession := granted pendingSession sampleToken 0

def signingIn : List (Event Nat) :=
  [.start 0 (.companion (.start sampleEmail)),
   .exchange 0 ⟨.companion (.findUsers sampleEmail), .ok [1]⟩,
   .exchange 0 ⟨.companion (.findSession sampleEmail), .ok none⟩,
   .exchange 0 ⟨.companion .newDate, .ok 0⟩,
   .exchange 0 ⟨.companion .randomInt, .ok 100000⟩,
   .exchange 0 ⟨.companion (.insertSession sampleEmail pendingSession), .ok ()⟩,
   .start 1 (.companion (.session sampleEmail sampleCode sampleToken)),
   .exchange 1 ⟨.companion (.findSession sampleEmail), .ok (some pendingSession)⟩,
   .exchange 1 ⟨.companion .newDate, .ok 0⟩,
   .exchange 1 ⟨.companion (.saveSession sampleEmail grantedSession), .ok ()⟩]

def sampleHeader : Option Text := some "Bearer t".toList

def sampleNonceRow : WalletLinkNonce :=
  ⟨0, 1, sampleAddress, sampleNonce, sampleMessage, false, nonceTtlMs⟩

def bearing (i : Nat) : List (Event Nat) :=
  [.exchange i ⟨.findByToken sampleToken, .ok (some (sampleEmail, grantedSession))⟩,
   .exchange i ⟨.companion .newDate, .ok 0⟩]

def asking : List (Event Nat) :=
  .start 2 (.nonce sampleHeader (some sampleAddress) "1".toList) :: bearing 2 ++
  [.exchange 2 ⟨.randomBytes, .ok sampleNonce⟩,
   .exchange 2 ⟨.companion .newDate, .ok 0⟩,
   .exchange 2 ⟨.insertNonce 1 sampleAddress sampleNonce sampleMessage nonceTtlMs, .ok ()⟩]

/-- A verification up to its update of the nonce. -/
def verifying (i : Nat) : List (Event Nat) :=
  .start i (.verify sampleHeader (some sampleAddress) 1 (some sampleMessage)
    (some sampleSignature)) :: bearing i ++
  [.exchange i ⟨.findNonce 1 sampleAddress (some sampleMessage), .ok (some sampleNonceRow)⟩,
   .exchange i ⟨.companion .newDate, .ok 0⟩,
   .exchange i ⟨.recoverMessageAddress (some sampleMessage) sampleSignature,
     .ok ('0' :: 'x' :: List.replicate 40 'A')⟩]

def sampleLinked : LinkedExternalWallet :=
  linkedRow 1 sampleAddress 1 0 sampleMessage sampleSignature

def linking (i : Nat) : List (Event Nat) :=
  [.exchange i ⟨.consumeNonce 0, .ok true⟩,
   .exchange i ⟨.findLinked sampleAddress, .ok none⟩,
   .exchange i ⟨.companion .newDate, .ok 0⟩,
   .exchange i ⟨.insertLinked sampleLinked, .ok ()⟩]

def sampleEvents : List (Event Nat) := signingIn ++ asking ++ verifying 3 ++ linking 3

def samplePool : Pool Nat := ⟨⟨⟨0, fun _ => none⟩, [], 0, []⟩, fun _ => none⟩

abbrev sampleStep : Pool Nat → Event Nat → Option (Pool Nat) :=
  (service sampleSdk Nat).next? fun _ => effect? sampleSdk

theorem sample_step {w w' : Pool Nat} {e : Event Nat} (h : sampleStep w e = some w') :
    (service sampleSdk Nat).Step w e w' :=
  Service.next?_step (fun _ _ _ _ => effect?_responds) _ _ _ h

theorem sample_run {events : List (Event Nat)} {w w' : Pool Nat}
    (h : events.foldlM sampleStep w = some w') :
    Run (service sampleSdk Nat).Step w events w' :=
  Run.of_foldlM (fun _ _ _ => sample_step) h

theorem samplePool_fresh : Fresh samplePool := ⟨fun _ => rfl, fun _ => rfl, rfl, rfl⟩

theorem linked_wallet_proven_sample :
    ∃ k, WalletLinked sampleSdk samplePool sampleEvents k sampleLinked := by
  have hrun : (sampleEvents.foldlM sampleStep samplePool).any
      (fun v => v.shared.wallets = [sampleLinked]) = true := by
    decide +kernel
  rcases (Option.any_eq_true _ _).mp hrun with ⟨v, hv, hlinked⟩
  exact linked_wallet_proven samplePool_fresh (sample_run hv)
    (by rw [of_decide_eq_true hlinked]; exact List.mem_singleton_self _)

end LinkedWallets

end Lendoor.Backend
