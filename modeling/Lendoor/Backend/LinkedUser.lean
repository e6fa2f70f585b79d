import Lendoor.Backend.NonceReplay

/-! # A wallet has one user

What a verification answers is true from then on: the wallet is linked to the user of the
session that asked, and to nobody else, however the look-ups and the inserts of others for
the same address fall between its own.
-/

namespace Lendoor.Backend

open Cctp (Text)
open Async (Trace)

namespace LinkedWallets

open WalletLink (WalletLinkSession issued granted)

/-! ## What an answer rests on -/

theorem canActivate_trace {authHeader : Option Text} {asked : List Asked} {userId : Nat}
    (h : Trace (canActivate authHeader) asked (.ok userId)) : Bears authHeader userId asked := by
  rcases Async.trace_lift_bind.mp h with ⟨_, _, _, hout⟩ | ⟨token, htoken, hvalidate⟩
  · cases hout
  rcases Async.trace_call_bind.mp hvalidate with ⟨_, _, hout⟩ | ⟨found, rest, rfl, hfound⟩
  · cases hout
  split at hfound
  · cases (Async.trace_throw.mp hfound).2
  rename_i email session
  split at hfound
  · rename_i user expires huser _
    rcases Async.trace_call_bind.mp hfound with ⟨_, _, hout⟩ | ⟨now, rest, rfl, hclock⟩
    · cases hout
    split at hclock
    · cases (Async.trace_throw.mp hclock).2
    · rcases Async.trace_pure.mp hclock with ⟨rfl, hout⟩
      cases hout
      exact ⟨token, email, session, now, htoken, huser, rfl⟩
  · cases (Async.trace_throw.mp hfound).2

/-- The row that a verification found or wrote. -/
def Rests (asked : List Asked) (userId : Nat) (address : Text) (verifiedAt : Nat) : Prop :=
  ∃ row : LinkedExternalWallet, row.userId = userId ∧ row.verifiedAt = verifiedAt ∧
    (⟨.findLinked address, .ok (some row)⟩ ∈ asked ∨ row.address = address ∧
      ⟨.insertLinked row, .ok ()⟩ ∈ asked)

theorem Rests.append {asked : List Asked} {userId verifiedAt : Nat} {address : Text}
    (h : Rests asked userId address verifiedAt)
    (before : List Asked) : Rests (before ++ asked) userId address verifiedAt := by
  rcases h with ⟨row, huser, hverified, hfound | ⟨haddress, hinserted⟩⟩
  · exact ⟨row, huser, hverified, .inl (List.mem_append_right _ hfound)⟩
  · exact ⟨row, huser, hverified, .inr ⟨haddress, List.mem_append_right _ hinserted⟩⟩

theorem linkWallet_trace {userId verifiedAt : Nat} {address address' message signature : Text}
    {chainId : Int} {asked : List Asked}
    (h : Trace (linkWallet userId address chainId message signature) asked (.ok
      (.linked address' verifiedAt))) :
    address' = address ∧ Rests asked userId address verifiedAt := by
  rcases Async.trace_call_bind.mp h with ⟨_, _, hout⟩ | ⟨existing, rest, rfl, hfound⟩
  · cases hout
  split at hfound
  · rename_i row
    split at hfound
    · cases (Async.trace_throw.mp hfound).2
    rename_i huser
    rcases Async.trace_call_bind.mp hfound with ⟨_, _, hout⟩ | ⟨now, rest, rfl, hdone⟩
    · cases hout
    cases (Async.trace_pure.mp hdone).2
    exact ⟨rfl, row, not_not.mp huser, rfl, .inl List.mem_cons_self⟩
  · rcases Async.trace_call_bind.mp hfound with ⟨_, _, hout⟩ | ⟨now, rest, rfl, hclock⟩
    · cases hout
    rcases Async.trace_call_bind.mp hclock with ⟨_, _, hout⟩ | ⟨_, rest, rfl, hdone⟩
    · cases hout
    cases (Async.trace_pure.mp hdone).2
    exact ⟨rfl, linkedRow userId address chainId verifiedAt message signature, rfl, rfl,
      .inr ⟨rfl, by simp⟩⟩

theorem verify_trace {userId verifiedAt : Nat} {address : Text}
    {addressRaw message signature : Option Text} {chainId : Int}
    {asked : List Asked}
    (h : Trace (verify userId addressRaw chainId message signature) asked (.ok
      (.linked address verifiedAt))) :
    Rests asked userId address verifiedAt := by
  rcases Async.trace_lift_bind.mp h with ⟨_, _, _, hout⟩ | ⟨own, _, hsigned⟩
  · cases hout
  split at hsigned
  · cases (Async.trace_throw.mp hsigned).2
  rcases Async.trace_call_bind.mp hsigned with ⟨_, _, hout⟩ | ⟨found, rest, rfl, hfound⟩
  · cases hout
  split at hfound
  · cases (Async.trace_throw.mp hfound).2
  rcases Async.trace_call_bind.mp hfound with ⟨_, _, hout⟩ | ⟨now, rest, rfl, hclock⟩
  · cases hout
  split at hclock
  · cases (Async.trace_throw.mp hclock).2
  rcases Async.trace_caught_bind.mp hclock with ⟨recovered, rest, rfl, hrecovered⟩
  split at hrecovered
  · cases (Async.trace_throw.mp hrecovered).2
  split at hrecovered
  · cases (Async.trace_throw.mp hrecovered).2
  rcases Async.trace_call_bind.mp hrecovered with ⟨_, _, hout⟩ | ⟨affected, rest, rfl, haffected⟩
  · cases hout
  split at haffected
  · cases (Async.trace_throw.mp haffected).2
  rcases linkWallet_trace haffected with ⟨rfl, hrests⟩
  exact hrests.append [_, _, _, _]

/-! ## The table of wallets -/

section Steps

variable {ι : Type} {sdk : LinkSdk} {s s' : LinkTables} {x : Asked} {asked : List Asked}

/-- An address stands in one row. -/
def OneRow (s : LinkTables) : Prop :=
  ∀ row ∈ s.wallets, ∀ row' ∈ s.wallets, row.address = row'.address → row = row'

/-- The rows that a request found or wrote are in the table. -/
structure Stored (s : LinkTables) (asked : List Asked) : Prop where
  found : ∀ address row, ⟨.findLinked address, .ok (some row)⟩ ∈ asked → row ∈ s.wallets ∧
    row.address = address
  inserted : ∀ row, ⟨.insertLinked row, .ok ()⟩ ∈ asked → row ∈ s.wallets

theorem wallets_effect (s : LinkTables) (ask : Ask) :
    (s.effect ask).wallets = s.wallets ∨ ∃ row, ask = .insertLinked row ∧ (s.effect ask).wallets =
      s.wallets ++ [row] := by
  cases ask with
  | insertLinked row => exact .inr ⟨row, rfl, rfl⟩
  | companion | randomBytes | findByToken | insertNonce | findNonce | recoverMessageAddress
  | consumeNonce | findLinked =>
      exact .inl rfl

theorem Responds.wallets_subset (h : Responds sdk s x s') : s.wallets ⊆ s'.wallets := by
  rcases x with ⟨ask, error | answer⟩
  · exact h.2 ▸ List.Subset.refl _
  · rw [h.2]
    rcases wallets_effect s ask with hsame | ⟨row, -, hrow⟩
    · exact hsame ▸ List.Subset.refl _
    · exact hrow ▸ List.subset_append_left _ _

theorem Outside.wallets (h : Outside s s') : s'.wallets = s.wallets := by
  cases h <;> rfl

theorem Change.wallets_subset [DecidableEq ι] (h : Change (service sdk ι) s s') :
    s.wallets ⊆ s'.wallets := by
  cases h with
  | rest | settle => exact List.Subset.refl _
  | respond hresponds => exact Responds.wallets_subset hresponds
  | outside houtside => exact Outside.wallets houtside ▸ List.Subset.refl _

theorem OneRow.responds (h : OneRow s) (hresponds : Responds sdk s x s') : OneRow s' := by
  rcases x with ⟨ask, error | answer⟩
  · exact hresponds.2 ▸ h
  rcases hresponds with ⟨hanswers, rfl⟩
  rcases wallets_effect s ask with hsame | ⟨linked, rfl, -⟩
  · simpa only [OneRow, hsame] using h
  · intro row hrow row' hrow' haddress
    rcases List.mem_append.mp hrow with hold | hnew
    · rcases List.mem_append.mp hrow' with hold' | hnew'
      · exact h row hold row' hold' haddress
      · rw [List.mem_singleton.mp hnew'] at haddress
        exact absurd haddress (hanswers row hold)
    · rcases List.mem_append.mp hrow' with hold' | hnew'
      · rw [List.mem_singleton.mp hnew] at haddress
        exact absurd haddress.symm (hanswers row' hold')
      · rw [List.mem_singleton.mp hnew, List.mem_singleton.mp hnew']

theorem Stored.mono (h : Stored s asked) (hsub : s.wallets ⊆ s'.wallets) : Stored s' asked :=
  ⟨fun address row hrow => ⟨hsub (h.found address row hrow).1, (h.found address row hrow).2⟩,
    fun row hrow => hsub (h.inserted row hrow)⟩

theorem Stored.exchange (h : Stored s asked) (hresponds : Responds sdk s x s') :
    Stored s' (asked ++ [x]) := by
  have hmono := h.mono hresponds.wallets_subset
  refine ⟨fun address row hrow => ?_, fun row hrow => ?_⟩
  · rcases List.mem_append.mp hrow with hold | hnew
    · exact hmono.found address row hold
    · rw [List.mem_singleton] at hnew
      subst hnew
      have hfound : some row = s.wallets.find? fun row => row.address = address := hresponds.1
      exact ⟨hresponds.wallets_subset (List.mem_of_find?_eq_some hfound.symm),
        of_decide_eq_true
        (List.find?_some (p := fun row : LinkedExternalWallet => decide (row.address = address))
        hfound.symm)⟩
  · rcases List.mem_append.mp hrow with hold | hnew
    · exact hmono.inserted row hold
    · rw [List.mem_singleton] at hnew
      subst hnew
      rw [hresponds.2]
      exact List.mem_append_right _ (List.mem_singleton_self row)

theorem stored_records [DecidableEq ι] (sdk : LinkSdk) (w : Pool ι) :
    Records (service sdk ι) w (Permitted sdk) (fun _ => OneRow) fun _ s _ _ => Stored s where
  keep _ _ _ h := h
  settle _ _ _ _ _ h := h
  outside _ _ _ h houtside := by rwa [OneRow, Outside.wallets houtside]
  fresh _ _ _ _ _ := ⟨by simp, by simp⟩
  remember _ _ _ _ _ _ _ _ hchange h := h.mono (Change.wallets_subset hchange)
  exchange _ _ _ _ _ _ _ h hstored _ hresponds _ :=
    ⟨h.responds hresponds, hstored.exchange hresponds⟩

end Steps

/-! ## The answer stands -/

section Answer

variable {ι : Type} [DecidableEq ι] {sdk : LinkSdk} {w u u' v : Pool ι}
  {before after events : List (Event ι)} {i : ι}

/-- Linked wallets stay. -/
theorem wallets_run (run : Run (service sdk ι).Step u events v) :
    u.shared.wallets ⊆ v.shared.wallets := by
  induction run with
  | nil => exact List.Subset.refl _
  | snoc _ hstep ih =>
      refine List.Subset.trans ih ?_
      cases hstep with
      | start | settle => exact List.Subset.refl _
      | exchange _ _ hresponds => exact Responds.wallets_subset hresponds
      | outside houtside => exact Outside.wallets houtside ▸ List.Subset.refl _

omit [DecidableEq ι] in
theorem Fresh.oneRow (h : Fresh w) : OneRow w.shared := by
  simp [OneRow, h.wallets]

/-- A request that is answered ok has shown its user, and found or written the row. -/
theorem program_trace {authHeader addressRaw message signature : Option Text} {chainId : Int}
    {address : Text} {verifiedAt : Nat}
    {asked : List Asked}
    (h : Trace ((Request.verify authHeader addressRaw chainId message signature).program sdk) asked
      (.ok (.linked address verifiedAt))) :
    ∃ userId, Bears authHeader userId (asked.take 2) ∧ Rests asked userId address verifiedAt := by
  rcases Async.trace_bind.mp h with ⟨_, _, hout⟩ | ⟨userId, bearer, rest, rfl, hbearer, hverify⟩
  · cases hout
  have hbears := canActivate_trace hbearer
  have htake : (bearer ++ rest).take 2 = bearer := by
    rcases hbears with ⟨token, email, session, t, -, -, rfl⟩
    rfl
  exact ⟨userId, by rwa [htake], (verify_trace hverify).append bearer⟩

/-- A verification that is answered ok has linked the wallet to the user of its session: from
then on the wallet is that user's, verified when the answer says, and nobody else's. -/
theorem linked_stands {job : LinkJob} {authHeader addressRaw message signature : Option Text}
    {chainId : Int} {address : Text}
    {verifiedAt : Nat} (hfresh : Fresh w) (run : Run (service sdk ι).Step w before u)
    (hjob : u.jobs i = some job)
    (hcall : job.call = .verify authHeader addressRaw chainId message signature)
    (hends : (service sdk ι).Step u (.settle i (.ok (.linked address verifiedAt))) u')
    (run' : Run (service sdk ι).Step u' after v) :
    ∃ userId, Bears authHeader userId (job.asked.take 2) ∧
      (∃ row ∈ v.shared.wallets, row.address = address ∧ row.userId = userId ∧
        row.verifiedAt = verifiedAt) ∧
        ∀ row ∈ v.shared.wallets, row.address = address → row.userId = userId := by
  have hstart :=
    Kept.of_idle (S := service sdk ι) (I := fun _ => OneRow) (A := fun _ s _ _ => Stored s)
      hfresh.idle hfresh.oneRow
  have hkept := Records.run (stored_records sdk w) program_asks_all hstart run
  have hwhole :=
    Records.run (stored_records sdk w) program_asks_all hstart ((run.snoc hends).append run')
  have hsub := List.Subset.trans (wallets_run (Run.single hends)) (wallets_run run')
  have htrace : Trace ((Request.verify authHeader addressRaw chainId message signature).program sdk)
      job.asked
      (.ok (.linked address verifiedAt)) := by
    rcases hkept.started i job hjob with ⟨s, hprogram⟩
    cases hends with
    | settle hsame htrace =>
        cases hjob.symm.trans hsame
        rw [hprogram, hcall] at htrace
        exact htrace
  rcases program_trace htrace with ⟨userId, hbears, row, huser, hverified, hrow⟩
  have hstored : row ∈ u.shared.wallets ∧ row.address = address := by
    rcases hrow with hfound | ⟨haddress, hinserted⟩
    · exact (hkept.asked i job hjob).found address row hfound
    · exact ⟨(hkept.asked i job hjob).inserted row hinserted, haddress⟩
  refine ⟨userId, hbears, ⟨row, hsub hstored.1, hstored.2, huser, hverified⟩,
    fun other hother haddress => ?_⟩
  rw [hwhole.shared other hother row (hsub hstored.1) (haddress.trans hstored.2.symm), huser]

end Answer

/-! ## Another user with the same wallet -/

def rivalEmail : Text := "b@b.c".toList

def rivalCode : Text := "200000".toList

def rivalToken : Text := "r".toList

def rivalSession : WalletLinkSession := issued sampleSdk.toOnboardingSdk 2 rivalCode 0

def rivalGranted : WalletLinkSession := granted rivalSession rivalToken 0

def rivalSigningIn : List (Event Nat) :=
  [.start 4 (.companion (.start rivalEmail)),
   .exchange 4 ⟨.companion (.findUsers rivalEmail), .ok [2]⟩,
   .exchange 4 ⟨.companion (.findSession rivalEmail), .ok none⟩,
   .exchange 4 ⟨.companion .newDate, .ok 0⟩,
   .exchange 4 ⟨.companion .randomInt, .ok 200000⟩,
   .exchange 4 ⟨.companion (.insertSession rivalEmail rivalSession), .ok ()⟩,
   .start 5 (.companion (.session rivalEmail rivalCode rivalToken)),
   .exchange 5 ⟨.companion (.findSession rivalEmail), .ok (some rivalSession)⟩,
   .exchange 5 ⟨.companion .newDate, .ok 0⟩,
   .exchange 5 ⟨.companion (.saveSession rivalEmail rivalGranted), .ok ()⟩]

def rivalBearing (i : Nat) : List (Event Nat) :=
  [.exchange i ⟨.findByToken rivalToken, .ok (some (rivalEmail, rivalGranted))⟩,
   .exchange i ⟨.companion .newDate, .ok 0⟩]

def rivalNonce : Text := List.replicate 32 '1'

def rivalMessage : Text := linkMessage sampleAddress "1".toList rivalNonce 0

def rivalHeader : Option Text := some "Bearer r".toList

def rivalAsking : List (Event Nat) :=
  .start 6 (.nonce rivalHeader (some sampleAddress) "1".toList) :: rivalBearing 6 ++
  [.exchange 6 ⟨.randomBytes, .ok rivalNonce⟩,
   .exchange 6 ⟨.companion .newDate, .ok 0⟩,
   .exchange 6 ⟨.insertNonce 2 sampleAddress rivalNonce rivalMessage nonceTtlMs, .ok ()⟩]

/-- Its verification spends its own nonce and finds the wallet linked. -/
def rivalVerifying : List (Event Nat) :=
  .start 7 (.verify rivalHeader (some sampleAddress) 1 (some rivalMessage)
    (some sampleSignature)) :: rivalBearing 7 ++
  [.exchange 7 ⟨.findNonce 2 sampleAddress (some rivalMessage),
      .ok (some ⟨1, 2, sampleAddress, rivalNonce, rivalMessage, false, nonceTtlMs⟩)⟩,
   .exchange 7 ⟨.companion .newDate, .ok 0⟩,
   .exchange 7 ⟨.recoverMessageAddress (some rivalMessage) sampleSignature,
      .ok ('0' :: 'x' :: List.replicate 40 'A')⟩,
   .exchange 7 ⟨.consumeNonce 1, .ok true⟩,
   .exchange 7 ⟨.findLinked sampleAddress, .ok (some sampleLinked)⟩,
   .settle 7 (.error ⟨.conflict, "Wallet already linked to another account"⟩)]

def rivalEvents : List (Event Nat) := rivalSigningIn ++ rivalAsking ++ rivalVerifying

theorem linked_stands_sample : ∃ u u' v job userId,
    Run (service sampleSdk Nat).Step samplePool sampleEvents u ∧ u.jobs 3 = some job ∧
    (service sampleSdk Nat).Step u (.settle 3 (.ok (.linked sampleAddress 0))) u' ∧
    Run (service sampleSdk Nat).Step u' rivalEvents v ∧
    Bears sampleHeader userId (job.asked.take 2) ∧
    ∀ row ∈ v.shared.wallets, row.address = sampleAddress → row.userId = userId := by
  have hrun : (sampleEvents.foldlM sampleStep samplePool).any (fun u =>
      (u.jobs 3).map Job.call = some sampleVerify ∧
        (sampleStep u (.settle 3 (.ok (.linked sampleAddress 0)))).any fun u' =>
          (rivalEvents.foldlM sampleStep u').isSome) = true := by
    decide +kernel
  rcases (Option.any_eq_true _ _).mp hrun with ⟨u, hu, hrest⟩
  rcases of_decide_eq_true hrest with ⟨hcall, hends⟩
  rcases Option.map_eq_some_iff.mp hcall with ⟨job, hjob, hcall⟩
  rcases (Option.any_eq_true _ _).mp hends with ⟨u', hu', hrival⟩
  rcases Option.isSome_iff_exists.mp hrival with ⟨v, hv⟩
  have hends := sample_step hu'
  rcases linked_stands samplePool_fresh (sample_run hu) hjob hcall hends (sample_run hv)
    with ⟨userId, hbears, -, hother⟩
  exact ⟨u, u', v, job, userId, sample_run hu, hjob, hends, sample_run hv, hbears, hother⟩

end LinkedWallets

end Lendoor.Backend
