import Lendoor.Backend.Login

/-! # Access tokens and their cache

Validations fill the cache after they have read the token's row, and refreshes evict.
As long as no fill comes after the eviction or outlives the token, a token that was
refreshed or has expired is refused.
-/

namespace Lendoor.Backend

open Cctp (Text)
open Async (call Trace Awaits AsksOnly)

namespace Auth

variable {sdk : AuthSdk} {asked : List Asked}

/-! ## What a request does to the cache -/

/-- A call that leaves cached tokens alone. -/
def CacheFree : Ask → Prop
  | .setEntry _ _ _ => False
  | .delEntry _ => False
  | _ => True

theorem LoginAsk.cacheFree {ask : Ask} (h : LoginAsk ask) : CacheFree ask := by
  cases ask with
  | setEntry | delEntry => exact h.elim
  | _ => trivial

theorem createAccessToken_cacheFree (wallet : Text) :
    (createAccessToken wallet).AsksOnly CacheFree :=
  (createAccessToken_quiet wallet).mono fun _ h => h.loginAsk.cacheFree

/-- A refresh evicts the entry of a token it has just revoked. -/
theorem refreshToken_awaits {currentToken : Text} {ask : Ask}
    (h : Awaits (refreshToken currentToken) asked ask) :
    CacheFree ask ∨ (ask = .delEntry currentToken ∧
      ∃ revokedAt affected, affected ≠ 0 ∧
        ⟨.revokeToken currentToken revokedAt, .ok affected⟩ ∈ asked) := by
  rcases Async.awaits_call_bind.mp h with ⟨-, rfl⟩ | ⟨record, rest, rfl, hfound⟩
  · exact .inl trivial
  · split at hfound
    · exact absurd hfound Async.not_awaits_throw
    · split at hfound
      · exact absurd hfound Async.not_awaits_throw
      · rcases Async.awaits_call_bind.mp hfound with ⟨-, rfl⟩ | ⟨now, rest, rfl, hnow⟩
        · exact .inl trivial
        · split at hnow
          · exact absurd hnow Async.not_awaits_throw
          · rcases Async.awaits_call_bind.mp hnow with ⟨-, rfl⟩ | ⟨revokedAt, rest, rfl, hrevoke⟩
            · exact .inl trivial
            · rcases Async.awaits_call_bind.mp hrevoke with ⟨-, rfl⟩ |
                ⟨affected, rest, rfl, haffected⟩
              · exact .inl trivial
              · split at haffected
                · exact absurd haffected Async.not_awaits_throw
                · rename_i hne
                  rcases Async.awaits_call_bind.mp haffected with ⟨-, rfl⟩ | ⟨_, rest, rfl, hdel⟩
                  · exact .inr ⟨rfl, revokedAt, affected, hne, by simp⟩
                  · refine .inl (AsksOnly.awaits (.bind (createAccessToken_cacheFree _) ?_) hdel)
                    exact fun _ => trivial

/-- A refresh that returned has evicted the entry. -/
theorem refreshToken_settles {currentToken : Text} {session : Session}
    (h : Trace (refreshToken currentToken) asked (.ok session)) :
    ⟨.delEntry currentToken, .ok ()⟩ ∈ asked := by
  rcases Async.trace_call_bind.mp h with ⟨_, _, hout⟩ | ⟨record, rest, rfl, hfound⟩
  · cases hout
  · split at hfound
    · cases (Async.trace_throw.mp hfound).2
    · split at hfound
      · cases (Async.trace_throw.mp hfound).2
      · rcases Async.trace_call_bind.mp hfound with ⟨_, _, hout⟩ | ⟨now, rest, rfl, hnow⟩
        · cases hout
        · split at hnow
          · cases (Async.trace_throw.mp hnow).2
          · rcases Async.trace_call_bind.mp hnow with ⟨_, _, hout⟩ | ⟨revokedAt, rest, rfl, hrevoke⟩
            · cases hout
            · rcases Async.trace_call_bind.mp hrevoke with ⟨_, _, hout⟩ |
                ⟨affected, rest, rfl, haffected⟩
              · cases hout
              · split at haffected
                · cases (Async.trace_throw.mp haffected).2
                · rcases Async.trace_call_bind.mp haffected with ⟨_, _, hout⟩ | ⟨_, rest, rfl, hdel⟩
                  · cases hout
                  · simp

/-- The lifetime of an entry, of a row found by a call that had read the clock at `now`. -/
def cacheTtlMs (now : Nat) (record : AccessToken) : Nat :=
  min ((record.expiresAt.map fun expiresAt => expiresAt - now).getD 10000) 10000

/-- A validation fills the entry of its token, which it has found, after it has read the
clock. -/
theorem validateToken_awaits {token : Text} {ask : Ask}
    (h : Awaits (validateToken token) asked ask) :
    CacheFree ask ∨ ∃ now record,
      ask = .setEntry token record.walletAddress (cacheTtlMs now record) ∧
        ⟨.newDate, .ok now⟩ ∈ asked ∧ ⟨.findToken token, .ok (some record)⟩ ∈ asked := by
  rcases Async.awaits_call_bind.mp h with ⟨-, rfl⟩ | ⟨now, rest, rfl, hnow⟩
  · exact .inl trivial
  · rcases Async.awaits_call_bind.mp hnow with ⟨-, rfl⟩ | ⟨cached, rest, rfl, hcached⟩
    · exact .inl trivial
    · split at hcached
      · exact absurd hcached Async.not_awaits_pure
      · rcases Async.awaits_call_bind.mp hcached with ⟨-, rfl⟩ | ⟨record, rest, rfl, hfound⟩
        · exact .inl trivial
        · split at hfound
          · exact absurd hfound Async.not_awaits_throw
          · rename_i record
            split at hfound
            · exact absurd hfound Async.not_awaits_throw
            · split at hfound
              · exact absurd hfound Async.not_awaits_throw
              · rcases Async.awaits_call_bind.mp hfound with ⟨-, rfl⟩ | ⟨_, rest, rfl, hset⟩
                · exact .inr ⟨now, record, rfl, by simp, by simp⟩
                · exact absurd hset Async.not_awaits_pure

/-- A validation that returned had a cached entry, or a row that was neither expired nor
revoked. -/
theorem validateToken_settles {token walletAddress : Text}
    (h : Trace (validateToken token) asked (.ok walletAddress)) :
    (∃ cached, ⟨.getEntry token, .ok (some cached)⟩ ∈ asked) ∨
      ∃ now record, ⟨.newDate, .ok now⟩ ∈ asked ∧ ⟨.findToken token, .ok (some record)⟩ ∈ asked ∧
        record.revokedAt = none ∧ ∀ e, record.expiresAt = some e → now ≤ e := by
  rcases Async.trace_call_bind.mp h with ⟨_, _, hout⟩ | ⟨now, rest, rfl, hnow⟩
  · cases hout
  · rcases Async.trace_call_bind.mp hnow with ⟨_, _, hout⟩ | ⟨cached, rest, rfl, hcached⟩
    · cases hout
    · split at hcached
      · rename_i cached
        exact .inl ⟨cached, by simp⟩
      · rcases Async.trace_call_bind.mp hcached with ⟨_, _, hout⟩ | ⟨record, rest, rfl, hfound⟩
        · cases hout
        · split at hfound
          · cases (Async.trace_throw.mp hfound).2
          · rename_i record
            split at hfound
            · cases (Async.trace_throw.mp hfound).2
            · rename_i hexpiry
              split at hfound
              · cases (Async.trace_throw.mp hfound).2
              · rename_i hrevoked
                refine .inr ⟨now, record, by simp, by simp, by simpa using hrevoked, fun e he => ?_⟩
                simpa [he] using hexpiry

/-! ## What stays -/

def Revoked (t : Text) (s : AuthState) : Prop := ∃ row, s.tokens t = some row ∧ row.revokedAt ≠ none

/-- A later state: rows stay, with their expiry, and revocations, evictions, returns and
the clock only move on. -/
structure Later (s s' : AuthState) : Prop where
  now : s.now ≤ s'.now
  tokens : ∀ t row, s.tokens t = some row → ∃ row', s'.tokens t = some row' ∧
    row'.expiresAt = row.expiresAt ∧ (row.revokedAt ≠ none → row'.revokedAt ≠ none)
  evicted : s.evicted ⊆ s'.evicted
  returned : s.returned ⊆ s'.returned

theorem Later.refl (s : AuthState) : Later s s :=
  ⟨Nat.le_refl _, fun _ row h => ⟨row, h, rfl, id⟩, fun _ => id, fun _ => id⟩

theorem Later.revoked {s s' : AuthState} (h : Later s s') {t : Text} (hrevoked : Revoked t s) :
    Revoked t s' := by
  rcases hrevoked with ⟨row, hrow, hset⟩
  rcases h.tokens t row hrow with ⟨row', hrow', -, hset'⟩
  exact ⟨row', hrow', hset' hset⟩

theorem later_effect (s : AuthState) (ask : Ask) : Later s (s.effect ask) := by
  cases ask with
  | saveToken token row =>
      simp only [AuthState.effect]
      split
      · rename_i hfree
        refine ⟨Nat.le_refl _, fun t row' hrow' => ⟨row', ?_, rfl, id⟩, fun _ => id, fun _ => id⟩
        have hne : t ≠ token := by
          rintro rfl
          rw [hfree] at hrow'
          cases hrow'
        simp only [Function.update_of_ne hne, hrow']
      · exact .refl s
  | revokeToken token revokedAt =>
      simp only [AuthState.effect]
      split
      · rename_i row hunrevoked
        refine ⟨Nat.le_refl _, fun t row' hrow' => ?_, fun _ => id, fun _ => id⟩
        rcases Option.filter_eq_some_iff.mp hunrevoked with ⟨hrow, -⟩
        by_cases heq : t = token
        · subst heq
          rw [hrow] at hrow'
          cases hrow'
          exact ⟨{ row with revokedAt := some revokedAt }, by simp, rfl, by simp⟩
        · exact ⟨row', by simp only [Function.update_of_ne heq, hrow'], rfl, id⟩
      · exact .refl s
  | delEntry token =>
      exact ⟨Nat.le_refl _, fun _ row h => ⟨row, h, rfl, id⟩,
        List.subset_cons_self _ _, fun _ => id⟩
  | setEntry | saveNonce =>
      exact ⟨Nat.le_refl _, fun _ row h => ⟨row, h, rfl, id⟩, fun _ => id, fun _ => id⟩
  | _ => exact .refl s

variable {ι : Type} [DecidableEq ι] {w w' : Pool ι} {event : Event ι}

theorem Responds.later {s s' : AuthState} {x : Asked} (h : Responds s x s') : Later s s' := by
  rcases h.cases with rfl | rfl
  · exact .refl _
  · exact later_effect s x.1

theorem later_step (h : (service sdk ι).Step w event w') : Later w.shared w'.shared := by
  cases h with
  | start => exact .refl _
  | exchange _ _ hrespond => exact hrespond.later
  | @settle i job out _ _ =>
      rcases out with e | outcome
      · exact .refl _
      · exact ⟨Nat.le_refl _, fun _ row h => ⟨row, h, rfl, id⟩,
          fun _ => id, List.subset_cons_self _ _⟩
  | outside houtside =>
      cases houtside with
      | tick ms =>
          exact ⟨Nat.le_add_right _ _, fun _ row h => ⟨row, h, rfl, id⟩, fun _ => id, fun _ => id⟩
      | issue => exact ⟨Nat.le_refl _, fun _ row h => ⟨row, h, rfl, id⟩, fun _ => id, fun _ => id⟩

/-! ## What a request knows -/

/-- What an answered call means for the tables, then and later. -/
def Recorded (s : AuthState) : Asked → Prop
  | ⟨.revokeToken t _, .ok affected⟩ => affected ≠ 0 → Revoked t s
  | ⟨.delEntry t, .ok _⟩ => t ∈ s.evicted
  | ⟨.findToken t, .ok (some record)⟩ =>
      ∃ row, s.tokens t = some row ∧ row.expiresAt = record.expiresAt
  | _ => True

theorem Recorded.later {s s' : AuthState} {x : Asked} (h : Recorded s x) (hlater : Later s s') :
    Recorded s' x := by
  unfold Recorded at h ⊢
  split
  · exact fun hne => hlater.revoked (h hne)
  · exact hlater.evicted h
  · rcases h with ⟨row, hrow, hexpiry⟩
    rcases hlater.tokens _ row hrow with ⟨row', hrow', hexpiry', -⟩
    exact ⟨row', hrow', hexpiry'.trans hexpiry⟩
  · trivial

theorem Responds.recorded {s s' : AuthState} {x : Asked} (h : Responds s x s') : Recorded s' x := by
  unfold Recorded
  split
  · rename_i t revokedAt affected
    intro hne
    rcases h with ⟨hanswers, rfl⟩
    have haffected := of_decide_eq_true hanswers
    cases hunrevoked : s.unrevoked t with
    | none =>
        rw [hunrevoked] at haffected
        exact absurd haffected hne
    | some row =>
        exact ⟨{ row with revokedAt := some revokedAt }, by simp [AuthState.effect, hunrevoked],
          by simp⟩
  · rcases h with ⟨-, rfl⟩
    exact List.mem_cons_self
  · rename_i t row
    rcases h with ⟨hanswers, rfl⟩
    exact ⟨row, (of_decide_eq_true hanswers).symm, rfl⟩
  · trivial

/-! ## The invariant -/

/-- An entry of a token is dropped before the token expires. -/
def Covered (s : AuthState) (t : Text) (entry : CacheEntry) : Prop :=
  ∃ row, s.tokens t = some row ∧
    ∀ e, row.expiresAt = some e → ∃ u, entry.dropsAfter = some u ∧ u ≤ e

theorem Covered.later {s s' : AuthState} {t : Text} {entry : CacheEntry} (h : Covered s t entry)
    (hlater : Later s s') : Covered s' t entry := by
  rcases h with ⟨row, hrow, hcovered⟩
  rcases hlater.tokens t row hrow with ⟨row', hrow', hexpiry, -⟩
  exact ⟨row', hrow', fun e he => hcovered e (hexpiry ▸ he)⟩

/-- The cache against the tables. -/
structure Coherent (s : AuthState) : Prop where
  evicted : ∀ t ∈ s.evicted, s.cache t = none
  revoked : ∀ t ∈ s.evicted, Revoked t s
  covered : ∀ t entry, s.cache t = some entry → Covered s t entry
  returned : ∀ t, .refreshToken t ∈ s.returned → t ∈ s.evicted

/-- A step that leaves the cache, the evictions and the refreshes alone. -/
theorem Coherent.later {s s' : AuthState} (h : Coherent s) (hlater : Later s s')
    (hcache : s'.cache = s.cache) (hevicted : s'.evicted = s.evicted)
    (hreturned : ∀ t, .refreshToken t ∈ s'.returned → t ∈ s.evicted) : Coherent s' where
  evicted t ht := by
    rw [hcache]
    exact h.evicted t (hevicted ▸ ht)
  revoked t ht := hlater.revoked (h.revoked t (hevicted ▸ ht))
  covered t entry hentry := (h.covered t entry (hcache ▸ hentry)).later hlater
  returned t ht := hevicted ▸ hreturned t ht

/-- A fill comes before the eviction of its token. Its request read the clock before the
token's expiry, and the fill comes at that instant or ten seconds ahead of the expiry. -/
def FillsInTime (w : Pool ι) : Event ι → Prop
  | .exchange i ⟨.setEntry t _ _, _⟩ =>
      t ∉ w.shared.evicted ∧ ∀ job now row e, w.jobs i = some job →
        ⟨.newDate, .ok now⟩ ∈ job.asked → w.shared.tokens t = some row → row.expiresAt = some e →
        now < e ∧ (w.shared.now = now ∨ w.shared.now + 10000 ≤ e)
  | _ => True

/-- The lifetime that a call computed ends by the expiry, when it is used in time. -/
theorem cacheTtlMs_inTime {record : AccessToken} {now later e : Nat}
    (he : record.expiresAt = some e) (hread : now < e) (hfill : later = now ∨ later + 10000 ≤ e) :
    cacheTtlMs now record ≠ 0 ∧ later + cacheTtlMs now record ≤ e := by
  simp only [cacheTtlMs, he, Option.map_some, Option.getD_some]
  omega

theorem Coherent.fill {s : AuthState} (h : Coherent s) {t walletAddress : Text} {ttl : Nat}
    (hfound : ∃ row, s.tokens t = some row) (hfresh : t ∉ s.evicted)
    (hexpiry : ∀ row e, s.tokens t = some row → row.expiresAt = some e →
      ttl ≠ 0 ∧ s.now + ttl ≤ e) :
    Coherent (s.effect (.setEntry t walletAddress ttl)) where
  evicted t' ht' := by
    have hne : t' ≠ t := fun heq => hfresh (heq ▸ ht')
    simp only [AuthState.effect, Function.update_of_ne hne]
    exact h.evicted t' ht'
  revoked := h.revoked
  covered t' entry hentry := by
    by_cases heq : t' = t
    · subst heq
      rcases hfound with ⟨row, hrow⟩
      simp only [AuthState.effect, Function.update_self, Option.some.injEq] at hentry
      subst hentry
      refine ⟨row, hrow, fun e he => ?_⟩
      rcases hexpiry row e hrow he with ⟨hne, hle⟩
      exact ⟨s.now + ttl, by simp [hne], hle⟩
    · simp only [AuthState.effect, Function.update_of_ne heq] at hentry
      exact h.covered t' entry hentry
  returned := h.returned

theorem Coherent.evict {s : AuthState} (h : Coherent s) {t : Text} (hrevoked : Revoked t s) :
    Coherent (s.effect (.delEntry t)) where
  evicted t' ht' := by
    by_cases heq : t' = t
    · subst heq
      simp [AuthState.effect]
    · simp only [AuthState.effect, Function.update_of_ne heq]
      exact h.evicted t' ((List.mem_cons.mp ht').resolve_left heq)
  revoked t' ht' := by
    rcases List.mem_cons.mp ht' with rfl | ht'
    · exact hrevoked
    · exact h.revoked t' ht'
  covered t' entry hentry := by
    by_cases heq : t' = t
    · subst heq
      simp [AuthState.effect] at hentry
    · simp only [AuthState.effect, Function.update_of_ne heq] at hentry
      exact h.covered t' entry hentry
  returned t' ht' := List.mem_cons_of_mem _ (h.returned t' ht')

theorem effect_cacheFree (s : AuthState) {ask : Ask} (h : CacheFree ask) :
    (s.effect ask).cache = s.cache ∧ (s.effect ask).evicted = s.evicted := by
  cases ask with
  | setEntry | delEntry => exact h.elim
  | saveToken token row =>
      simp only [AuthState.effect]
      split <;> exact ⟨rfl, rfl⟩
  | revokeToken token revokedAt =>
      simp only [AuthState.effect]
      split <;> exact ⟨rfl, rfl⟩
  | _ => exact ⟨rfl, rfl⟩

theorem Request.awaits_cache {request : Request} {ask : Ask}
    (h : Awaits (request.program sdk) asked ask) :
    CacheFree ask ∨
      (∃ t revokedAt affected, ask = .delEntry t ∧ affected ≠ 0 ∧
        ⟨.revokeToken t revokedAt, .ok affected⟩ ∈ asked) ∨
      ∃ t now record, ask = .setEntry t record.walletAddress (cacheTtlMs now record) ∧
        ⟨.newDate, .ok now⟩ ∈ asked ∧ ⟨.findToken t, .ok (some record)⟩ ∈ asked := by
  cases request with
  | verifyStellar input =>
      have hasks : ((Request.verifyStellar input).program sdk).AsksOnly LoginAsk :=
        .bind (verifyStellarAndIssueToken_asks input) fun _ => trivial
      exact .inl (hasks.awaits h).cacheFree
  | verifySiwe input =>
      have hasks : ((Request.verifySiwe input).program sdk).AsksOnly LoginAsk :=
        .bind (verifySiweAndIssueToken_asks input) fun _ => trivial
      exact .inl (hasks.awaits h).cacheFree
  | refreshToken t =>
      rcases Async.awaits_bind.mp h with hrefresh | ⟨_, _, _, _, _, hend⟩
      · rcases refreshToken_awaits hrefresh with hfree | ⟨rfl, revokedAt, affected, hne, hmem⟩
        · exact .inl hfree
        · exact .inr (.inl ⟨t, revokedAt, affected, rfl, hne, hmem⟩)
      · exact absurd hend Async.not_awaits_pure
  | validateToken t =>
      rcases Async.awaits_bind.mp h with hvalidate | ⟨_, _, _, _, _, hend⟩
      · rcases validateToken_awaits hvalidate with hfree | ⟨now, record, rfl, hread, hmem⟩
        · exact .inl hfree
        · exact .inr (.inr ⟨t, now, record, rfl, hread, hmem⟩)
      · exact absurd hend Async.not_awaits_pure

variable (sdk) in
/-- The requests under way run their programs, and what they were answered stands. -/
structure Informed (w : Pool ι) : Prop where
  programmed : ∀ i job, w.jobs i = some job → job.program = job.call.program sdk
  recorded : ∀ i job, w.jobs i = some job → ∀ x ∈ job.asked, Recorded w.shared x

theorem Informed.step (h : Informed sdk w) (hstep : (service sdk ι).Step w event w') :
    Informed sdk w' := by
  have hlater := later_step hstep
  have hkept : ∀ i (o : Option LoginJob), w'.jobs = Function.update w.jobs i o →
      (∀ job, o = some job → job.program = job.call.program sdk ∧
        ∀ x ∈ job.asked, Recorded w'.shared x) → Informed sdk w' := by
    intro i o hjobs hjob
    constructor
    · intro j job hj
      rw [hjobs] at hj
      by_cases hji : j = i
      · subst hji
        rw [Function.update_self] at hj
        exact (hjob job hj).1
      · rw [Function.update_of_ne hji] at hj
        exact h.programmed j job hj
    · intro j job hj x hx
      rw [hjobs] at hj
      by_cases hji : j = i
      · subst hji
        rw [Function.update_self] at hj
        exact (hjob job hj).2 x hx
      · rw [Function.update_of_ne hji] at hj
        exact (h.recorded j job hj x hx).later hlater
  cases hstep with
  | @start i call hidle =>
      refine hkept i _ rfl fun job hjob => ?_
      cases hjob
      exact ⟨rfl, by simp⟩
  | @exchange i job x s hjob hawaits hrespond =>
      refine hkept i _ rfl fun job' hjob' => ?_
      cases hjob'
      refine ⟨h.programmed i job hjob, fun y hy => ?_⟩
      rcases List.mem_append.mp hy with hy | hy
      · exact (h.recorded i job hjob y hy).later hlater
      · rw [List.mem_singleton.mp hy]
        exact hrespond.recorded
  | @settle i job out hjob htrace => exact hkept i none rfl (by simp)
  | outside houtside =>
      exact ⟨h.programmed, fun i job hjob x hx => (h.recorded i job hjob x hx).later hlater⟩

theorem Coherent.step (h : Coherent w.shared) (hinformed : Informed sdk w)
    (hstep : (service sdk ι).Step w event w') (hfills : FillsInTime w event) :
    Coherent w'.shared := by
  have hlater := later_step hstep
  cases hstep with
  | start hidle => exact h
  | @exchange i job x s hjob hawaits hrespond =>
      rcases hrespond.cases with hsame | heffect
      · exact hsame ▸ h
      · rcases x with ⟨ask, r⟩
        have hrecorded := hinformed.recorded i job hjob
        rw [hinformed.programmed i job hjob] at hawaits
        rcases Request.awaits_cache hawaits with
          hfree | ⟨t, revokedAt, affected, rfl, hne, hmem⟩ | ⟨t, now, record, rfl, hread, hmem⟩
        · rcases effect_cacheFree w.shared hfree with ⟨hcache, hevicted⟩
          refine h.later hlater ?_ ?_ fun t ht => h.returned t ?_
          · exact heffect ▸ hcache
          · exact heffect ▸ hevicted
          · simpa only [heffect, effect_returned] using ht
        · simp only [heffect]
          exact h.evict (hrecorded _ hmem hne)
        · simp only [heffect]
          rcases hrecorded _ hmem with ⟨row, hrow, hexpiry⟩
          refine h.fill ⟨row, hrow⟩ hfills.1 fun row' e hrow' he => ?_
          rw [hrow, Option.some.injEq] at hrow'
          rw [← hrow', hexpiry] at he
          rcases hfills.2 job now row e hjob hread hrow (hexpiry.trans he) with ⟨hbefore, hintime⟩
          exact cacheTtlMs_inTime he hbefore hintime
  | @settle i job out hjob htrace =>
      rcases out with e | outcome
      · exact h
      · refine h.later hlater rfl rfl fun t ht => ?_
        rcases List.mem_cons.mp ht with hcall | ht
        · rw [hinformed.programmed i job hjob, ← hcall] at htrace
          rcases Async.trace_bind.mp htrace with ⟨_, _, hout⟩ |
            ⟨session, before, after, heq, hrefresh, _⟩
          · cases hout
          · refine hinformed.recorded i job hjob ⟨.delEntry t, .ok ()⟩ ?_
            rw [heq]
            exact List.mem_append_left _ (refreshToken_settles hrefresh)
        · exact h.returned t ht
  | outside houtside =>
      cases houtside with
      | tick | issue => exact h.later hlater rfl rfl h.returned

/-! ## Refused tokens -/

/-- Why a token is refused: it was refreshed, or it expired at the given time. -/
def Stale (t : Text) : Option Nat → AuthState → Prop
  | none, s => .refreshToken t ∈ s.returned
  | some e, s => (∃ row, s.tokens t = some row ∧ row.expiresAt = some e) ∧ e < s.now

theorem Stale.later {s s' : AuthState} {t : Text} {why : Option Nat} (h : Stale t why s)
    (hlater : Later s s') : Stale t why s' := by
  cases why with
  | none => exact hlater.returned h
  | some e =>
      rcases h with ⟨⟨row, hrow, he⟩, hpast⟩
      rcases hlater.tokens t row hrow with ⟨row', hrow', hexpiry, -⟩
      exact ⟨⟨row', hrow', hexpiry.trans he⟩, lt_of_lt_of_le hpast hlater.now⟩

/-- What a call is answered about a stale token. -/
def Refusing (t : Text) (why : Option Nat) : Asked → Prop
  | ⟨.newDate, .ok now⟩ => ∀ e, why = some e → e < now
  | ⟨.getEntry t', .ok (some _)⟩ => t' ≠ t
  | ⟨.findToken t', .ok (some record)⟩ =>
      t' = t → (why = none → record.revokedAt ≠ none) ∧
        ∀ e, why = some e → record.expiresAt = some e
  | _ => True

theorem Coherent.liveEntry {s : AuthState} (h : Coherent s) {t : Text} {why : Option Nat}
    (hstale : Stale t why s) : s.liveEntry t = none := by
  unfold AuthState.liveEntry
  cases hentry : s.cache t with
  | none => rfl
  | some entry =>
      cases why with
      | none =>
          rw [h.evicted t (h.returned t hstale)] at hentry
          cases hentry
      | some e =>
          rcases hstale with ⟨⟨row, hrow, he⟩, hpast⟩
          rcases h.covered t entry hentry with ⟨row', hrow', hcovered⟩
          rw [hrow] at hrow'
          cases hrow'
          rcases hcovered e he with ⟨u, hu, hle⟩
          have hdropped : ¬ s.now ≤ u := by omega
          simp [Option.filter, hu, hdropped]

theorem Coherent.refusing {s s' : AuthState} (h : Coherent s) {t : Text} {why : Option Nat}
    (hstale : Stale t why s) {x : Asked} (hrespond : Responds s x s') : Refusing t why x := by
  unfold Refusing
  split
  · rename_i now
    rintro e rfl
    rw [of_decide_eq_true hrespond.1]
    exact hstale.2
  · rename_i t' cached
    rintro rfl
    rcases of_decide_eq_true hrespond.1 with hnone | hlive
    · cases hnone
    · rw [h.liveEntry hstale] at hlive
      cases hlive
  · rename_i t' record
    rintro rfl
    have hrow := of_decide_eq_true hrespond.1
    constructor
    · rintro rfl
      rcases h.revoked _ (h.returned _ hstale) with ⟨row, hrow', hset⟩
      rw [hrow', Option.some.injEq] at hrow
      exact hrow ▸ hset
    · rintro e rfl
      rcases hstale.1 with ⟨row, hrow', he⟩
      rw [hrow', Option.some.injEq] at hrow
      exact hrow ▸ he
  · trivial

/-- A validation that only hears of a stale token throws. -/
theorem validateToken_refuses {t : Text} {why : Option Nat} {out : Except HttpError Outcome}
    (htrace : Trace ((Request.validateToken t).program sdk) asked out)
    (hrefusing : ∀ x ∈ asked, Refusing t why x) : ∃ e, out = .error e := by
  rcases Async.trace_bind.mp htrace with ⟨e, _, rfl⟩ | ⟨w, before, after, rfl, hvalidate, _⟩
  · exact ⟨e, rfl⟩
  · have hbefore : ∀ x ∈ before, Refusing t why x :=
      fun x hx => hrefusing x (List.mem_append_left _ hx)
    exfalso
    rcases validateToken_settles hvalidate with ⟨cached, hmem⟩ |
      ⟨now, record, hnow, hfound, hvalid, hlive⟩
    · exact hbefore _ hmem rfl
    · rcases hbefore _ hfound rfl with ⟨hrevoked, hexpired⟩
      cases why with
      | none => exact hrevoked rfl hvalid
      | some e => exact absurd (hlive e (hexpired e rfl)) (Nat.not_le.mpr (hbefore _ hnow e rfl))

/-! ## Runs -/

variable {w₀ u v : Pool ι} {past events : List (Event ι)} {t : Text} {why : Option Nat} {i : ι}

/-- Every fill of a run comes in time. -/
def FillsInTimeAlong (sdk : AuthSdk) (w : Pool ι) (events : List (Event ι)) : Prop :=
  ∀ k v event v', StepAt (service sdk ι).Step w events k v event v' → FillsInTime v event

theorem coherent_of_run (hinformed : Informed sdk w₀) (hcoherent : Coherent w₀.shared)
    (run : Run (service sdk ι).Step w₀ events w) (hfills : FillsInTimeAlong sdk w₀ events) :
    Informed sdk w ∧ Coherent w.shared :=
  (run.with_steps hfills).invariant (P := fun w => Informed sdk w ∧ Coherent w.shared)
    (fun _ _ _ h hstep => ⟨h.1.step hstep.1, h.2.step h.1 hstep.1 hstep.2⟩) ⟨hinformed, hcoherent⟩

/-- Thread `i` validates `t`, and what it has heard refuses it. -/
def Watching (t : Text) (why : Option Nat) (i : ι) (w : Pool ι) : Prop :=
  ∃ job, w.jobs i = some job ∧ job.call = .validateToken t ∧ ∀ x ∈ job.asked, Refusing t why x

theorem Watching.step (h : Watching t why i w) (hcoherent : Coherent w.shared)
    (hstale : Stale t why w.shared) (hstep : (service sdk ι).Step w event w')
    (hopen : ∀ out, event ≠ .settle i out) : Watching t why i w' := by
  rcases h with ⟨job, hjob, hcall, hasked⟩
  cases hstep with
  | @start j call hidle =>
      have hne : i ≠ j := by
        rintro rfl
        rw [hjob] at hidle
        cases hidle
      exact ⟨job, by simp only [Function.update_of_ne hne, hjob], hcall, hasked⟩
  | @exchange j other x s hother hawaits hrespond =>
      by_cases hij : i = j
      · subst hij
        rw [hjob] at hother
        cases hother
        refine ⟨⟨job.call, job.program, job.asked ++ [x]⟩, by simp, hcall, fun y hy => ?_⟩
        rcases List.mem_append.mp hy with hy | hy
        · exact hasked y hy
        · rw [List.mem_singleton.mp hy]
          exact hcoherent.refusing hstale hrespond
      · exact ⟨job, by simp only [Function.update_of_ne hij, hjob], hcall, hasked⟩
  | @settle j other out hother htrace =>
      have hne : i ≠ j := fun heq => hopen out (by rw [heq])
      exact ⟨job, by simp only [Function.update_of_ne hne, hjob], hcall, hasked⟩
  | outside => exact ⟨job, hjob, hcall, hasked⟩

/-- A validation that starts once its token was refreshed or has expired throws, when
every fill of the cache comes before the eviction of its token and within its life. -/
theorem stale_token_refused (hidle : ∀ i, w₀.jobs i = none) (hcache : ∀ t, w₀.shared.cache t = none)
    (hevicted : w₀.shared.evicted = []) (hreturned : w₀.shared.returned = [])
    (before : Run (service sdk ι).Step w₀ past u) (hbefore : FillsInTimeAlong sdk w₀ past)
    (hstale : Stale t why u.shared)
    (hstart : (service sdk ι).Step u (.start i (.validateToken t)) v)
    (after : Run (service sdk ι).Step v events w) (hafter : FillsInTimeAlong sdk v events)
    (hopen : ∀ out, .settle i out ∉ events) {out : Except HttpError Outcome}
    (hend : (service sdk ι).Step w (.settle i out) w') : ∃ e, out = .error e := by
  have hcoherent₀ : Coherent w₀.shared :=
    ⟨by simp [hevicted], by simp [hevicted], by simp [hcache], by simp [hreturned]⟩
  have hinformed₀ : Informed sdk w₀ :=
    ⟨fun i job hjob => absurd hjob (by simp [hidle]),
      fun i job hjob => absurd hjob (by simp [hidle])⟩
  rcases coherent_of_run hinformed₀ hcoherent₀ before hbefore with ⟨hinformed, hcoherent⟩
  have hv : Informed sdk v ∧ Coherent v.shared ∧ Stale t why v.shared ∧ Watching t why i v := by
    refine ⟨hinformed.step hstart, hcoherent.step hinformed hstart trivial,
      hstale.later (later_step hstart), ?_⟩
    cases hstart with
    | start hidle =>
        exact ⟨⟨.validateToken t, (Request.validateToken t).program sdk, []⟩,
          Function.update_self .., rfl, by simp⟩
  have hrun :=
    after.with_steps (Q := fun v event _ => FillsInTime v event ∧ ∀ out, event ≠ .settle i out)
    fun k v event v' hat => ⟨hafter k v event v' hat, fun out heq =>
      hopen out (heq ▸ List.mem_of_getElem? hat.found)⟩
  have hw : Informed sdk w ∧ Coherent w.shared ∧ Stale t why w.shared ∧ Watching t why i w := by
    refine hrun.invariant (P := fun w => Informed sdk w ∧ Coherent w.shared ∧ Stale t why w.shared ∧
      Watching t why i w) ?_ hv
    intro s event s' h hstep
    rcases h with ⟨hinformed, hcoherent, hstale, hwatching⟩
    exact ⟨hinformed.step hstep.1, hcoherent.step hinformed hstep.1 hstep.2.1,
      hstale.later (later_step hstep.1), hwatching.step hcoherent hstale hstep.1 hstep.2.2⟩
  rcases hw with ⟨hinformed, -, -, job, hjob, hcall, hasked⟩
  cases hend with
  | @settle _ job' _ hjob' htrace =>
      rw [hjob] at hjob'
      cases hjob'
      rw [hinformed.programmed i job hjob, hcall] at htrace
      exact validateToken_refuses htrace hasked

/-! ## A token that is refreshed -/

/-- Whether an event comes in time as a fill, if it is one. -/
def fillsInTime? (w : Pool ι) : Event ι → Bool
  | .exchange i ⟨.setEntry t _ _, _⟩ =>
      !w.shared.evicted.contains t && (w.jobs i).all fun job => job.asked.all fun
        | ⟨.newDate, .ok now⟩ => (w.shared.tokens t).all fun row => row.expiresAt.all fun e =>
            decide (now < e ∧ (w.shared.now = now ∨ w.shared.now + 10000 ≤ e))
        | _ => true
  | _ => true

omit [DecidableEq ι] in
theorem fillsInTime_of_fillsInTime? (h : fillsInTime? w event = true) : FillsInTime w event := by
  unfold FillsInTime
  split
  · rcases Bool.and_eq_true_iff.mp h with ⟨hfresh, hjobs⟩
    refine ⟨by simpa using hfresh, fun job now row e hjob hread hrow he => ?_⟩
    rw [hjob] at hjobs
    have hasked := List.all_eq_true.mp hjobs _ hread
    simp only [hrow, Option.all_some, he] at hasked
    exact of_decide_eq_true hasked
  · trivial

/-- The fills of a computed run that checks each of them. -/
theorem fillsInTimeAlong_of_checked {w : Pool ι}
    (h : (events.foldlM (checked? fillsInTime? ((service sdk ι).next? fun _ => effect?)) w).isSome =
      true) : FillsInTimeAlong sdk w events := by
  rcases Option.isSome_iff_exists.mp h with ⟨w', hw'⟩
  intro k v event v' hat
  refine fillsInTime_of_fillsInTime? (hat.checked (fun w event v v' => ?_) hw')
  exact Service.next?_unique (fun _ _ _ _ _ => effect?_unique) w event v v'

def sampleToken : Text := "t".toList

def sampleTokens : AuthState :=
  { sampleState with
    tokens := fun t => if t = sampleToken then some ⟨sampleAddress, none, some 3600000⟩ else none }

def samplePool : Pool Nat := ⟨sampleTokens, fun _ => none⟩

/-- The refresh `i`, to its return. -/
def refreshing (i : Nat) : List (Event Nat) :=
  [.start i (.refreshToken sampleToken),
   .exchange i ⟨.findToken sampleToken, .ok (some ⟨sampleAddress, none, some 3600000⟩)⟩,
   .exchange i ⟨.newDate, .ok 0⟩, .exchange i ⟨.newDate, .ok 0⟩,
   .exchange i ⟨.revokeToken sampleToken 0, .ok 1⟩, .exchange i ⟨.delEntry sampleToken, .ok ()⟩,
   .exchange i ⟨.randomBytes 24, .ok "u".toList⟩, .exchange i ⟨.newDate, .ok 0⟩,
   .exchange i ⟨.saveToken "u".toList ⟨sampleAddress, none, some 3600000⟩, .ok ()⟩,
   .settle i (.ok (.session ⟨sampleAddress, "u".toList⟩))]

/-- The validation `i`, from its start to the row it found. -/
def reading (i : Nat) : List (Event Nat) :=
  [.start i (.validateToken sampleToken), .exchange i ⟨.newDate, .ok 0⟩,
   .exchange i ⟨.getEntry sampleToken, .ok none⟩,
   .exchange i ⟨.findToken sampleToken, .ok (some ⟨sampleAddress, none, some 3600000⟩)⟩]

/-- It fills the cache and returns. -/
def filling (i : Nat) : List (Event Nat) :=
  [.exchange i ⟨.setEntry sampleToken sampleAddress 10000, .ok ()⟩,
   .settle i (.ok (.wallet sampleAddress))]

/-- The calls of the validation `i` of a revoked token. -/
def refused (i : Nat) : List (Event Nat) :=
  [.exchange i ⟨.newDate, .ok 0⟩, .exchange i ⟨.getEntry sampleToken, .ok none⟩,
   .exchange i ⟨.findToken sampleToken, .ok (some ⟨sampleAddress, some 0, some 3600000⟩)⟩]

abbrev sampleNext : Pool Nat → Event Nat → Option (Pool Nat) :=
  (service sampleSdk Nat).next? fun _ => effect?

theorem sample_step {w w' : Pool Nat} {event : Event Nat} (h : sampleNext w event = some w') :
    (service sampleSdk Nat).Step w event w' :=
  Service.next?_step (fun _ _ _ _ => effect?_responds) _ _ _ h

/-- The states of a validation that begins once the refresh has returned. -/
theorem sample_validation (past events : List (Event Nat)) (i : Nat)
    (out : Except HttpError Outcome)
    (hpast : (past.foldlM sampleNext samplePool).map (fun w => w.shared.returned.contains
      (.refreshToken sampleToken)) = some true)
    (hall : ((past ++ ((.start i (.validateToken sampleToken) : Event Nat) ::
      (events ++ [(.settle i out : Event Nat)]))).foldlM sampleNext samplePool).isSome = true) :
    ∃ u v w w', Run (service sampleSdk Nat).Step samplePool past u ∧
      Stale sampleToken none u.shared ∧
      (service sampleSdk Nat).Step u (.start i (.validateToken sampleToken)) v ∧
      Run (service sampleSdk Nat).Step v events w ∧
      (service sampleSdk Nat).Step w (.settle i out) w' := by
  rcases Option.map_eq_some_iff.mp hpast with ⟨u, hu, hreturned⟩
  rcases Option.isSome_iff_exists.mp hall with ⟨w', hw'⟩
  simp only [List.foldlM_append, List.foldlM_cons, List.foldlM_nil, hu, bind_pure] at hw'
  rcases Option.bind_eq_some_iff.mp hw' with ⟨_, heq, hfrom⟩
  cases heq
  rcases Option.bind_eq_some_iff.mp hfrom with ⟨v, hv, hrest⟩
  rcases Option.bind_eq_some_iff.mp hrest with ⟨w, hw, hsettle⟩
  exact ⟨u, v, w, w', sample_run hu, List.contains_iff_mem.mp hreturned, sample_step hv,
    sample_run hw, sample_step hsettle⟩

theorem fillsInTimeAlong_refused {w : Pool Nat} (i : Nat) :
    FillsInTimeAlong sdk w (refused i) := by
  intro k v event v' hat
  have hmem := List.mem_of_getElem? hat.found
  simp only [refused, List.mem_cons, List.not_mem_nil, or_false] at hmem
  rcases hmem with rfl | rfl | rfl <;> trivial

/-- A validation fills the cache, a refresh evicts the entry, and the next validation of
the token throws. -/
theorem stale_token_refused_sample :
    ∃ u v w w', Run (service sampleSdk Nat).Step samplePool
        (reading 1 ++ filling 1 ++ refreshing 0) u ∧
      (service sampleSdk Nat).Step u (.start 2 (.validateToken sampleToken)) v ∧
      Run (service sampleSdk Nat).Step v (refused 2) w ∧
      (service sampleSdk Nat).Step w
        (.settle 2 (.error (unauthorized "Invalid or expired token"))) w' ∧
      ∃ e, (.error (unauthorized "Invalid or expired token") : Except HttpError Outcome) =
        .error e := by
  rcases sample_validation (reading 1 ++ filling 1 ++ refreshing 0) (refused 2) 2
    (.error (unauthorized "Invalid or expired token")) (by decide +kernel) (by decide +kernel)
    with ⟨u, v, w, w', before, hstale, hstart, after, hend⟩
  exact ⟨u, v, w, w', before, hstart, after, hend,
    stale_token_refused (fun _ => rfl) (fun _ => rfl) rfl rfl before
      (fillsInTimeAlong_of_checked (by decide +kernel)) hstale hstart after
      (fillsInTimeAlong_refused 2) (by simp [refused]) hend⟩

/-- A validation fills the cache after the refresh has evicted, and the next one honours
the revoked token. -/
theorem revoked_token_honoured :
    ¬ ∀ (w₀ u v w w' : Pool Nat) (past events : List (Event Nat)) (t : Text) (i : Nat)
      (out : Except HttpError Outcome), (∀ i, w₀.jobs i = none) → (∀ t, w₀.shared.cache t = none) →
      w₀.shared.evicted = [] → w₀.shared.returned = [] →
      Run (service sampleSdk Nat).Step w₀ past u → .refreshToken t ∈ u.shared.returned →
      (service sampleSdk Nat).Step u (.start i (.validateToken t)) v →
      Run (service sampleSdk Nat).Step v events w → (∀ out, .settle i out ∉ events) →
      (service sampleSdk Nat).Step w (.settle i out) w' → ∃ e, out = .error e := by
  intro h
  rcases sample_validation (reading 1 ++ refreshing 0 ++ filling 1)
    [.exchange 2 ⟨.newDate, .ok 0⟩, .exchange 2 ⟨.getEntry sampleToken, .ok (some sampleAddress)⟩]
    2 (.ok (.wallet sampleAddress)) (by decide +kernel) (by decide +kernel)
    with ⟨u, v, w, w', before, hstale, hstart, after, hend⟩
  rcases h samplePool u v w w' _ _ _ _ _ (fun _ => rfl) (fun _ => rfl) rfl rfl
    before hstale hstart after
    (by simp) hend with ⟨e, he⟩
  cases he

end Auth

end Lendoor.Backend
