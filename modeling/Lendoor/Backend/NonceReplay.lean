import Lendoor.Backend.LinkProvenance
import Mathlib.Data.List.Basic

/-! # Messages are accepted once

A message to sign carries its nonce and the time it was issued, so that no two nonces that
differ in either are written alike. Nonces are unique in the table and are taken away only
once they have expired; so after its nonce was spent a message is never accepted again,
whatever the random source draws.
-/

namespace Lendoor.Backend

open Cctp (Text)
open Async (call lift Exchange)

namespace LinkedWallets

open WalletLink (LinkState)

/-! ## What a message says -/

/-- Two texts that end in one line each, after the same character. -/
theorem last_line_inj {a a' b b' : Text} {c : Char} (hb : c ∉ b) (hb' : c ∉ b')
    (h : a ++ c :: b = a' ++ c :: b') :
    a = a' ∧ b = b' := by
  rcases List.append_eq_append_iff.mp h with ⟨d, ha, hrest⟩ | ⟨d, ha, hrest⟩
  · cases d with
    | nil => exact ⟨by simpa using ha.symm, (List.cons.inj hrest).2⟩
    | cons x d => exact absurd ((List.cons.inj hrest).2 ▸ by simp) hb
  · cases d with
    | nil => exact ⟨by simpa using ha, (List.cons.inj hrest).2.symm⟩
    | cons x d => exact absurd ((List.cons.inj hrest).2 ▸ by simp) hb'

theorem issuedAt_eq : "\nIssued At: ".toList = '\n' :: "Issued At: ".toList := by decide +kernel

/-- The nonce and the time are read off a message, whatever its chain id. -/
theorem linkMessage_inj {address address' chainId chainId' nonce nonce' : Text} {t t' : Nat}
    (hlength : nonce.length = nonce'.length)
    (h : linkMessage address chainId nonce t = linkMessage address' chainId' nonce' t') :
    nonce = nonce' ∧ t = t' := by
  have hline : ∀ t, '\n' ∉ "Issued At: ".toList ++ IsoDate.toISOString t := by
    intro t
    rw [List.mem_append, not_or]
    exact ⟨by decide +kernel, IsoDate.newline_not_mem_toISOString t⟩
  have hparts : ∀ X X' : Text, X ++ nonce ++ "\nIssued At: ".toList ++ IsoDate.toISOString t =
      X' ++ nonce' ++ "\nIssued At: ".toList ++ IsoDate.toISOString t' →
      nonce = nonce' ∧ t = t' := by
    intro X X' h
    rw [issuedAt_eq, List.append_assoc (X ++ nonce), List.append_assoc (X' ++ nonce')] at h
    rcases last_line_inj (hline t) (hline t') h with ⟨hfirst, hlast⟩
    exact ⟨(List.append_inj' hfirst hlength).2,
      IsoDate.toISOString_injective (List.append_cancel_left hlast)⟩
  exact hparts _ _ h

/-! ## The table of nonces -/

/-- The nonce is one that was drawn, with its message and its five minutes. -/
structure WellWritten (row : WalletLinkNonce) (chainId : Text) (issuedAt : Nat) : Prop where
  length : row.nonce.length = 32
  message : row.message = linkMessage row.address chainId row.nonce issuedAt
  expiresAt : row.expiresAt = issuedAt + nonceTtlMs

/-- Nonces with the same message are the same text and expire together. -/
theorem WellWritten.same {row row' : WalletLinkNonce} {chainId chainId' : Text} {t t' : Nat}
    (h : WellWritten row chainId t)
    (h' : WellWritten row' chainId' t') (hmessage : row.message = row'.message) :
    row.nonce = row'.nonce ∧ row.expiresAt = row'.expiresAt := by
  rcases linkMessage_inj (h.length.trans h'.length.symm)
    (h.message.symm.trans (hmessage.trans h'.message)) with ⟨hnonce, ht⟩
  exact ⟨hnonce, by rw [h.expiresAt, h'.expiresAt, ht]⟩

/-- Identifiers are not used twice, and neither are nonces. -/
structure NoncesTidy (s : LinkTables) : Prop where
  ids : ∀ row ∈ s.nonces, row.id < s.nextNonceId
  unique : ∀ row ∈ s.nonces, ∀ row' ∈ s.nonces, row.id = row'.id ∨
    row.nonce = row'.nonce → row = row'
  written : ∀ row ∈ s.nonces, ∃ chainId t, WellWritten row chainId t

/-- The same row later on. -/
structure Copy (old row : WalletLinkNonce) : Prop where
  id : row.id = old.id
  address : row.address = old.address
  nonce : row.nonce = old.nonce
  message : row.message = old.message
  expiresAt : row.expiresAt = old.expiresAt
  used : old.used = true → row.used = true

theorem Copy.refl (row : WalletLinkNonce) : Copy row row := ⟨rfl, rfl, rfl, rfl, rfl, fun h => h⟩

theorem Copy.consume (id : Nat) (row : WalletLinkNonce) : Copy row (row.consume id) := by
  rw [WalletLinkNonce.consume]
  split
  · exact ⟨rfl, rfl, rfl, rfl, rfl, fun _ => rfl⟩
  · exact Copy.refl row

theorem Copy.wellWritten {old row : WalletLinkNonce} {chainId : Text} {t : Nat} (h : Copy old row)
    (hwritten : WellWritten old chainId t) : WellWritten row chainId t :=
  ⟨h.nonce ▸ hwritten.length, by rw [h.message, h.address, h.nonce, hwritten.message],
    h.expiresAt.trans hwritten.expiresAt⟩

/-- What no step takes back. A nonce that is gone has expired. -/
structure Later (s s' : LinkTables) : Prop where
  now : s.companion.now ≤ s'.companion.now
  nextNonceId : s.nextNonceId ≤ s'.nextNonceId
  stems : ∀ row ∈ s'.nonces, (∃ old ∈ s.nonces, Copy old row) ∨ s.nextNonceId ≤ row.id
  kept : ∀ old ∈ s.nonces, (∃ row ∈ s'.nonces, Copy old row) ∨ old.expiresAt < s'.companion.now

/-- A row that was read: its identifier still stands for its message and its time, if for any. -/
structure Known (s : LinkTables) (row : WalletLinkNonce) : Prop where
  old : row.id < s.nextNonceId
  same : ∀ row' ∈ s.nonces, row'.id = row.id → row'.message = row.message ∧
    row'.expiresAt = row.expiresAt

theorem Later.of_same {s s' : LinkTables} (hnow : s.companion.now ≤ s'.companion.now)
    (hid : s'.nextNonceId = s.nextNonceId) (hnonces : s'.nonces = s.nonces) : Later s s' := by
  refine ⟨hnow, Nat.le_of_eq hid.symm, fun row hrow => ?_, fun old hold => ?_⟩
  · exact .inl ⟨row, hnonces ▸ hrow, Copy.refl row⟩
  · exact .inl ⟨old, hnonces ▸ hold, Copy.refl old⟩

theorem Known.later {s s' : LinkTables} {row : WalletLinkNonce} (h : Known s row)
    (hlater : Later s s') : Known s' row := by
  refine ⟨Nat.lt_of_lt_of_le h.old hlater.nextNonceId, fun row' hrow' hid => ?_⟩
  rcases hlater.stems row' hrow' with ⟨old, hold, hcopy⟩ | hnew
  · rcases h.same old hold (hcopy.id.symm.trans hid) with ⟨hmessage, hexpires⟩
    exact ⟨hcopy.message.trans hmessage, hcopy.expiresAt.trans hexpires⟩
  · have hlt := h.old
    omega

section Steps

variable {ι : Type} {sdk : LinkSdk} {s s' : LinkTables} {x : Asked}

theorem effect_now (c : LinkState) (ask : WalletLink.Ask) : (c.effect ask).now = c.now := by
  cases ask <;> rfl

theorem later_effect (s : LinkTables) (ask : Ask) : Later s (s.effect ask) := by
  cases ask with
  | companion ask => exact .of_same (Nat.le_of_eq (effect_now s.companion ask).symm) rfl rfl
  | insertNonce userId address nonce message expiresAt =>
      refine ⟨Nat.le_refl _, Nat.le_succ _, fun row hrow => ?_, fun old hold => ?_⟩
      · rcases List.mem_append.mp hrow with hrow | hrow
        · exact .inl ⟨row, hrow, Copy.refl row⟩
        · rw [List.mem_singleton] at hrow
          exact .inr (Nat.le_of_eq (congrArg WalletLinkNonce.id hrow).symm)
      · exact .inl ⟨old, List.mem_append_left _ hold, Copy.refl old⟩
  | consumeNonce id =>
      refine ⟨Nat.le_refl _, Nat.le_refl _, fun row hrow => ?_, fun old hold => ?_⟩
      · rcases List.mem_map.mp hrow with ⟨old, hold, rfl⟩
        exact .inl ⟨old, hold, Copy.consume id old⟩
      · exact .inl ⟨_, List.mem_map_of_mem hold, Copy.consume id old⟩
  | randomBytes | findByToken | findNonce | recoverMessageAddress | findLinked | insertLinked =>
      exact .of_same (Nat.le_refl _) rfl rfl

theorem Responds.later (h : Responds sdk s x s') : Later s s' := by
  rcases x with ⟨ask, error | answer⟩
  · exact h.2 ▸ .of_same (Nat.le_refl _) rfl rfl
  · exact h.2 ▸ later_effect s ask

theorem Outside.later (h : Outside s s') : Later s s' := by
  cases h with
  | clock ms => exact .of_same (Nat.le_add_right _ _) rfl rfl
  | sweepNonces now hnow =>
      refine ⟨Nat.le_refl _, Nat.le_refl _,
        fun row hrow => .inl ⟨row, (List.mem_filter.mp hrow).1, Copy.refl row⟩, fun old hold => ?_⟩
      by_cases hexpired : old.expiresAt < now
      · exact .inr (Nat.lt_of_lt_of_le hexpired hnow)
      · exact .inl ⟨old, List.mem_filter.mpr ⟨hold, by simpa using hexpired⟩, Copy.refl old⟩
  | sweepTokens now hnow => exact .of_same (Nat.le_refl _) rfl rfl

theorem Change.later [DecidableEq ι] (h : Change (service sdk ι) s s') : Later s s' := by
  cases h with
  | rest | settle => exact .of_same (Nat.le_refl _) rfl rfl
  | respond hresponds => exact Responds.later hresponds
  | outside houtside => exact Outside.later houtside

/-! ## The table stays tidy -/

/-- What a request knows of the nonces it has drawn and read. -/
structure Informed (s : LinkTables) (asked : List Asked) : Prop where
  known : ∀ userId address message row,
    ⟨.findNonce userId address message, .ok (some row)⟩ ∈ asked →
    Known s row ∧ ∀ m, message = some m → row.message = m
  drawn : ∀ nonce, ⟨.randomBytes, .ok nonce⟩ ∈ asked → nonce.length = 32

variable {request : Request} {asked : List Asked}

theorem Informed.later (h : Informed s asked) (hlater : Later s s') : Informed s' asked :=
  ⟨fun userId address message row hrow => ⟨(h.known userId address message row hrow).1.later hlater,
    (h.known userId address message row hrow).2⟩, h.drawn⟩

theorem NoncesTidy.known (h : NoncesTidy s) {row : WalletLinkNonce} (hrow : row ∈ s.nonces) :
    Known s row := by
  refine ⟨h.ids row hrow, fun row' hrow' hid => ?_⟩
  rw [h.unique row' hrow' row hrow (.inl hid)]
  exact ⟨rfl, rfl⟩

theorem Informed.exchange (h : Informed s asked) (htidy : NoncesTidy s)
    (hresponds : Responds sdk s x s') :
    Informed s' (asked ++ [x]) := by
  have hlater := hresponds.later
  refine ⟨fun userId address message row hrow => ?_, fun nonce hnonce => ?_⟩
  · rcases List.mem_append.mp hrow with hrow | hrow
    · exact (h.later hlater).known userId address message row hrow
    · rw [List.mem_singleton] at hrow
      subst hrow
      rcases hresponds.1 with ⟨hmem, -, -, hmessage, -⟩
      exact ⟨(htidy.known hmem).later hlater, hmessage⟩
  · rcases List.mem_append.mp hnonce with hnonce | hnonce
    · exact h.drawn nonce hnonce
    · rw [List.mem_singleton] at hnonce
      subst hnonce
      exact hresponds.1.1

theorem NoncesTidy.exchange (h : NoncesTidy s) (hinformed : Informed s asked)
    (hpermitted : Permitted sdk request asked x.1)
    (hresponds : Responds sdk s x s') : NoncesTidy s' := by
  rcases x with ⟨ask, error | answer⟩
  · rw [hresponds.2]
    exact h
  rcases hresponds with ⟨hanswers, rfl⟩
  cases ask with
  | insertNonce userId address nonce message expiresAt =>
      rcases hpermitted with ⟨authHeader, addressRaw, chainId, bearer, issuedAt, rfl, hbears,
        hmessage, hexpires, rfl⟩
      have hlength := hinformed.drawn nonce (by simp)
      have hmem : ∀ row ∈ (s.effect (.insertNonce userId address nonce message expiresAt)).nonces,
          row ∈ s.nonces ∨
          row = ⟨s.nextNonceId, userId, address, nonce, message, false, expiresAt⟩ := by
        intro row hrow
        simpa [LinkTables.effect] using hrow
      have hfresh : ∀ row ∈ s.nonces, row.id ≠ s.nextNonceId ∧ row.nonce ≠ nonce :=
        fun row hrow => ⟨Nat.ne_of_lt (h.ids row hrow), hanswers row hrow⟩
      refine ⟨fun row hrow => ?_, fun row hrow row' hrow' hsame => ?_, fun row hrow => ?_⟩
      · rcases hmem row hrow with hold | rfl
        · exact Nat.lt_succ_of_lt (h.ids row hold)
        · exact Nat.lt_succ_self _
      · rcases hmem row hrow with hold | rfl
        · rcases hmem row' hrow' with hold' | rfl
          · exact h.unique row hold row' hold' hsame
          · exact absurd hsame (not_or.mpr (hfresh row hold))
        · rcases hmem row' hrow' with hold' | rfl
          · exact absurd (hsame.imp Eq.symm Eq.symm) (not_or.mpr (hfresh row' hold'))
          · rfl
      · rcases hmem row hrow with hold | rfl
        · exact h.written row hold
        · exact ⟨chainId, issuedAt, hlength, hmessage, hexpires⟩
  | consumeNonce id =>
      refine ⟨fun row hrow => ?_, fun row hrow row' hrow' hsame => ?_, fun row hrow => ?_⟩
      · rcases List.mem_map.mp hrow with ⟨old, hold, rfl⟩
        exact (Copy.consume id old).id ▸ h.ids old hold
      · rcases List.mem_map.mp hrow with ⟨old, hold, rfl⟩
        rcases List.mem_map.mp hrow' with ⟨old', hold', rfl⟩
        rw [(Copy.consume id old).id, (Copy.consume id old').id, (Copy.consume id old).nonce,
          (Copy.consume id old').nonce] at hsame
        rw [h.unique old hold old' hold' hsame]
      · rcases List.mem_map.mp hrow with ⟨old, hold, rfl⟩
        rcases h.written old hold with ⟨chainId, t, hwritten⟩
        exact ⟨chainId, t, (Copy.consume id old).wellWritten hwritten⟩
  | companion | randomBytes | findByToken | findNonce | recoverMessageAddress | findLinked
  | insertLinked =>
      exact ⟨h.ids, h.unique, h.written⟩

theorem NoncesTidy.outside (h : NoncesTidy s) (houtside : Outside s s') : NoncesTidy s' := by
  cases houtside with
  | clock | sweepTokens => exact ⟨h.ids, h.unique, h.written⟩
  | sweepNonces now hnow =>
      have hmem : ∀ row ∈ s.nonces.filter fun row => ¬row.expiresAt < now, row ∈ s.nonces :=
        fun row hrow => (List.mem_filter.mp hrow).1
      exact ⟨fun row hrow => h.ids row (hmem row hrow),
        fun row hrow row' hrow' => h.unique row (hmem row hrow) row' (hmem row' hrow'),
        fun row hrow => h.written row (hmem row hrow)⟩

theorem tidy_records [DecidableEq ι] (sdk : LinkSdk) (w : Pool ι) :
    Records (service sdk ι) w (Permitted sdk) (fun _ => NoncesTidy) fun _ s _ _ => Informed s where
  keep _ _ _ h := h
  settle _ _ _ _ _ h := h
  outside _ _ _ h houtside := h.outside houtside
  fresh _ _ _ _ _ := ⟨by simp, by simp⟩
  remember _ _ _ _ _ _ _ _ hchange h := h.later (Change.later hchange)
  exchange _ _ _ _ _ _ _ h hinformed hpermitted hresponds _ :=
    ⟨h.exchange hinformed hpermitted hresponds, hinformed.exchange h hresponds⟩

/-! ## After a nonce was spent -/

variable {spent : WalletLinkNonce} {next : Nat}

/-- The nonce was spent when `next` was the next identifier: it is in the table and used, or it
has expired, and what stands unused for its message is a later row. -/
structure SpentSince (spent : WalletLinkNonce) (next : Nat) (s : LinkTables) : Prop where
  tidy : NoncesTidy s
  next_le : next ≤ s.nextNonceId
  gone : (∃ row ∈ s.nonces, Copy spent row ∧ row.used = true) ∨ spent.expiresAt < s.companion.now
  unused : ∀ row ∈ s.nonces, row.message = spent.message → row.used = false → next ≤ row.id

/-- A later row for the message was read when the nonce had expired, and so was the clock. -/
def ReadLate (spent : WalletLinkNonce) (next : Nat) (s : LinkTables) (asked : List Asked) : Prop :=
  ∀ (n userId : Nat) (address : Text) (message : Option Text) (row : WalletLinkNonce),
    asked[n]? = some ⟨.findNonce userId address message, .ok (some row)⟩ →
    row.message = spent.message → next ≤ row.id →
      row.expiresAt = spent.expiresAt ∧ spent.expiresAt < s.companion.now ∧
      ∀ (k : Nat) (t : Nat), n < k →
        asked[k]? = some ⟨.companion .newDate, .ok t⟩ → spent.expiresAt < t

theorem NoncesTidy.eq_of_message (h : NoncesTidy s) {row row' : WalletLinkNonce}
    (hrow : row ∈ s.nonces) (hrow' : row' ∈ s.nonces)
    (hmessage : row.message = row'.message) : row = row' := by
  rcases h.written row hrow with ⟨chainId, t, hwritten⟩
  rcases h.written row' hrow' with ⟨chainId', t', hwritten'⟩
  exact h.unique row hrow row' hrow' (.inr (hwritten.same hwritten' hmessage).1)

theorem SpentSince.later (h : SpentSince spent next s) (hlater : Later s s')
    (htidy : NoncesTidy s') : SpentSince spent next s' := by
  refine ⟨htidy, h.next_le.trans hlater.nextNonceId, ?_, fun row hrow hmessage hunused => ?_⟩
  · rcases h.gone with ⟨row, hrow, hcopy, hused⟩ | hexpired
    · rcases hlater.kept row hrow with ⟨row', hrow', hcopy'⟩ | hexpired
      · refine .inl ⟨row', hrow', ⟨hcopy'.id.trans hcopy.id, hcopy'.address.trans hcopy.address,
          hcopy'.nonce.trans hcopy.nonce, hcopy'.message.trans hcopy.message,
          hcopy'.expiresAt.trans hcopy.expiresAt, fun _ => hcopy'.used hused⟩, hcopy'.used hused⟩
      · exact .inr (hcopy.expiresAt ▸ hexpired)
    · exact .inr (Nat.lt_of_lt_of_le hexpired hlater.now)
  · rcases hlater.stems row hrow with ⟨old, hold, hcopy⟩ | hnew
    · rw [hcopy.id]
      refine h.unused old hold (hcopy.message.symm.trans hmessage)
        (Bool.eq_false_iff.mpr fun hused => ?_)
      rw [hcopy.used hused] at hunused
      cases hunused
    · exact h.next_le.trans hnew

/-- An unused row for the message is found only once the nonce has expired. -/
theorem SpentSince.expired (h : SpentSince spent next s) {row : WalletLinkNonce}
    (hrow : row ∈ s.nonces)
    (hmessage : row.message = spent.message) (hunused : row.used = false) :
    spent.expiresAt < s.companion.now := by
  rcases h.gone with ⟨row', hrow', hcopy, hused⟩ | hexpired
  · rw [h.tidy.eq_of_message hrow hrow' (hmessage.trans hcopy.message.symm), hused] at hunused
    cases hunused
  · exact hexpired

theorem ReadLate.later (h : ReadLate spent next s asked) (hlater : Later s s') :
    ReadLate spent next s' asked := by
  intro n userId address message row hn hmessage hnext
  rcases h n userId address message row hn hmessage hnext with ⟨hexpires, hnow, hclock⟩
  exact ⟨hexpires, Nat.lt_of_lt_of_le hnow hlater.now, hclock⟩

theorem ReadLate.exchange {chainId : Text} {issuedAt : Nat} (h : ReadLate spent next s asked)
    (hspent : SpentSince spent next s)
    (hwritten : WellWritten spent chainId issuedAt) (hresponds : Responds sdk s x s') :
    ReadLate spent next s' (asked ++ [x]) := by
  have hlater := hresponds.later
  intro n userId address message row hn hmessage hnext
  rcases getElem?_snoc_cases hn with ⟨hlt, hn⟩ | ⟨rfl, rfl⟩
  · rcases h n userId address message row hn hmessage hnext with ⟨hexpires, hnow, hclock⟩
    refine ⟨hexpires, Nat.lt_of_lt_of_le hnow hlater.now, fun k t hk ht => ?_⟩
    rcases getElem?_snoc_cases ht with ⟨-, ht⟩ | ⟨rfl, rfl⟩
    · exact hclock k t hk ht
    · have hread : t = s.companion.now := of_decide_eq_true hresponds.1
      exact hread ▸ hnow
  · rcases hresponds.1 with ⟨hmem, -, -, -, hunused⟩
    rcases hspent.tidy.written row hmem with ⟨chainId', t, hrow⟩
    refine ⟨(hrow.same hwritten hmessage).2, ?_, fun k t hk ht => ?_⟩
    · exact Nat.lt_of_lt_of_le (hspent.expired hmem hmessage hunused) hlater.now
    · rcases getElem?_snoc_cases ht with ⟨hlt, -⟩ | ⟨rfl, -⟩
      · omega
      · omega

theorem spent_records [DecidableEq ι] {chainId : Text} {issuedAt : Nat} (sdk : LinkSdk) (w : Pool ι)
    (hwritten : WellWritten spent chainId issuedAt) :
    Records (service sdk ι) w (Permitted sdk) (fun _ => SpentSince spent next)
      fun _ s _ _ asked => Informed s asked ∧ ReadLate spent next s asked where
  keep _ _ _ h := h
  settle _ _ _ _ _ h := h
  outside _ _ _ h houtside := h.later houtside.later (h.tidy.outside houtside)
  fresh _ _ _ _ _ := ⟨⟨by simp, by simp⟩, by simp [ReadLate]⟩
  remember _ _ _ _ _ _ _ _ hchange h :=
    ⟨h.1.later (Change.later hchange), h.2.later (Change.later hchange)⟩
  exchange _ _ _ _ _ _ _ h hasked hpermitted hresponds _ :=
    ⟨h.later (Responds.later hresponds) (h.tidy.exchange hasked.1 hpermitted hresponds),
      hasked.1.exchange h.tidy hresponds, hasked.2.exchange h hwritten hresponds⟩

end Steps

/-! ## Once -/

section Once

variable {ι : Type} [DecidableEq ι] {sdk : LinkSdk} {w u u' v v' : Pool ι}
  {before after : List (Event ι)} {i j : ι}
  {message : Text} {id id' : Nat} {affected : Bool}

omit [DecidableEq ι] in
theorem Fresh.tidy (h : Fresh w) : NoncesTidy w.shared := by
  constructor <;> simp [h.nonces]

omit [DecidableEq ι] in
theorem program_asks_all (s : LinkTables) (i : ι) (request : Request) :
    ((service sdk ι).program s i request).AsksAfter (Permitted sdk request) [] :=
  program_asks request

/-- A request that goes on to spend a nonce has read its row. -/
theorem spends_read {job : LinkJob} {authHeader addressRaw signature : Option Text} {chainId : Int}
    (hcall : job.call = .verify authHeader addressRaw chainId (some message) signature)
    (hpermitted : Permitted sdk job.call job.asked (.consumeNonce id)) :
    ∃ userId address row t,
      job.asked[2]? = some ⟨.findNonce userId address (some message), .ok (some row)⟩ ∧
      job.asked[3]? = some ⟨.companion .newDate, .ok t⟩ ∧ t ≤ row.expiresAt ∧ id = row.id := by
  rcases hpermitted with ⟨authHeader, addressRaw, chainId, m, signature, userId, address, row,
    hrequest, hverified, hid⟩
  rw [hcall] at hrequest
  cases hrequest
  rcases hverified
    with ⟨bearer, t, signer, ⟨token, email, session, t', -, -, rfl⟩, halive, -, hasked⟩
  rw [hasked]
  exact ⟨userId, address, row, t, rfl, rfl, halive, hid⟩

/-- Once a nonce is spent, its message is spent. -/
theorem spentSince_of_consumed {s s' : LinkTables} {spent : WalletLinkNonce} (htidy : NoncesTidy s)
    (htidy' : NoncesTidy s')
    (hspent : spent ∈ s.nonces) (hresponds : Responds sdk s ⟨.consumeNonce spent.id, .ok true⟩ s') :
    SpentSince spent s'.nextNonceId s' := by
  rcases hresponds with ⟨-, rfl⟩
  have hused : (spent.consume spent.id).used = true := by rw [WalletLinkNonce.consume, if_pos rfl]
  refine ⟨htidy', Nat.le_refl _, .inl ⟨_, List.mem_map_of_mem hspent, Copy.consume _ _, hused⟩,
    fun row hrow hmessage hunused => ?_⟩
  rcases List.mem_map.mp hrow with ⟨old, hold, rfl⟩
  rw [htidy.eq_of_message hold hspent ((Copy.consume _ _).message.symm.trans hmessage), hused]
    at hunused
  cases hunused

/-- After a verification has spent its nonce, no other verification of the same message spends
one: not while the first is under way, not after the nonce is gone from the table, whatever
the random source draws. -/
theorem message_accepted_once {job job' : LinkJob}
    {authHeader addressRaw signature authHeader' addressRaw' signature' : Option Text}
    {chainId chainId' : Int} (hfresh : Fresh w) (run : Run (service sdk ι).Step w before u)
    (hjob : u.jobs i = some job)
    (hcall : job.call = .verify authHeader addressRaw chainId (some message) signature)
    (hspends : (service sdk ι).Step u (.exchange i ⟨.consumeNonce id, .ok true⟩) u')
    (run' : Run (service sdk ι).Step u' after v) (hjob' : v.jobs j = some job')
    (hcall' : job'.call = .verify authHeader' addressRaw' chainId' (some message) signature')
    (hagain : (service sdk ι).Step v (.exchange j ⟨.consumeNonce id', .ok affected⟩) v') :
    affected = false := by
  have htidy :=
    Records.run (tidy_records sdk w) program_asks_all (Kept.of_idle hfresh.idle hfresh.tidy) run
  have htidy' :=
    Records.run (tidy_records sdk w) program_asks_all (Kept.of_idle hfresh.idle hfresh.tidy)
      (run.snoc hspends)
  rcases htidy.permitted program_asks_all hspends with ⟨_, hsame, hpermitted, hresponds⟩
  cases hjob.symm.trans hsame
  rcases spends_read hcall hpermitted with ⟨userId, address, row, t, hread, -, -, rfl⟩
  rcases (htidy.asked i job hjob).known userId address _ row (List.mem_of_getElem? hread)
    with ⟨hknown, hmessage⟩
  rcases List.any_eq_true.mp hresponds.1.symm with ⟨spent, hspent, hunused⟩
  have hid : spent.id = row.id := (of_decide_eq_true hunused).1
  rw [← hid] at hresponds
  have hsince := spentSince_of_consumed htidy.shared htidy'.shared hspent hresponds
  have hspentMessage : spent.message = message :=
    ((hknown.same spent hspent hid).1).trans (hmessage message rfl)
  rcases htidy.shared.written spent hspent with ⟨chain, issuedAt, hwritten⟩
  -- What was read before has a smaller identifier than what comes after.
  have hstart : Kept (service sdk ι) (fun _ => SpentSince spent u'.shared.nextNonceId)
      (fun _ s _ _ asked => Informed s asked ∧ ReadLate spent u'.shared.nextNonceId s asked) []
      u' := by
    refine ⟨htidy'.started, hsince, fun k job hjob => ⟨htidy'.asked k job hjob, ?_⟩⟩
    intro n userId address m row hn _ hnext
    have hold :=
      ((htidy'.asked k job hjob).known userId address m row (List.mem_of_getElem? hn)).1.old
    omega
  have hkept := Records.run (spent_records sdk u' hwritten) program_asks_all hstart run'
  rcases hkept.permitted program_asks_all hagain with ⟨_, hsame', hpermitted', hresponds'⟩
  cases hjob'.symm.trans hsame'
  rcases spends_read hcall' hpermitted'
    with ⟨userId', address', row', t', hread', hclock', halive', rfl⟩
  rcases hkept.asked j job' hjob' with ⟨hinformed, hlate⟩
  rcases hinformed.known userId' address' _ row' (List.mem_of_getElem? hread')
    with ⟨hknown', hmessage'⟩
  rw [hresponds'.1, List.any_eq_false]
  intro other hother hunused'
  rcases of_decide_eq_true hunused' with ⟨hid', hunused'⟩
  have hotherMessage :=
    (hknown'.same other hother hid').1.trans ((hmessage' message rfl).trans hspentMessage.symm)
  have hnext := hkept.shared.unused other hother hotherMessage hunused'
  rcases hlate 2 userId' address' _ row' hread' ((hmessage' message rfl).trans hspentMessage.symm)
    (hid' ▸ hnext) with
    ⟨hexpires, -, hclock⟩
  have hlt := hclock 3 t' (by omega) hclock'
  omega

end Once

/-- Two verifications of one message, each up to its update of the nonce. -/
def racing : List (Event Nat) := signingIn ++ asking ++ verifying 3 ++ verifying 4

def sampleVerify : Request := .verify sampleHeader (some sampleAddress) 1 (some sampleMessage)
    (some sampleSignature)

/-- The second is told that it changed no row. -/
theorem message_accepted_once_race : ∃ u u', Run (service sampleSdk Nat).Step samplePool racing u ∧
    (service sampleSdk Nat).Step u (.exchange 3 ⟨.consumeNonce 0, .ok true⟩) u' ∧
    (∃ v', (service sampleSdk Nat).Step u' (.exchange 4 ⟨.consumeNonce 0, .ok false⟩) v') ∧
    ∀ affected v', (service sampleSdk Nat).Step u' (.exchange 4 ⟨.consumeNonce 0, .ok affected⟩)
      v' → affected = false := by
  have hrun : (racing.foldlM sampleStep samplePool).any
      (fun u => (u.jobs 3).map Job.call = some sampleVerify ∧
      (sampleStep u (.exchange 3 ⟨.consumeNonce 0, .ok true⟩)).any
      (fun u' => (u'.jobs 4).map Job.call = some sampleVerify ∧
        (sampleStep u' (.exchange 4 ⟨.consumeNonce 0, .ok false⟩)).isSome =
        true) = true) = true := by
    decide +kernel
  rcases (Option.any_eq_true _ _).mp hrun with ⟨u, hu, hrest⟩
  rcases of_decide_eq_true hrest with ⟨hcall, hrest⟩
  rcases (Option.any_eq_true _ _).mp hrest with ⟨u', hu', hrest⟩
  rcases of_decide_eq_true hrest with ⟨hcall', hagain⟩
  rcases Option.map_eq_some_iff.mp hcall with ⟨job, hjob, hcall⟩
  rcases Option.map_eq_some_iff.mp hcall' with ⟨job', hjob', hcall'⟩
  rcases Option.isSome_iff_exists.mp hagain with ⟨v', hv'⟩
  have hspends := sample_step hu'
  refine ⟨u, u', sample_run hu, hspends, ⟨v', sample_step hv'⟩, fun affected v' h => ?_⟩
  exact message_accepted_once samplePool_fresh (sample_run hu) hjob hcall hspends
    (Run.nil u') hjob' hcall' h

end LinkedWallets

end Lendoor.Backend
