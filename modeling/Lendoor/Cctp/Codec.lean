import Lendoor.Core.BigEndian
import Lendoor.Cctp.Message

/-! # The message layout

The parser takes exactly the hexadecimal texts of the documented layout, and what it
parses spells the message again byte for byte.
-/

namespace Lendoor.Cctp

open BigEndian

/-! ## Slices and numbers -/

theorem slice_length {bytes : Bytes} {start stop : Nat} (hstop : stop ≤ bytes.length) :
    (slice bytes start stop).length = stop - start := by
  rw [slice, List.length_drop, List.length_take, Nat.min_eq_left hstop]

/-- Neighbouring slices join. -/
theorem slice_append {bytes : Bytes} {i j k : Nat} (hij : i ≤ j) (hjk : j ≤ k) :
    slice bytes i j ++ slice bytes j k = slice bytes i k := by
  have hsplit : k - i = (j - i) + (k - j) := by omega
  simp only [slice, List.drop_take]
  rw [hsplit, List.take_add, List.drop_drop, Nat.add_sub_cancel' hij]

/-- The loops over `bytes[offset + i]` read a slice from its most significant byte. -/
theorem fold_bytes {bytes : Bytes} {offset n : Nat} (h : offset + n ≤ bytes.length) :
    (List.range n).foldl (fun value i => value <<< 8 ||| byteAt bytes (offset + i)) 0 =
      ofBytes (slice bytes offset (offset + n)) := by
  induction n with
  | zero => simp [slice, ofBytes]
  | succ n ih =>
      have hlt : offset + n < bytes.length := by omega
      have hconcat : slice bytes offset (offset + (n + 1)) =
          slice bytes offset (offset + n) ++ [bytes[offset + n]] := by
        have hwide : offset + (n + 1) - offset = n + 1 := by omega
        have hnarrow : offset + n - offset = n := by omega
        simp only [slice, List.drop_take]
        rw [hwide, hnarrow, List.take_add_one]
        simp [List.getElem?_drop, List.getElem?_eq_getElem hlt]
      rw [List.range_succ, List.foldl_append, ih (by omega), hconcat, ofBytes_concat]
      simp [byteAt, List.getElem?_eq_getElem hlt, shift_or_byte]

theorem u256_eq {bytes : Bytes} {offset : Nat} (h : offset + 32 ≤ bytes.length) :
    u256 bytes offset = ofBytes (slice bytes offset (offset + 32)) := fold_bytes h

theorem u32_eq {bytes : Bytes} {offset : Nat} (h : offset + 4 ≤ bytes.length) :
    u32 bytes offset = ofBytes (slice bytes offset (offset + 4)) := by
  rw [← fold_bytes h]
  simp [u32, List.range_succ, Nat.shiftLeft_or_distrib, ← Nat.shiftLeft_add]

/-- The source computes on signed words and reads the result as unsigned; the bits are
the same. -/
theorem u32_word (bytes : Bytes) (offset : Nat) :
    u32 bytes offset =
      (BitVec.ofNat 32 (byteAt bytes offset) <<< 24 |||
        BitVec.ofNat 32 (byteAt bytes (offset + 1)) <<< 16 |||
        BitVec.ofNat 32 (byteAt bytes (offset + 2)) <<< 8 |||
        BitVec.ofNat 32 (byteAt bytes (offset + 3))).toNat := by
  have hbyte : ∀ i, byteAt bytes i < 256 := fun i => UInt8.toNat_lt _
  have h0 := hbyte offset
  have h1 := hbyte (offset + 1)
  have h2 := hbyte (offset + 2)
  have h3 := hbyte (offset + 3)
  simp only [u32, BitVec.toNat_or, BitVec.toNat_shiftLeft, BitVec.toNat_ofNat, Nat.shiftLeft_eq]
  rw [Nat.mod_eq_of_lt (by omega : byteAt bytes offset < 2 ^ 32),
    Nat.mod_eq_of_lt (by omega : byteAt bytes (offset + 1) < 2 ^ 32),
    Nat.mod_eq_of_lt (by omega : byteAt bytes (offset + 2) < 2 ^ 32),
    Nat.mod_eq_of_lt (by omega : byteAt bytes (offset + 3) < 2 ^ 32),
    Nat.mod_eq_of_lt (by omega : byteAt bytes offset * 2 ^ 24 < 2 ^ 32),
    Nat.mod_eq_of_lt (by omega : byteAt bytes (offset + 1) * 2 ^ 16 < 2 ^ 32),
    Nat.mod_eq_of_lt (by omega : byteAt bytes (offset + 2) * 2 ^ 8 < 2 ^ 32)]

theorem toBytes_slice {bytes : Bytes} {start stop width : Nat} (hstop : stop ≤ bytes.length)
    (hwidth : stop - start = width) :
    toBytes width (ofBytes (slice bytes start stop)) = slice bytes start stop := by
  have hlen : (slice bytes start stop).length = width := (slice_length hstop).trans hwidth
  rw [← hlen, toBytes_ofBytes]

theorem toBytes_u32 {bytes : Bytes} {offset : Nat} (h : offset + 4 ≤ bytes.length) :
    toBytes 4 (u32 bytes offset) = slice bytes offset (offset + 4) := by
  rw [u32_eq h, toBytes_slice h (by omega)]

theorem toBytes_u256 {bytes : Bytes} {offset : Nat} (h : offset + 32 ≤ bytes.length) :
    toBytes 32 (u256 bytes offset) = slice bytes offset (offset + 32) := by
  rw [u256_eq h, toBytes_slice h (by omega)]

theorem u32_lt (bytes : Bytes) (offset : Nat) : u32 bytes offset < 2 ^ 32 := by
  rw [u32_word]
  exact BitVec.isLt _

theorem u256_lt {bytes : Bytes} {offset : Nat} (h : offset + 32 ≤ bytes.length) :
    u256 bytes offset < 2 ^ 256 := by
  have hlt := ofBytes_lt (slice bytes offset (offset + 32))
  rw [slice_length h, Nat.add_sub_cancel_left] at hlt
  rw [u256_eq h]
  exact hlt.trans_eq (by norm_num)

/-! ## Writing a message -/

/-- The bytes of a nonce as the header holds it. -/
def nonceBytes (nonce : Text) : Bytes := decodeHex (stripPrefix nonce)

theorem nonceBytes_bytesToHex (bytes : Bytes) : nonceBytes (bytesToHex bytes) = bytes :=
  (encodeHex_spec bytes).2.2

def encodeHeader (header : CctpMessageHeader) : Bytes :=
  toBytes 4 header.version ++ toBytes 4 header.sourceDomain ++ toBytes 4 header.destinationDomain ++
    nonceBytes header.nonce ++ header.sender ++ header.recipient ++ header.destinationCaller ++
    toBytes 4 header.minFinalityThreshold ++ toBytes 4 header.finalityThresholdExecuted

def encodeBody (body : CctpBurnBody) : Bytes :=
  toBytes 4 body.version ++ body.burnToken ++ body.mintRecipient ++ toBytes 32 body.amount ++
    body.messageSender ++ toBytes 32 body.maxFee ++ toBytes 32 body.feeExecuted ++
    toBytes 32 body.expirationBlock ++ body.hookData

/-- The fields of a message in the documented order. -/
def encodeCctpMessage (header : CctpMessageHeader) (body : CctpBurnBody) : Bytes :=
  encodeHeader header ++ encodeBody body

/-- Every field of a header lies in the range of its type. -/
structure CctpMessageHeader.InRange (header : CctpMessageHeader) : Prop where
  version : header.version < 2 ^ 32
  sourceDomain : header.sourceDomain < 2 ^ 32
  destinationDomain : header.destinationDomain < 2 ^ 32
  nonce : ∃ bytes : Bytes, header.nonce = bytesToHex bytes ∧ bytes.length = 32
  sender : header.sender.length = 32
  recipient : header.recipient.length = 32
  destinationCaller : header.destinationCaller.length = 32
  minFinalityThreshold : header.minFinalityThreshold < 2 ^ 32
  finalityThresholdExecuted : header.finalityThresholdExecuted < 2 ^ 32

/-- Every field of a burn body lies in the range of its type. -/
structure CctpBurnBody.InRange (body : CctpBurnBody) : Prop where
  version : body.version < 2 ^ 32
  burnToken : body.burnToken.length = 32
  mintRecipient : body.mintRecipient.length = 32
  amount : body.amount < 2 ^ 256
  messageSender : body.messageSender.length = 32
  maxFee : body.maxFee < 2 ^ 256
  feeExecuted : body.feeExecuted < 2 ^ 256
  expirationBlock : body.expirationBlock < 2 ^ 256

/-! ## The header -/

theorem parseHeader_inRange {bytes : Bytes} (h : headerBytes ≤ bytes.length) :
    (parseHeader bytes).InRange := by
  unfold headerBytes at h
  exact {
    version := u32_lt _ _
    sourceDomain := u32_lt _ _
    destinationDomain := u32_lt _ _
    nonce := ⟨_, rfl, slice_length (by omega)⟩
    sender := slice_length (by omega)
    recipient := slice_length (by omega)
    destinationCaller := slice_length (by omega)
    minFinalityThreshold := u32_lt _ _
    finalityThresholdExecuted := u32_lt _ _ }

theorem encodeHeader_parseHeader {bytes : Bytes} (h : headerBytes ≤ bytes.length) :
    encodeHeader (parseHeader bytes) = bytes.take headerBytes := by
  unfold headerBytes at h
  have hwhole : slice bytes 0 148 = bytes.take 148 := rfl
  simp only [encodeHeader, parseHeader, nonceBytes_bytesToHex]
  rw [toBytes_u32 (by omega), toBytes_u32 (by omega), toBytes_u32 (by omega),
    toBytes_u32 (by omega), toBytes_u32 (by omega), slice_append (by omega) (by omega),
    slice_append (by omega) (by omega), slice_append (by omega) (by omega),
    slice_append (by omega) (by omega), slice_append (by omega) (by omega),
    slice_append (by omega) (by omega), slice_append (by omega) (by omega),
    slice_append (by omega) (by omega)]
  exact hwhole

/-! ## The body -/

theorem parseCctpBurnBody_ok {bytes : Bytes} {body : CctpBurnBody}
    (h : parseCctpBurnBody bytes = .ok body) :
    bodyFixedBytes ≤ bytes.length ∧ body.InRange ∧ encodeBody body = bytes := by
  unfold parseCctpBurnBody at h
  split at h
  · cases h
  · rename_i hlong
    have hlen : 228 ≤ bytes.length := by
      unfold bodyFixedBytes at hlong
      omega
    cases h
    refine ⟨hlen, ?_, ?_⟩
    · exact {
        version := u32_lt _ _
        burnToken := slice_length (by omega)
        mintRecipient := slice_length (by omega)
        amount := u256_lt (by omega)
        messageSender := slice_length (by omega)
        maxFee := u256_lt (by omega)
        feeExecuted := u256_lt (by omega)
        expirationBlock := u256_lt (by omega) }
    · have hfront : slice bytes 0 228 = bytes.take 228 := rfl
      simp only [encodeBody]
      rw [toBytes_u32 (by omega), toBytes_u256 (by omega), toBytes_u256 (by omega),
        toBytes_u256 (by omega), toBytes_u256 (by omega), slice_append (by omega) (by omega),
        slice_append (by omega) (by omega), slice_append (by omega) (by omega),
        slice_append (by omega) (by omega), slice_append (by omega) (by omega),
        slice_append (by omega) (by omega), slice_append (by omega) (by omega)]
      exact List.take_append_drop 228 bytes

theorem parseCctpBurnBody_of_length {bytes : Bytes} (h : bodyFixedBytes ≤ bytes.length) :
    ∃ body, parseCctpBurnBody bytes = .ok body := by
  unfold parseCctpBurnBody
  rw [if_neg (by omega)]
  exact ⟨_, rfl⟩

/-! ## The message -/

theorem hexToBytes_eq_ok {hex : Text} {bytes : Bytes} :
    hexToBytes hex = .ok bytes ↔ (stripPrefix hex).length % 2 = 0 ∧
      (stripPrefix hex).all isHexDigit = true ∧ decodeHex (stripPrefix hex) = bytes := by
  unfold hexToBytes
  by_cases hlen : (stripPrefix hex).length % 2 = 0
  · by_cases hall : (stripPrefix hex).all isHexDigit = true
    · simp [hlen, hall]
    · simp [hall]
  · simp [hlen]

theorem decodeHex_length {hex : Text} (h : hex.length % 2 = 0) :
    2 * (decodeHex hex).length = hex.length := by
  induction hex using decodeHex.induct with
  | case1 hi lo rest ih =>
      simp only [List.length_cons] at h
      simp only [decodeHex, List.length_cons]
      have hrest := ih (by omega)
      omega
  | case2 hex hshort =>
      cases hex with
      | nil => rfl
      | cons c rest =>
          cases rest with
          | nil => simp at h
          | cons c' rest => exact absurd rfl (hshort c c' rest)

/-- A text is hexadecimal digits behind an optional prefix iff stripping the prefix
leaves digits. -/
theorem stripPrefix_digits {hex : Text} {P : Text → Prop} :
    ((stripPrefix hex).all isHexDigit = true ∧ P (stripPrefix hex)) ↔
      ∃ clean, (hex = clean ∨ hex = '0' :: 'x' :: clean) ∧ clean.all isHexDigit =
        true ∧ P clean := by
  constructor
  · rintro ⟨hall, hP⟩
    refine ⟨stripPrefix hex, ?_, hall, hP⟩
    unfold stripPrefix
    split
    · exact .inr rfl
    · exact .inl rfl
  · rintro ⟨clean, rfl | rfl, hall, hP⟩
    · have hself : stripPrefix hex = hex := by
        unfold stripPrefix
        split
        · have hx : isHexDigit 'x' = false := by decide
          simp [hx] at hall
        · rfl
      rw [hself]
      exact ⟨hall, hP⟩
    · exact ⟨hall, hP⟩

theorem parseCctpMessage_ok {hex : Text} {header : CctpMessageHeader} {body : CctpBurnBody}
    (h : parseCctpMessage hex = .ok (header, body)) :
    ∃ bytes, hexToBytes hex = .ok bytes ∧ headerBytes + bodyFixedBytes ≤ bytes.length ∧
      encodeCctpMessage header body = bytes ∧ header.InRange ∧ body.InRange := by
  rcases bind_eq_ok.mp h with ⟨bytes, hbytes, h⟩
  rcases bind_eq_ok.mp h with ⟨_, hlong, h⟩
  rcases bind_eq_ok.mp h with ⟨parsed, hbody, h⟩
  have hlen := panicIf_eq_ok.mp hlong
  have hpair := Prod.mk.inj (pure_eq_ok.mp h)
  rcases parseCctpBurnBody_ok hbody with ⟨hbodyLen, hrange, hencode⟩
  rw [List.length_drop] at hbodyLen
  refine ⟨bytes, hbytes, by omega, ?_, ?_, ?_⟩
  · rw [encodeCctpMessage, ← hpair.1, ← hpair.2, encodeHeader_parseHeader (by omega), hencode,
      List.take_append_drop]
  · rw [← hpair.1]
    exact parseHeader_inRange (by omega)
  · rw [← hpair.2]
    exact hrange

theorem parseCctpMessage_of_bytes {hex : Text} {bytes : Bytes} (h : hexToBytes hex = .ok bytes)
    (hlen : headerBytes + bodyFixedBytes ≤ bytes.length) :
    ∃ message, parseCctpMessage hex = .ok message := by
  have hbody : bodyFixedBytes ≤ (bytes.drop headerBytes).length := by
    rw [List.length_drop]
    omega
  rcases parseCctpBurnBody_of_length hbody with ⟨body, hbody⟩
  have hlong : ¬bytes.length < headerBytes := by omega
  refine ⟨(parseHeader bytes, body), ?_⟩
  simp only [parseCctpMessage, h, ok_bind, hbody, panicIf, if_neg hlong]
  rfl

/-- The parser takes a text iff it is an even number of hexadecimal digits for at least
376 bytes behind an optional `0x`. What it parses is in range and spells the message's
bytes again. -/
theorem parseCctpMessage_lossless (hex : Text) :
    ((∃ message, parseCctpMessage hex = .ok message) ↔
      ∃ clean, (hex = clean ∨ hex = '0' :: 'x' :: clean) ∧ clean.all isHexDigit = true ∧
        clean.length % 2 = 0 ∧ 2 * 376 ≤ clean.length) ∧
    ∀ header body, parseCctpMessage hex = .ok (header, body) →
      hexToBytes hex = .ok (encodeCctpMessage header body) ∧ header.InRange ∧ body.InRange := by
  constructor
  · rw [← @stripPrefix_digits hex fun clean => clean.length % 2 = 0 ∧ 2 * 376 ≤ clean.length]
    constructor
    · rintro ⟨⟨header, body⟩, h⟩
      rcases parseCctpMessage_ok h with ⟨bytes, hbytes, hlen, -⟩
      rcases hexToBytes_eq_ok.mp hbytes with ⟨heven, hall, hdecode⟩
      have htwice := decodeHex_length heven
      rw [hdecode] at htwice
      unfold headerBytes bodyFixedBytes at hlen
      exact ⟨hall, heven, by omega⟩
    · rintro ⟨hall, heven, hlong⟩
      have htwice := decodeHex_length heven
      have hbytes := hexToBytes_eq_ok.mpr ⟨heven, hall, rfl⟩
      exact parseCctpMessage_of_bytes hbytes (by unfold headerBytes bodyFixedBytes; omega)
  · intro header body h
    rcases parseCctpMessage_ok h with ⟨bytes, hbytes, -, hencode, hheader, hbody⟩
    rw [hencode]
    exact ⟨hbytes, hheader, hbody⟩

/-! ## The other way round -/

theorem toBytes_inj {width m n : Nat} (hm : m < 256 ^ width) (hn : n < 256 ^ width)
    (h : toBytes width m = toBytes width n) : m = n := by
  have hread := congrArg ofBytes h
  rwa [ofBytes_toBytes, ofBytes_toBytes, Nat.mod_eq_of_lt hm, Nat.mod_eq_of_lt hn] at hread

theorem nonce_inj {header header' : CctpMessageHeader} (h : header.InRange) (h' : header'.InRange)
    (heq : nonceBytes header.nonce = nonceBytes header'.nonce) : header.nonce = header'.nonce := by
  rcases h.nonce with ⟨bytes, hnonce, -⟩
  rcases h'.nonce with ⟨bytes', hnonce', -⟩
  rw [hnonce, hnonce', nonceBytes_bytesToHex, nonceBytes_bytesToHex] at heq
  rw [hnonce, hnonce', heq]

theorem nonceBytes_length {header : CctpMessageHeader} (h : header.InRange) :
    (nonceBytes header.nonce).length = 32 := by
  rcases h.nonce with ⟨bytes, hnonce, hlen⟩
  rw [hnonce, nonceBytes_bytesToHex, hlen]

theorem encodeHeader_length {header : CctpMessageHeader} (h : header.InRange) :
    (encodeHeader header).length = headerBytes := by
  simp [encodeHeader, nonceBytes_length h, h.sender, h.recipient, h.destinationCaller, headerBytes]

/-- Headers in range are told apart by their bytes: the fields have fixed widths. -/
theorem encodeHeader_inj {header header' : CctpMessageHeader} (h : header.InRange)
    (h' : header'.InRange) (heq : encodeHeader header = encodeHeader header') :
    header = header' := by
  simp only [encodeHeader, List.append_assoc] at heq
  rcases List.append_inj heq (by simp) with ⟨h1, heq⟩
  rcases List.append_inj heq (by simp) with ⟨h2, heq⟩
  rcases List.append_inj heq (by simp) with ⟨h3, heq⟩
  rcases List.append_inj heq (by rw [nonceBytes_length h, nonceBytes_length h']) with ⟨h4, heq⟩
  rcases List.append_inj heq (by rw [h.sender, h'.sender]) with ⟨h5, heq⟩
  rcases List.append_inj heq (by rw [h.recipient, h'.recipient]) with ⟨h6, heq⟩
  rcases List.append_inj heq (by rw [h.destinationCaller, h'.destinationCaller]) with ⟨h7, heq⟩
  rcases List.append_inj heq (by simp) with ⟨h8, h9⟩
  cases header
  cases header'
  simp only [CctpMessageHeader.mk.injEq]
  exact ⟨toBytes_inj h.version h'.version h1, toBytes_inj h.sourceDomain h'.sourceDomain h2,
    toBytes_inj h.destinationDomain h'.destinationDomain h3, nonce_inj h h' h4, h5, h6, h7,
    toBytes_inj h.minFinalityThreshold h'.minFinalityThreshold h8,
    toBytes_inj h.finalityThresholdExecuted h'.finalityThresholdExecuted h9⟩

theorem encodeBody_inj {body body' : CctpBurnBody} (h : body.InRange) (h' : body'.InRange)
    (heq : encodeBody body = encodeBody body') : body = body' := by
  simp only [encodeBody, List.append_assoc] at heq
  have hword : (256 : Nat) ^ 32 = 2 ^ 256 := by norm_num
  rcases List.append_inj heq (by simp) with ⟨h1, heq⟩
  rcases List.append_inj heq (by rw [h.burnToken, h'.burnToken]) with ⟨h2, heq⟩
  rcases List.append_inj heq (by rw [h.mintRecipient, h'.mintRecipient]) with ⟨h3, heq⟩
  rcases List.append_inj heq (by simp) with ⟨h4, heq⟩
  rcases List.append_inj heq (by rw [h.messageSender, h'.messageSender]) with ⟨h5, heq⟩
  rcases List.append_inj heq (by simp) with ⟨h6, heq⟩
  rcases List.append_inj heq (by simp) with ⟨h7, heq⟩
  rcases List.append_inj heq (by simp) with ⟨h8, h9⟩
  cases body
  cases body'
  simp only [CctpBurnBody.mk.injEq]
  exact ⟨toBytes_inj h.version h'.version h1, h2, h3,
    toBytes_inj (by rw [hword]; exact h.amount) (by rw [hword]; exact h'.amount) h4, h5,
    toBytes_inj (by rw [hword]; exact h.maxFee) (by rw [hword]; exact h'.maxFee) h6,
    toBytes_inj (by rw [hword]; exact h.feeExecuted) (by rw [hword]; exact h'.feeExecuted) h7,
    toBytes_inj (by rw [hword]; exact h.expirationBlock)
    (by rw [hword]; exact h'.expirationBlock) h8, h9⟩

/-- A message written from fields in range parses to these fields. -/
theorem parseCctpMessage_encode {header : CctpMessageHeader} {body : CctpBurnBody}
    (hheader : header.InRange) (hbody : body.InRange) :
    parseCctpMessage (bytesToHex (encodeCctpMessage header body)) = .ok (header, body) := by
  have hlen : headerBytes + bodyFixedBytes ≤ (encodeCctpMessage header body).length := by
    rw [encodeCctpMessage, List.length_append, encodeHeader_length hheader]
    simp [encodeBody, hbody.burnToken, hbody.mintRecipient, hbody.messageSender, bodyFixedBytes]
    omega
  rcases parseCctpMessage_of_bytes (hexToBytes_bytesToHex _) hlen with ⟨⟨header', body'⟩, h⟩
  rcases parseCctpMessage_ok h with ⟨bytes, hbytes, -, hencode, hheader', hbody'⟩
  rw [hexToBytes_bytesToHex] at hbytes
  rw [← Except.ok.inj hbytes] at hencode
  rcases List.append_inj hencode
    (by rw [encodeHeader_length hheader', encodeHeader_length hheader]) with ⟨hh, hb⟩
  rw [h, encodeHeader_inj hheader' hheader hh, encodeBody_inj hbody' hbody hb]

end Lendoor.Cctp
