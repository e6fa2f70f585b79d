import Lendoor.Core.BigEndian
import Lendoor.Core.Crc
import Lendoor.Core.Numerals
import Lendoor.Backend.Http

/-! # Account identifiers

What the decoder of account identifiers accepts, against the format: a version byte, a key
and a checksum, spelled in base 32. The decoder's loop reads the number that the characters
spell; a last character that does not fill a byte is dropped.
-/

namespace Lendoor.Backend

open Cctp (Text Bytes byteAt slice isHexDigit)

/-! ## The format -/

/-- The bytes of an identifier: the version, the key, and the checksum with its low byte
first. -/
def framed (key : Bytes) (checksum : Nat) : Bytes :=
  UInt8.ofNat accountIdVersionByte :: key ++ [UInt8.ofNat checksum, UInt8.ofNat (checksum / 256)]

/-- CRC16-XModem: the generator is `x¹⁶ + x¹² + x⁵ + 1`, the register starts empty. -/
def IsCrc16Xmodem (bytes : Bytes) (checksum : Nat) : Prop :=
  Crc.IsCrc 16 0x1021 (BigEndian.ofBytes bytes) checksum

/-- Eight characters for each five bytes. -/
def encodeBase32 (bytes : Bytes) : Text :=
  Numerals.spell base32Alphabet (bytes.length * 8 / 5) (BigEndian.ofBytes bytes)

/-- `s` is the identifier of a key. -/
def IsAccountId (key : Bytes) (s : Text) : Prop :=
  key.length = 32 ∧ ∃ checksum,
    IsCrc16Xmodem (UInt8.ofNat accountIdVersionByte :: key) checksum ∧
    s = encodeBase32 (framed key checksum)

/-! ## The checksum -/

theorem crcBit_eq (crc : Nat) : crcBit crc = Crc.shiftStep 16 0x1021 crc := by
  have hbit : (crc &&& 0x8000 ≠ 0) ↔ crc.testBit 15 = true := by
    have hand : crc &&& 2 ^ 15 = (crc.testBit 15).toNat * 2 ^ 15 := Nat.and_two_pow crc 15
    change crc &&& 2 ^ 15 ≠ 0 ↔ _
    rw [hand]
    cases crc.testBit 15 <;> decide
  have hlow : ∀ n : Nat, n &&& 0xffff = n % 2 ^ 16 := fun n => Nat.and_two_pow_sub_one_eq_mod n 16
  unfold crcBit Crc.shiftStep
  simp only [hbit, hlow]

theorem crcByte_eq (crc : Nat) (byte : UInt8) :
    crcByte crc byte = (Crc.shiftStep 16 0x1021)^[8] (crc ^^^ byte.toNat <<< 8) := by
  rw [crcByte, List.foldl_const, List.length_range, funext crcBit_eq]

theorem crc16Xmodem_concat (bytes : Bytes) (byte : UInt8) :
    crc16Xmodem (bytes ++ [byte]) = crcByte (crc16Xmodem bytes) byte := by
  rw [crc16Xmodem, List.foldl_append]
  rfl

/-- The register holds the remainder of the bytes that went in. -/
theorem crc16Xmodem_spec (bytes : Bytes) :
    crc16Xmodem bytes < 2 ^ 16 ∧ IsCrc16Xmodem bytes (crc16Xmodem bytes) := by
  induction bytes using List.reverseRecOn with
  | nil =>
      refine ⟨by decide, ?_⟩
      change Crc.bitPoly 0 = Crc.bitPoly 0 * _ %ₘ _
      have hzero : Crc.bitPoly 0 = 0 := by simp [Crc.bitPoly]
      rw [hzero, zero_mul, Polynomial.zero_modByMonic]
  | append_singleton bytes byte ih =>
      have hbyte : byte.toNat < 2 ^ 8 := byte.toNat_lt
      have hblock :=
        Crc.isCrc_block (by decide : 0x1021 < 2 ^ 16) (by decide)
          (by decide : 8 ≤ 16) hbyte ih.1 ih.2
      rw [crc16Xmodem_concat, crcByte_eq]
      refine ⟨Crc.shiftStep_lt, ?_⟩
      rw [IsCrc16Xmodem, BigEndian.ofBytes_concat, Nat.mul_comm]
      exact hblock

theorem isCrc16Xmodem_iff {bytes : Bytes} {checksum : Nat} :
    IsCrc16Xmodem bytes checksum ↔ checksum = crc16Xmodem bytes := by
  constructor
  · intro h
    exact h.unique (crc16Xmodem_spec bytes).2
  · rintro rfl
    exact (crc16Xmodem_spec bytes).2

/-! ## The decoding loop -/

theorem base32Alphabet_length : base32Alphabet.length = 32 := by decide

theorem base32Alphabet_nodup : base32Alphabet.Nodup := by decide

/-- The accumulators after a text: the bits that are left over, the word, and the bytes that
are full. -/
structure Base32.Reads (s : Base32) (text : Text) : Prop where
  bits : s.bits = 5 * text.length % 8
  value : s.value = Numerals.value base32Alphabet text % 2 ^ 32
  bytes : s.bytes = BigEndian.toBytes (5 * text.length / 8)
    (Numerals.value base32Alphabet text / 2 ^ (5 * text.length % 8))

variable {text : Text} {char : Char} {s s' : Base32}

theorem Base32.push_mem (hmem : char ∈ base32Alphabet) : ∃ s', s.push char = .ok s' := by
  rcases Option.isSome_iff_exists.mp (List.isSome_idxOf?.mpr hmem) with ⟨idx, hidx⟩
  unfold Base32.push
  rw [hidx]
  dsimp only
  split <;> exact ⟨_, rfl⟩

theorem Base32.push_ok (h : s.push char = .ok s') : char ∈ base32Alphabet := by
  unfold Base32.push at h
  split at h
  · cases h
  · rename_i idx hidx
    exact List.isSome_idxOf?.mp (by rw [hidx]; rfl)

/-- A byte of the word, while it has not run out of it. -/
theorem byte_of_word (n : Nat) {bits : Nat} (h : bits ≤ 24) :
    UInt8.ofNat ((n % 2 ^ 32) >>> bits &&& 0xff) = UInt8.ofNat (n / 2 ^ bits) := by
  have hlow : ((n % 2 ^ 32) >>> bits &&& 2 ^ 8 - 1) = n / 2 ^ bits % 2 ^ 8 := by
    refine Nat.eq_of_testBit_eq fun i => ?_
    rw [Nat.and_two_pow_sub_one_eq_mod, Nat.testBit_mod_two_pow, Nat.testBit_mod_two_pow,
      Nat.testBit_shiftRight, Nat.testBit_mod_two_pow, Nat.testBit_div_two_pow]
    by_cases hi : i < 8
    · have hinside : bits + i < 32 := by omega
      simp [hi, hinside, Nat.add_comm]
    · simp [hi]
  rw [← UInt8.toNat_inj, UInt8.toNat_ofNat', UInt8.toNat_ofNat',
    ← Nat.mod_mod (n / 2 ^ bits), ← hlow]
  rfl

/-- One more character leaves the bits before it where they were. -/
theorem value_concat_div (hmem : char ∈ base32Alphabet) (text : Text) (bits : Nat) :
    Numerals.value base32Alphabet (text ++ [char]) / 2 ^ (bits + 5) =
      Numerals.value base32Alphabet text / 2 ^ bits := by
  have hlt := List.idxOf_lt_length_of_mem hmem
  rw [base32Alphabet_length] at hlt
  rw [Numerals.value_concat, base32Alphabet_length, Nat.add_comm bits 5, Nat.pow_add,
    ← Nat.div_div_eq_div_mul]
  congr 1
  omega

/-- One round of the loop. -/
theorem Base32.Reads.push (hreads : s.Reads text) (h : s.push char = .ok s') :
    s'.Reads (text ++ [char]) := by
  have hmem := Base32.push_ok h
  rcases Option.isSome_iff_exists.mp (List.isSome_idxOf?.mpr hmem) with ⟨idx, hidx⟩
  have hindex : base32Alphabet.idxOf char = idx := by
    rw [List.idxOf_eq_getD_idxOf?, hidx, Option.getD_some]
  have hlt : idx < 2 ^ 5 := by
    have hinside := List.idxOf_lt_length_of_mem hmem
    rwa [hindex, base32Alphabet_length] at hinside
  have hlength : (text ++ [char]).length = text.length + 1 := by simp
  have hword : (s.value <<< 5 ||| idx) % 2 ^ 32 = Numerals.value base32Alphabet (text ++ [char]) %
      2 ^ 32 := by
    rw [Numerals.value_concat, base32Alphabet_length, hindex, ← Nat.shiftLeft_add_eq_or_of_lt hlt,
      Nat.shiftLeft_eq, hreads.value]
    omega
  have hquot := value_concat_div hmem text (5 * text.length % 8)
  unfold Base32.push at h
  rw [hidx] at h
  simp only [hreads.bits, hword] at h
  split at h
  · rename_i hfull
    cases h
    have hrest : 5 * (text.length + 1) % 8 = 5 * text.length % 8 + 5 - 8 := by omega
    have hcount : 5 * (text.length + 1) / 8 = 5 * text.length / 8 + 1 := by omega
    -- above the new byte stand the bytes that were full before
    have hhigh : Numerals.value base32Alphabet (text ++ [char]) / 2 ^
        (5 * text.length % 8 + 5 - 8) / 256 =
        Numerals.value base32Alphabet text / 2 ^ (5 * text.length % 8) := by
      rw [Nat.div_div_eq_div_mul, show 256 = 2 ^ 8 from rfl, ← Nat.pow_add,
        Nat.sub_add_cancel hfull, hquot]
    exact {
      bits := by rw [hlength, hrest]
      value := rfl
      bytes := by
        rw [hlength, hrest, hcount, BigEndian.toBytes, hreads.bytes, hhigh,
          byte_of_word _ (by omega)] }
  · rename_i hmore
    cases h
    have hrest : 5 * (text.length + 1) % 8 = 5 * text.length % 8 + 5 := by omega
    have hcount : 5 * (text.length + 1) / 8 = 5 * text.length / 8 := by omega
    exact {
      bits := by rw [hlength, hrest]
      value := rfl
      bytes := by rw [hlength, hrest, hcount, hreads.bytes, hquot] }

theorem foldlM_push (text : Text) :
    (∀ {s}, text.foldlM Base32.push ⟨0, 0, []⟩ = .ok s → Numerals.Spelled base32Alphabet text ∧
      s.Reads text) ∧
      (Numerals.Spelled base32Alphabet text → ∃ s, text.foldlM Base32.push ⟨0, 0, []⟩ = .ok s) := by
  induction text using List.reverseRecOn with
  | nil =>
      refine ⟨fun h => ?_, fun _ => ⟨_, rfl⟩⟩
      cases h
      exact ⟨by simp [Numerals.Spelled], ⟨rfl, rfl, rfl⟩⟩
  | append_singleton text char ih =>
      simp only [List.foldlM_append, List.foldlM_cons, List.foldlM_nil, bind_pure,
        Numerals.spelled_concat]
      constructor
      · intro s h
        rcases bind_eq_ok.mp h with ⟨before, hbefore, h⟩
        rcases ih.1 hbefore with ⟨hspelled, hreads⟩
        exact ⟨⟨hspelled, Base32.push_ok h⟩, hreads.push h⟩
      · rintro ⟨hspelled, hmem⟩
        rcases ih.2 hspelled with ⟨before, hbefore⟩
        rcases Base32.push_mem (s := before) hmem with ⟨s, hs⟩
        exact ⟨s, bind_eq_ok.mpr ⟨before, hbefore, hs⟩⟩

/-- The decoder reads the number that the characters spell, without the bits that are left
over. -/
theorem decodeBase32_eq_ok {bytes : Bytes} :
    decodeBase32 text = .ok bytes ↔ Numerals.Spelled base32Alphabet text ∧
      bytes = BigEndian.toBytes (5 * text.length / 8)
        (Numerals.value base32Alphabet text / 2 ^ (5 * text.length % 8)) := by
  constructor
  · intro h
    rcases bind_eq_ok.mp h with ⟨s, hs, h⟩
    rcases (foldlM_push text).1 hs with ⟨hspelled, hreads⟩
    exact ⟨hspelled, by rw [← pure_eq_ok.mp h, hreads.bytes]⟩
  · rintro ⟨hspelled, rfl⟩
    rcases (foldlM_push text).2 hspelled with ⟨s, hs⟩
    exact bind_eq_ok.mpr ⟨s, hs, by rw [((foldlM_push text).1 hs).2.bytes]; rfl⟩

theorem decodeBase32_length {bytes : Bytes} (h : decodeBase32 text = .ok bytes) :
    bytes.length = 5 * text.length / 8 := by
  rw [(decodeBase32_eq_ok.mp h).2, BigEndian.toBytes_length]

theorem pow_width (k : Nat) : 32 ^ (8 * k) = 256 ^ (5 * k) := by
  rw [Nat.pow_mul, Nat.pow_mul]

/-- Where the characters fill the bytes, the decoder undoes the encoding. -/
theorem decodeBase32_encodeBase32 {bytes : Bytes} (hfull : bytes.length % 5 = 0) :
    decodeBase32 (encodeBase32 bytes) = .ok bytes := by
  obtain ⟨k, hk⟩ : ∃ k, bytes.length = 5 * k := ⟨bytes.length / 5, by omega⟩
  have hwidth : bytes.length * 8 / 5 = 8 * k := by omega
  have hlt : BigEndian.ofBytes bytes < 32 ^ (8 * k) := by
    rw [pow_width, ← hk]
    exact BigEndian.ofBytes_lt bytes
  refine decodeBase32_eq_ok.mpr ⟨Numerals.spelled_spell (by decide) _ _, ?_⟩
  have hcount : 5 * (8 * k) / 8 = bytes.length := by omega
  have hrest : 5 * (8 * k) % 8 = 0 := by omega
  rw [encodeBase32, hwidth, Numerals.spell_length, hcount, hrest, Nat.pow_zero, Nat.div_one,
    Numerals.value_spell base32Alphabet_nodup (by decide), base32Alphabet_length,
    Nat.mod_eq_of_lt hlt, BigEndian.toBytes_ofBytes]

/-- and nothing else decodes to those bytes in as many characters. -/
theorem eq_encodeBase32 {bytes : Bytes} (hfull : text.length % 8 = 0)
    (h : decodeBase32 text = .ok bytes) :
    text = encodeBase32 bytes := by
  rcases decodeBase32_eq_ok.mp h with ⟨hspelled, hbytes⟩
  obtain ⟨k, hk⟩ : ∃ k, text.length = 8 * k := ⟨text.length / 8, by omega⟩
  have hcount : 5 * text.length / 8 = 5 * k := by omega
  have hrest : 5 * text.length % 8 = 0 := by omega
  have hlt : Numerals.value base32Alphabet text < 256 ^ (5 * k) := by
    have hspan := Numerals.value_lt hspelled
    rwa [base32Alphabet_length, hk, pow_width] at hspan
  have hnumber : BigEndian.ofBytes bytes = Numerals.value base32Alphabet text := by
    rw [hbytes, BigEndian.ofBytes_toBytes, hcount, hrest, Nat.pow_zero, Nat.div_one,
      Nat.mod_eq_of_lt hlt]
  have hwidth : bytes.length * 8 / 5 = text.length := by
    rw [decodeBase32_length h]
    omega
  rw [encodeBase32, hnumber, hwidth, Numerals.spell_value hspelled]

/-- A character that does not fill a byte is read and dropped. -/
theorem decodeBase32_concat (hrest : 5 * text.length % 8 < 3) {bytes : Bytes} :
    decodeBase32 (text ++ [char]) = .ok bytes ↔ decodeBase32 text = .ok bytes ∧
      char ∈ base32Alphabet := by
  have hlength : (text ++ [char]).length = text.length + 1 := by simp
  have hrest' : 5 * (text.length + 1) % 8 = 5 * text.length % 8 + 5 := by omega
  have hcount : 5 * (text.length + 1) / 8 = 5 * text.length / 8 := by omega
  rw [decodeBase32_eq_ok, decodeBase32_eq_ok, Numerals.spelled_concat, hlength, hrest', hcount]
  constructor
  · rintro ⟨⟨hspelled, hmem⟩, hbytes⟩
    rw [value_concat_div hmem] at hbytes
    exact ⟨⟨hspelled, hbytes⟩, hmem⟩
  · rintro ⟨⟨hspelled, hbytes⟩, hmem⟩
    rw [← value_concat_div hmem] at hbytes
    exact ⟨⟨hspelled, hmem⟩, hbytes⟩

/-! ## The identifiers -/

/-- The identifier of a key with one more character behind it. -/
def Overlong (s : Text) : Prop :=
  ∃ key id char, IsAccountId key id ∧ char ∈ base32Alphabet ∧ s = id ++ [char]

variable {key bytes : Bytes} {id : Text}

theorem IsAccountId.eq_encode (h : IsAccountId key id) :
    id = encodeBase32 (framed key (crc16Xmodem (UInt8.ofNat accountIdVersionByte :: key))) := by
  rcases h with ⟨-, checksum, hcrc, rfl⟩
  rw [isCrc16Xmodem_iff.mp hcrc]

theorem framed_length (h : key.length = 32) (checksum : Nat) :
    (framed key checksum).length = 35 := by
  simp [framed, h]

theorem IsAccountId.length (h : IsAccountId key id) : id.length = 56 := by
  rw [h.eq_encode, encodeBase32, Numerals.spell_length, framed_length h.1]

/-- Every key has one identifier. -/
theorem existsUnique_isAccountId (h : key.length = 32) : ∃! id, IsAccountId key id :=
  ⟨_, ⟨h, _, (crc16Xmodem_spec _).2, rfl⟩, fun _ hid => hid.eq_encode⟩

/-- The two bytes of a checksum, its low byte first. -/
theorem checksum_bytes {low high : UInt8} {checksum : Nat} (h : checksum < 2 ^ 16) :
    low.toNat ||| high.toNat <<< 8 = checksum ↔
      low = UInt8.ofNat checksum ∧ high = UInt8.ofNat (checksum / 256) := by
  have hlow := low.toNat_lt
  have hhigh := high.toNat_lt
  have hword : low.toNat ||| high.toNat <<< 8 = 256 * high.toNat + low.toNat := by
    rw [Nat.or_comm, BigEndian.shift_or_byte]
  rw [hword, ← UInt8.toNat_inj, ← UInt8.toNat_inj, UInt8.toNat_ofNat', UInt8.toNat_ofNat']
  omega

theorem exists_parts (h : bytes.length = 35) :
    ∃ version key low high, key.length = 32 ∧ bytes = version :: key ++ [low, high] := by
  obtain ⟨version, rest, rfl⟩ := List.exists_cons_of_length_pos (l := bytes) (by omega)
  have hrest : rest.length = 34 := by simpa using h
  obtain ⟨low, high, htail⟩ : ∃ low high, rest.drop 32 = [low, high] := by
    rw [← List.length_eq_two]
    simp [hrest]
  refine ⟨version, rest.take 32, low, high, by simp [hrest], ?_⟩
  rw [List.cons_append, ← htail, List.take_append_drop]

/-- What is checked of the parts. -/
theorem decodeStellarPublicKey_parts {s : Text} {mid : Bytes} {version low high : UInt8}
    (hmid : mid.length = 32)
    (hdecoded : decodeBase32 s = .ok (version :: mid ++ [low, high])) :
    decodeStellarPublicKey s = .ok key ↔ version.toNat = accountIdVersionByte ∧
      (low.toNat ||| high.toNat <<< 8) = crc16Xmodem (version :: mid) ∧ mid = key := by
  have hlength : (version :: mid ++ [low, high]).length = 35 := by simp [hmid]
  have hfirst : byteAt (version :: mid ++ [low, high]) 0 = version.toNat := rfl
  have hlow : byteAt (version :: mid ++ [low, high]) 33 = low.toNat := by simp [byteAt, hmid]
  have hhigh : byteAt (version :: mid ++ [low, high]) 34 = high.toNat := by simp [byteAt, hmid]
  have hpayload : slice (version :: mid ++ [low, high]) 0 33 = version :: mid := by
    simp [slice, hmid]
  have hkey : slice (version :: mid ++ [low, high]) 1 33 = mid := by simp [slice, hmid]
  rw [decodeStellarPublicKey, hdecoded]
  simp only [ok_bind, hlength, hfirst, hlow, hhigh, hpayload, hkey, bind_eq_ok, panicIf_eq_ok,
    pure_eq_ok, not_not, ne_eq, exists_const, true_and]

/-- The checks behind the decoder hold the bytes to the frame. -/
theorem decodeStellarPublicKey_frame {s : Text} :
    decodeStellarPublicKey s = .ok key ↔ key.length = 32 ∧
      decodeBase32 s =
        .ok (framed key (crc16Xmodem (UInt8.ofNat accountIdVersionByte :: key))) := by
  have hspan : ∀ bytes, crc16Xmodem bytes < 2 ^ 16 := fun bytes => (crc16Xmodem_spec bytes).1
  constructor
  · intro h
    rcases bind_eq_ok.mp h with ⟨decoded, hdecoded, hchecks⟩
    rcases bind_eq_ok.mp hchecks with ⟨_, hlength, -⟩
    rcases exists_parts (not_not.mp (panicIf_eq_ok.mp hlength))
      with ⟨version, mid, low, high, hmid, rfl⟩
    rcases (decodeStellarPublicKey_parts hmid hdecoded).mp h with ⟨hversion, hchecksum, rfl⟩
    have hfirst : version = UInt8.ofNat accountIdVersionByte := by
      rw [← hversion, UInt8.ofNat_toNat]
    rcases (checksum_bytes (hspan _)).mp hchecksum with ⟨hlow, hhigh⟩
    rw [hdecoded, framed, ← hfirst, ← hlow, ← hhigh]
    exact ⟨hmid, rfl⟩
  · rintro ⟨hlength, hdecoded⟩
    refine (decodeStellarPublicKey_parts hlength hdecoded).mpr ⟨by decide, ?_, rfl⟩
    exact (checksum_bytes (hspan _)).mpr ⟨rfl, rfl⟩

/-- What the decoder accepts for a key: its identifier, and that with one more character. -/
theorem decodeStellarPublicKey_eq_ok {s : Text} :
    decodeStellarPublicKey s = .ok key ↔ ∃ id, IsAccountId key id ∧
      (s = id ∨ ∃ char ∈ base32Alphabet, s = id ++ [char]) := by
  constructor
  · intro h
    rcases decodeStellarPublicKey_frame.mp h with ⟨hlength, hdecoded⟩
    have hid : IsAccountId key
        (encodeBase32 (framed key (crc16Xmodem (UInt8.ofNat accountIdVersionByte :: key)))) :=
      ⟨hlength, _, (crc16Xmodem_spec _).2, rfl⟩
    have hcount := decodeBase32_length hdecoded
    rw [framed_length hlength] at hcount
    refine ⟨_, hid, ?_⟩
    rcases (by omega : s.length = 56 ∨ s.length = 57) with hfull | hmore
    · exact Or.inl (eq_encodeBase32 (by rw [hfull]) hdecoded)
    · obtain ⟨text, char, rfl⟩ :=
        (List.eq_nil_or_concat' s).resolve_left (by rintro rfl; cases hmore)
      have htext : text.length = 56 := by simpa using hmore
      rcases (decodeBase32_concat (by rw [htext]; decide)).mp hdecoded with ⟨hdecoded, hmem⟩
      exact Or.inr ⟨char, hmem, by rw [← eq_encodeBase32 (by rw [htext]) hdecoded]⟩
  · rintro ⟨id, hid, hs⟩
    have hdecoded : decodeBase32 id =
        .ok (framed key (crc16Xmodem (UInt8.ofNat accountIdVersionByte :: key))) := by
      rw [hid.eq_encode]
      exact decodeBase32_encodeBase32 (by rw [framed_length hid.1])
    refine decodeStellarPublicKey_frame.mpr ⟨hid.1, ?_⟩
    rcases hs with rfl | ⟨char, hmem, rfl⟩
    · exact hdecoded
    · exact (decodeBase32_concat (by rw [hid.length]; decide)).mpr ⟨hdecoded, hmem⟩

variable {t : Text}

theorem isValidStellarPublicKey_iff {s : Text} :
    isValidStellarPublicKey s = true ↔ ∃ key, decodeStellarPublicKey s = .ok key := by
  unfold isValidStellarPublicKey
  cases decodeStellarPublicKey s <;> simp [Except.isOk, Except.toBool]

theorem isAccountId_take {s : Text} (h : decodeStellarPublicKey s = .ok key) :
    IsAccountId key (s.take 56) := by
  rcases decodeStellarPublicKey_eq_ok.mp h with ⟨id, hid, rfl | ⟨char, -, rfl⟩⟩
  · rwa [← hid.length, List.take_length]
  · rwa [← hid.length, List.take_left]

/-- Accepted strings decode to one key when their first 56 characters agree. -/
theorem decodeStellarPublicKey_eq_iff {s : Text} (hs : isValidStellarPublicKey s = true)
    (ht : isValidStellarPublicKey t = true) :
    decodeStellarPublicKey s = decodeStellarPublicKey t ↔ s.take 56 = t.take 56 := by
  rcases isValidStellarPublicKey_iff.mp hs with ⟨key, hkey⟩
  rcases isValidStellarPublicKey_iff.mp ht with ⟨key', hkey'⟩
  have hid := isAccountId_take hkey
  have hid' := isAccountId_take hkey'
  rw [hkey, hkey']
  constructor
  · rintro ⟨⟩
    exact (existsUnique_isAccountId hid.1).unique hid hid'
  · intro htake
    rw [← htake] at hid'
    have hread := decodeStellarPublicKey_eq_ok.mpr ⟨_, hid, Or.inl rfl⟩
    rw [decodeStellarPublicKey_eq_ok.mpr ⟨_, hid', Or.inl rfl⟩] at hread
    exact hread.symm

/-- Stellar accounts are kept as they are. -/
theorem normalizeWallet_stellar {addr : Text} (h : isValidStellarPublicKey (trim addr) = true) :
    normalizeWallet addr = .ok (trim addr) := by
  have hevm : isEvmWalletAddress (trim addr) = false := by
    rcases isValidStellarPublicKey_iff.mp h with ⟨key, hkey⟩
    have hspelled := (decodeBase32_eq_ok.mp (decodeStellarPublicKey_frame.mp hkey).2).1
    unfold isEvmWalletAddress
    split
    · rename_i digits htext
      exact absurd (hspelled '0' (by rw [htext]; exact List.mem_cons_self)) (by decide)
    · rfl
  simp [normalizeWallet, hevm, h]

theorem lower_hexDigit {c : Char} (h : isHexDigit c = true) :
    isHexDigit c.toLower = true ∧ isJsSpace c.toLower = false ∧ c.toLower.toLower = c.toLower := by
  have hascii : c.toNat < 128 := by
    unfold isHexDigit at h
    simp only [Bool.or_eq_true, Bool.and_eq_true, decide_eq_true_eq, Char.le_def,
      UInt32.le_iff_toNat_le] at h
    change c.val.toNat < 128
    rcases h with (⟨-, h⟩ | ⟨-, h⟩) | ⟨-, h⟩ <;> exact Nat.lt_of_le_of_lt h (by decide)
  have hall : ∀ n < 128, isHexDigit (Char.ofNat n) = true →
      isHexDigit (Char.ofNat n).toLower = true ∧ isJsSpace (Char.ofNat n).toLower = false ∧
        (Char.ofNat n).toLower.toLower = (Char.ofNat n).toLower := by
    decide
  have hdigit := hall c.toNat hascii
  rw [Char.ofNat_toNat] at hdigit
  exact hdigit h

theorem trim_eq_self {s : Text} (h : ∀ c ∈ s, isJsSpace c = false) : trim s = s := by
  have hkeep : ∀ t : Text, (∀ c ∈ t, isJsSpace c = false) → t.dropWhile isJsSpace = t := by
    intro t ht
    cases t with
    | nil => rfl
    | cons c t => rw [List.dropWhile_cons_of_neg (by simp [ht c])]
  rw [trim, hkeep s h, hkeep s.reverse (fun c hc => h c (List.mem_reverse.mp hc)),
    List.reverse_reverse]

/-- A wallet is its own normal form. -/
theorem normalizeWallet_idem {addr wallet : Text} (h : normalizeWallet addr = .ok wallet) :
    normalizeWallet wallet = .ok wallet := by
  unfold normalizeWallet at h
  dsimp only at h
  split at h
  · rename_i hevm
    cases h
    unfold isEvmWalletAddress at hevm
    split at hevm
    · rename_i digits htext
      simp only [Bool.and_eq_true, beq_iff_eq, List.all_eq_true] at hevm
      rw [htext]
      have hspace : ∀ c ∈ ('0' :: 'x' :: digits).map Char.toLower, isJsSpace c = false := by
        intro c hc
        rcases List.mem_map.mp hc with ⟨d, hd, rfl⟩
        rcases List.mem_cons.mp hd with rfl | hd
        · decide
        rcases List.mem_cons.mp hd with rfl | hd
        · decide
        exact (lower_hexDigit (hevm.2 d hd)).2.1
      have hlower : (('0' :: 'x' :: digits).map Char.toLower).map Char.toLower =
          ('0' :: 'x' :: digits).map Char.toLower := by
        rw [List.map_map]
        refine List.map_congr_left fun d hd => ?_
        rcases List.mem_cons.mp hd with rfl | hd
        · decide
        rcases List.mem_cons.mp hd with rfl | hd
        · decide
        exact (lower_hexDigit (hevm.2 d hd)).2.2
      have hevm' : isEvmWalletAddress (('0' :: 'x' :: digits).map Char.toLower) = true := by
        change (digits.map Char.toLower).length == 40 && (digits.map Char.toLower).all isHexDigit
        simp only [List.length_map, hevm.1, List.all_map, Bool.and_eq_true,
          beq_self_eq_true, List.all_eq_true, true_and]
        exact fun d hd => (lower_hexDigit (hevm.2 d hd)).1
      rw [normalizeWallet, trim_eq_self hspace, if_pos hevm', hlower]
    · cases hevm
  · split at h
    · rename_i hvalid
      cases h
      rw [normalizeWallet_stellar (by rwa [trim_trim]), trim_trim]
    · cases h

theorem isValidStellarPublicKey_canonical_iff {s : Text} :
    (isValidStellarPublicKey s = true ↔ ∃ key, IsAccountId key s) ↔ ¬Overlong s := by
  rw [isValidStellarPublicKey_iff]
  simp only [decodeStellarPublicKey_eq_ok]
  constructor
  · rintro h ⟨key, id, char, hid, hmem, rfl⟩
    rcases h.mp ⟨key, id, hid, Or.inr ⟨char, hmem, rfl⟩⟩ with ⟨key', hlong⟩
    have hlength := hlong.length
    rw [List.length_append, hid.length] at hlength
    cases hlength
  · intro hshort
    constructor
    · rintro ⟨key, id, hid, rfl | ⟨char, hmem, rfl⟩⟩
      · exact ⟨key, hid⟩
      · exact absurd ⟨key, id, char, hid, hmem, rfl⟩ hshort
    · rintro ⟨key, hid⟩
      exact ⟨key, s, hid, Or.inl rfl⟩

/-- The decoder undoes the encoding. It accepts the identifiers and nothing else, and a key
has one wallet, as far as no character stands behind an identifier. -/
theorem accountId_canonical_iff (s t a b : Text) :
    (∀ key : Bytes, key.length = 32 → ∃! id, IsAccountId key id) ∧
      (∀ key id, IsAccountId key id → decodeStellarPublicKey id = .ok key) ∧
      ((isValidStellarPublicKey s = true ↔ ∃ key, IsAccountId key s) ↔ ¬Overlong s) ∧
      (isValidStellarPublicKey s = true → isValidStellarPublicKey t = true →
        ((decodeStellarPublicKey s = decodeStellarPublicKey t → s = t) ↔
          (s.take 56 = t.take 56 → s = t))) ∧
      (isValidStellarPublicKey (trim a) = true → isValidStellarPublicKey (trim b) = true →
        ((decodeStellarPublicKey (trim a) = decodeStellarPublicKey (trim b) → normalizeWallet a =
          normalizeWallet b) ↔
          ((trim a).take 56 = (trim b).take 56 → trim a = trim b))) := by
  refine ⟨fun key => existsUnique_isAccountId,
    fun key id hid => decodeStellarPublicKey_eq_ok.mpr ⟨id, hid, Or.inl rfl⟩,
    isValidStellarPublicKey_canonical_iff, fun hs ht => ?_, fun ha hb => ?_⟩
  · rw [decodeStellarPublicKey_eq_iff hs ht]
  · rw [decodeStellarPublicKey_eq_iff ha hb, normalizeWallet_stellar ha,
      normalizeWallet_stellar hb, Except.ok.injEq]

/-- The identifier of the key whose bytes are all zero. -/
def zeroAccount : Text := "GAAAAAAAAAAAAAAAAAAAAAAAAAAAAAAAAAAAAAAAAAAAAAAAAAAAAWHF".toList

/-- With a character behind it the identifier is accepted all the same, and makes a second
wallet of the key. -/
theorem zeroAccount_overlong :
    IsAccountId (List.replicate 32 0) zeroAccount ∧
      isValidStellarPublicKey (zeroAccount ++ ['A']) = true ∧
        (¬∃ key, IsAccountId key (zeroAccount ++ ['A'])) ∧
      decodeStellarPublicKey (zeroAccount ++ ['A']) = decodeStellarPublicKey zeroAccount ∧
      normalizeWallet (zeroAccount ++ ['A']) ≠ normalizeWallet zeroAccount := by
  have hkey : decodeStellarPublicKey zeroAccount = .ok (List.replicate 32 0) := by decide +kernel
  have hlong : decodeStellarPublicKey (zeroAccount ++ ['A']) = .ok (List.replicate 32 0) := by
    decide +kernel
  refine ⟨isAccountId_take hkey, isValidStellarPublicKey_iff.mpr ⟨_, hlong⟩, ?_,
    by rw [hlong, hkey], by decide +kernel⟩
  rintro ⟨key, hid⟩
  exact absurd hid.length (by decide)

end Lendoor.Backend
