import Mathlib.Data.List.Basic

/-! # UTF-8 text

The decoder of the encoding standard: bytes one at a time, replacement characters for
what is ill-formed, and one byte order mark dropped at the start. Text that decodes to
ASCII has no other spelling than its own bytes, but for the mark.
-/

namespace Lendoor.Utf8

/-- The bytes of a text. -/
def encode (text : List Char) : List UInt8 := text.flatMap String.utf8EncodeChar

def replacement : Char := Char.ofNat 0xFFFD

def byteOrderMark : List UInt8 := [0xEF, 0xBB, 0xBF]

/-- Between the bytes of a character: how many are missing, what is there, and the range
of the next one. -/
structure Pending where
  needed : Nat
  codePoint : Nat
  lower : Nat
  upper : Nat

/-- The first byte of a character: what it decodes to at once, and what it begins. -/
def lead (b : UInt8) : List Char × Option Pending :=
  let n := b.toNat
  if n < 0x80 then ([Char.ofNat n], none)
  else if 0xC2 ≤ n ∧ n ≤ 0xDF then ([], some ⟨1, n - 0xC0, 0x80, 0xBF⟩)
  else if 0xE0 ≤ n ∧ n ≤ 0xEF then
    ([], some ⟨2, n - 0xE0, if n = 0xE0 then 0xA0 else 0x80, if n = 0xED then 0x9F else 0xBF⟩)
  else if 0xF0 ≤ n ∧ n ≤ 0xF4 then
    ([], some ⟨3, n - 0xF0, if n = 0xF0 then 0x90 else 0x80, if n = 0xF4 then 0x8F else 0xBF⟩)
  else ([replacement], none)

/-- A byte out of range ends the character it came in, and is decoded on its own. -/
def decodeFrom : Option Pending → List UInt8 → List Char
  | none, [] => []
  | some _, [] => [replacement]
  | none, b :: rest => (lead b).1 ++ decodeFrom (lead b).2 rest
  | some p, b :: rest =>
      if p.lower ≤ b.toNat ∧ b.toNat ≤ p.upper then
        let codePoint := 64 * p.codePoint + (b.toNat - 0x80)
        if p.needed = 1 then Char.ofNat codePoint :: decodeFrom none rest
        else decodeFrom (some ⟨p.needed - 1, codePoint, 0x80, 0xBF⟩) rest
      else replacement :: ((lead b).1 ++ decodeFrom (lead b).2 rest)

/-- `TextDecoder().decode(bytes)` -/
def decode (bytes : List UInt8) : List Char :=
  if byteOrderMark <+: bytes then decodeFrom none (bytes.drop 3) else decodeFrom none bytes

def IsAscii (text : List Char) : Prop := ∀ c ∈ text, c.toNat < 128

/-! ## Characters of several bytes -/

/-- However the character goes on, it is neither ASCII nor a surrogate. -/
structure Pending.Wide (p : Pending) : Prop where
  lower : 0x80 ≤ p.lower
  upper : p.upper ≤ 0xBF
  needed : p.needed = 1 ∨ p.needed = 2 ∨ p.needed = 3
  one : p.needed = 1 → 2 ≤ p.codePoint ∧ (p.codePoint < 0x360 ∨ 0x380 ≤ p.codePoint) ∧
    p.codePoint < 0x4400
  two : p.needed = 2 → (p.codePoint = 0 → 0xA0 ≤ p.lower) ∧ (p.codePoint = 0xD → p.upper ≤ 0x9F) ∧
    p.codePoint < 0x110
  three : p.needed = 3 → (p.codePoint = 0 → 0x90 ≤ p.lower) ∧ (p.codePoint = 4 → p.upper ≤ 0x8F) ∧
    p.codePoint ≤ 4

theorem Pending.Wide.next {p : Pending} (h : p.Wide) {b : UInt8} (hlower : p.lower ≤ b.toNat)
    (hupper : b.toNat ≤ p.upper) (hmore : p.needed ≠ 1) :
    Pending.Wide ⟨p.needed - 1, 64 * p.codePoint + (b.toNat - 0x80), 0x80, 0xBF⟩ := by
  have hl := h.lower
  have hu := h.upper
  have htwo := h.two
  have hthree := h.three
  rcases h.needed with hneeded | hneeded | hneeded
  · exact absurd hneeded hmore
  · refine ⟨Nat.le_refl _, Nat.le_refl _, ?_, fun _ => ?_, fun _ => ?_, fun _ => ?_⟩ <;>
      simp only at * <;> omega
  · refine ⟨Nat.le_refl _, Nat.le_refl _, ?_, fun _ => ?_, fun _ => ?_, fun _ => ?_⟩ <;>
      simp only at * <;> omega

theorem toNat_ofNat {n : Nat} (h : n.isValidChar) : (Char.ofNat n).toNat = n := by
  rw [Char.ofNat, dif_pos h]
  rfl

/-- A first byte is ASCII, or replaced, or begins a character. -/
theorem lead_cases (b : UInt8) :
    ((Char.ofNat b.toNat).toNat = b.toNat ∧ lead b = ([Char.ofNat b.toNat], none)) ∨
      lead b = ([replacement], none) ∨ ∃ p, lead b = ([], some p) ∧ p.Wide := by
  unfold lead
  simp only
  split
  · rename_i hn
    exact .inl ⟨toNat_ofNat (.inl (by omega)), rfl⟩
  · split
    · refine .inr
        (.inr ⟨_, rfl, Nat.le_refl _, Nat.le_refl _, .inl rfl, fun _ => ?_, by simp, by simp⟩)
      simp only
      omega
    · split
      · refine .inr (.inr ⟨_, rfl, ?_, ?_, .inr (.inl rfl), by simp, fun _ => ?_, by simp⟩) <;>
          simp only <;> grind
      · split
        · refine .inr (.inr ⟨_, rfl, ?_, ?_, .inr (.inr rfl), by simp, by simp, fun _ => ?_⟩) <;>
            simp only <;> grind
        · exact .inr (.inl rfl)

theorem replacement_wide : 128 ≤ replacement.toNat := by decide

/-- A character that was begun leaves a character behind that is not ASCII. -/
theorem Pending.Wide.decodes {p : Pending} (h : p.Wide) (bytes : List UInt8) :
    ∃ c ∈ decodeFrom (some p) bytes, 128 ≤ c.toNat := by
  induction bytes generalizing p with
  | nil => exact ⟨replacement, by simp [decodeFrom], replacement_wide⟩
  | cons b rest ih =>
      by_cases hrange : p.lower ≤ b.toNat ∧ b.toNat ≤ p.upper
      · by_cases hone : p.needed = 1
        · refine ⟨Char.ofNat (64 * p.codePoint + (b.toNat - 0x80)),
            by simp [decodeFrom, hrange, hone], ?_⟩
          have hl := h.lower
          have hu := h.upper
          rcases h.one hone with ⟨hwide, hsurrogate, hmax⟩
          have hvalid : (64 * p.codePoint + (b.toNat - 0x80)).isValidChar := by
            unfold Nat.isValidChar
            omega
          rw [toNat_ofNat hvalid]
          omega
        · rcases ih (h.next hrange.1 hrange.2 hone) with ⟨c, hmem, hc⟩
          exact ⟨c, by simpa [decodeFrom, hrange, hone] using hmem, hc⟩
      · exact ⟨replacement, by simp [decodeFrom, hrange], replacement_wide⟩

/-! ## ASCII -/

theorem encodeChar_ascii {c : Char} (h : c.toNat < 128) :
    String.utf8EncodeChar c = [UInt8.ofNat c.toNat] := by
  have hval : c.val.toNat ≤ 0x7F := Nat.le_of_lt_succ h
  simp only [String.utf8EncodeChar, if_pos hval]
  rfl

theorem encode_cons_ascii {c : Char} {text : List Char} (h : c.toNat < 128) :
    encode (c :: text) = UInt8.ofNat c.toNat :: encode text := by
  rw [encode, List.flatMap_cons, encodeChar_ascii h]
  rfl

theorem lead_ascii {c : Char} (h : c.toNat < 128) : lead (UInt8.ofNat c.toNat) = ([c], none) := by
  have hbyte : (UInt8.ofNat c.toNat).toNat = c.toNat := by
    rw [UInt8.toNat_ofNat']
    omega
  simp only [lead, hbyte, if_pos h, Char.ofNat_toNat]

/-- ASCII text is read back from its bytes. -/
theorem decodeFrom_encode {text : List Char} (h : IsAscii text) :
    decodeFrom none (encode text) = text := by
  induction text with
  | nil => rfl
  | cons c text ih =>
      rcases List.forall_mem_cons.mp h with ⟨hc, hrest⟩
      rw [encode_cons_ascii hc, decodeFrom, lead_ascii hc]
      exact congrArg (c :: ·) (ih hrest)

/-- Bytes that decode to ASCII are the bytes of that text. -/
theorem encode_decodeFrom {bytes : List UInt8} (h : IsAscii (decodeFrom none bytes)) :
    encode (decodeFrom none bytes) = bytes := by
  induction bytes with
  | nil => rfl
  | cons b rest ih =>
      rcases lead_cases b with ⟨hb, hlead⟩ | hlead | ⟨p, hlead, hwide⟩
      · rw [decodeFrom, hlead] at h ⊢
        rcases List.forall_mem_cons.mp h with ⟨hc, hrest⟩
        rw [List.singleton_append, encode_cons_ascii hc, ih hrest, hb, UInt8.ofNat_toNat]
      · have hascii := h replacement (by simp [decodeFrom, hlead])
        exact absurd hascii (by decide)
      · rcases hwide.decodes rest with ⟨c, hmem, hc⟩
        have hascii := h c (by simpa [decodeFrom, hlead] using hmem)
        omega

theorem IsAscii.lt {text : List Char} (h : IsAscii text) : ∀ b ∈ encode text, b.toNat < 128 := by
  induction text with
  | nil => simp [encode]
  | cons c text ih =>
      rcases List.forall_mem_cons.mp h with ⟨hc, hrest⟩
      rw [encode_cons_ascii hc]
      refine List.forall_mem_cons.mpr ⟨?_, ih hrest⟩
      rw [UInt8.toNat_ofNat']
      omega

theorem encode_length {text : List Char} (h : IsAscii text) :
    (encode text).length = text.length := by
  induction text with
  | nil => rfl
  | cons c text ih =>
      rcases List.forall_mem_cons.mp h with ⟨hc, hrest⟩
      rw [encode_cons_ascii hc, List.length_cons, List.length_cons, ih hrest]

/-- The bytes of ASCII text do not begin with the mark. -/
theorem decode_encode {text : List Char} (h : IsAscii text) : decode (encode text) = text := by
  have hmark : ¬ byteOrderMark <+: encode text := by
    intro hmark
    have hbyte := h.lt 0xEF (hmark.subset (show (0xEF : UInt8) ∈ byteOrderMark by decide))
    exact absurd hbyte (by decide)
  rw [decode, if_neg hmark, decodeFrom_encode h]

/-- What decodes to ASCII without a mark is spelled by its own bytes. -/
theorem encode_decode {bytes : List UInt8} (h : IsAscii (decode bytes))
    (hmark : ¬ byteOrderMark <+: bytes) : encode (decode bytes) = bytes := by
  rw [decode, if_neg hmark] at h ⊢
  exact encode_decodeFrom h

/-- With a mark it is not. -/
theorem encode_decode_ne {bytes : List UInt8} (h : IsAscii (decode bytes))
    (hmark : byteOrderMark <+: bytes) : encode (decode bytes) ≠ bytes := by
  intro heq
  have hmem : (0xEF : UInt8) ∈ bytes := hmark.subset (show (0xEF : UInt8) ∈ byteOrderMark by decide)
  rw [← heq] at hmem
  exact absurd (h.lt 0xEF hmem) (by decide)

end Lendoor.Utf8
