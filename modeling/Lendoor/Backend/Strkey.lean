import Lendoor.Cctp.Message

/-! # Stellar account identifiers

The backend's own decoder of account identifiers: base32, a version byte, and a
CRC16-XModem checksum behind the key.
-/

namespace Lendoor.Backend

open Cctp (Text Bytes JsError byteAt slice)

/-- `new Error(message)` -/
def thrown (message : String) : JsError := ⟨.error, message⟩

def accountIdVersionByte : Nat := 6 <<< 3

def base32Alphabet : Text := "ABCDEFGHIJKLMNOPQRSTUVWXYZ234567".toList

/-- The accumulators of the decoding loop. `value` is a machine word of 32 bits. -/
structure Base32 where
  bits : Nat
  value : Nat
  bytes : Bytes

/-- One character of the loop: five more bits, and a byte once eight are there. -/
def Base32.push (s : Base32) (char : Char) : Except JsError Base32 :=
  match base32Alphabet.idxOf? char with
  | none => .error (thrown "Invalid base32 character")
  | some idx =>
      let value := (s.value <<< 5 ||| idx) % 2 ^ 32
      let bits := s.bits + 5
      if 8 ≤ bits then
        .ok ⟨bits - 8, value, s.bytes ++ [UInt8.ofNat (value >>> (bits - 8) &&& 0xff)]⟩
      else .ok ⟨bits, value, s.bytes⟩

def decodeBase32 (input : Text) : Except JsError Bytes := do
  let s ← input.foldlM Base32.push ⟨0, 0, []⟩
  pure s.bytes

/-- One bit of the checksum register. -/
def crcBit (crc : Nat) : Nat :=
  if crc &&& 0x8000 ≠ 0 then (crc <<< 1 ^^^ 0x1021) &&& 0xffff else crc <<< 1 &&& 0xffff

def crcByte (crc : Nat) (byte : UInt8) : Nat :=
  (List.range 8).foldl (fun crc _ => crcBit crc) (crc ^^^ byte.toNat <<< 8)

def crc16Xmodem (bytes : Bytes) : Nat := bytes.foldl crcByte 0

def decodeStellarPublicKey (accountId : Text) : Except JsError Bytes := do
  let decoded ← decodeBase32 accountId
  panicIf (decoded.length ≠ 35) (thrown "Invalid Stellar account length")
  panicIf (byteAt decoded 0 ≠ accountIdVersionByte)
    (thrown "Invalid Stellar account version byte")
  let payload := slice decoded 0 33
  let expected := crc16Xmodem payload
  let actual := byteAt decoded 33 ||| byteAt decoded 34 <<< 8
  panicIf (actual ≠ expected) (thrown "Invalid Stellar account checksum")
  pure (slice decoded 1 33)

def isValidStellarPublicKey (accountId : Text) : Bool := (decodeStellarPublicKey accountId).isOk

/-- `assertStellarAccount` -/
def assertStellarAccount (address : Text) : Except JsError Unit :=
  panicIf (isValidStellarPublicKey address = false)
    (thrown ("Invalid Stellar account: " ++ String.ofList address))

theorem assertStellarAccount_ok {address : Text} (h : isValidStellarPublicKey address = true) :
    assertStellarAccount address = .ok () :=
  panicIf_eq_ok.mpr (by simp [h])

end Lendoor.Backend
