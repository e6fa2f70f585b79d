import Lendoor.Cctp.Codec
import Lendoor.Core.Utf8

/-! # Spellings of the hook data

The hook data that names the recipient of a mint, written and read. The reader looks at
neither the reserved bytes nor the version, and the text decoder drops a byte order mark,
so besides what the builder writes it accepts other spellings of the same recipient.
-/

namespace Lendoor.Cctp

open BigEndian (toBytes ofBytes)

def hookVersion : Nat := 0

/-- What `setUint32` and `set` leave in the zeroed array. -/
def buildForwarderHookData (sdk : Sdk) (forwardRecipient : Text) (payload : Bytes) :
    Except JsError Bytes := do
  assertStellarAddress sdk forwardRecipient
  let recipientBytes := Utf8.encode forwardRecipient
  pure (List.replicate hookMagicBytes 0 ++ (toBytes 4 hookVersion ++
    (toBytes 4 recipientBytes.length ++ (recipientBytes ++ payload))))

/-- The strkey validators accept ASCII texts only, and the text decoder is the standard
one. -/
structure Sdk.Standard (sdk : Sdk) : Prop where
  ascii : ∀ addr, assertStellarAddress sdk addr = .ok () → Utf8.IsAscii addr
  decodeText : ∀ bytes, sdk.decodeText bytes = Utf8.decode bytes

/-- The bytes that the length prefix marks off as the recipient. -/
def recipientBytes (hookData : Bytes) : Bytes :=
  slice hookData hookHeaderBytes (hookHeaderBytes + u32 hookData (hookMagicBytes + 4))

/-- Reserved bytes of zero, the version, and no byte order mark before the recipient. -/
structure Canonical (hookData : Bytes) : Prop where
  reserved : hookData.take hookMagicBytes = List.replicate hookMagicBytes 0
  version : u32 hookData hookMagicBytes = hookVersion
  unmarked : ¬ Utf8.byteOrderMark <+: recipientBytes hookData

variable {sdk : Sdk} {hookData : Bytes} {hook : ForwarderHookData}

/-- What the parser accepts, and what it makes of it. -/
theorem parseForwarderHookData_ok :
    parseForwarderHookData sdk hookData = .ok hook ↔
      hookHeaderBytes + u32 hookData (hookMagicBytes + 4) ≤ hookData.length ∧
        hookHeaderBytes ≤ hookData.length ∧
        assertStellarAddress sdk (sdk.decodeText (recipientBytes hookData)) = .ok () ∧
        hook = ⟨u32 hookData hookMagicBytes, sdk.decodeText (recipientBytes hookData),
          hookData.drop (hookHeaderBytes + u32 hookData (hookMagicBytes + 4))⟩ := by
  simp only [parseForwarderHookData, bind_eq_ok, panicIf_eq_ok, pure_eq_ok]
  constructor
  · rintro ⟨_, hlength, _, hfits, _, haddress, rfl⟩
    exact ⟨by omega, by omega, haddress, rfl⟩
  · rintro ⟨hfits, hlength, haddress, rfl⟩
    exact ⟨(), by omega, (), by omega, (), haddress, rfl⟩

theorem buildForwarderHookData_ok {forwardRecipient : Text} {payload bytes : Bytes} :
    buildForwarderHookData sdk forwardRecipient payload = .ok bytes ↔
      assertStellarAddress sdk forwardRecipient = .ok () ∧
        bytes = List.replicate hookMagicBytes 0 ++ (toBytes 4 hookVersion ++
          (toBytes 4 (Utf8.encode forwardRecipient).length ++
            (Utf8.encode forwardRecipient ++ payload))) := by
  simp only [buildForwarderHookData, bind_eq_ok, pure_eq_ok]
  constructor
  · rintro ⟨_, haddress, rfl⟩
    exact ⟨haddress, rfl⟩
  · rintro ⟨haddress, rfl⟩
    exact ⟨(), haddress, rfl⟩

/-- Hook data as its fields, one after the other. -/
theorem hookData_split (hfits : hookHeaderBytes + u32 hookData (hookMagicBytes + 4) ≤
    hookData.length) :
    hookData = hookData.take hookMagicBytes ++ (toBytes 4 (u32 hookData hookMagicBytes) ++
      (toBytes 4 (u32 hookData (hookMagicBytes + 4)) ++ (recipientBytes hookData ++
        hookData.drop (hookHeaderBytes + u32 hookData (hookMagicBytes + 4))))) := by
  have hlong : hookHeaderBytes ≤ hookData.length := by omega
  unfold hookHeaderBytes at hlong
  have hheader : hookData.take hookMagicBytes ++ (toBytes 4 (u32 hookData hookMagicBytes) ++
      toBytes 4 (u32 hookData (hookMagicBytes + 4))) = hookData.take hookHeaderBytes := by
    unfold hookMagicBytes hookHeaderBytes
    rw [toBytes_u32 (by omega), toBytes_u32 (by omega), slice_append (by omega) (by omega)]
    exact slice_append (Nat.zero_le 24) (show 24 ≤ 32 by decide)
  have htail : recipientBytes hookData ++
      hookData.drop (hookHeaderBytes + u32 hookData (hookMagicBytes + 4)) =
        hookData.drop hookHeaderBytes := by
    rw [recipientBytes, slice, List.drop_take, Nat.add_sub_cancel_left, ← List.drop_drop]
    exact List.take_append_drop _ _
  rw [htail]
  simp only [← List.append_assoc] at hheader ⊢
  rw [hheader, List.take_append_drop]

theorem recipientBytes_length
    (hfits : hookHeaderBytes + u32 hookData (hookMagicBytes + 4) ≤ hookData.length) :
    (recipientBytes hookData).length = u32 hookData (hookMagicBytes + 4) := by
  rw [recipientBytes, slice_length hfits, Nat.add_sub_cancel_left]

/-- What is written at an offset is read there. -/
theorem u32_append (before : Bytes) {rest : Bytes} {n : Nat} (h : n < 2 ^ 32) :
    u32 (before ++ (toBytes 4 n ++ rest)) before.length = n := by
  have hfits : before.length + 4 ≤ (before ++ (toBytes 4 n ++ rest)).length := by simp
  have hslice : slice (before ++ (toBytes 4 n ++ rest)) before.length (before.length + 4) =
      toBytes 4 n := by
    rw [slice, List.drop_take, List.drop_left, Nat.add_sub_cancel_left]
    exact List.take_left' (BigEndian.toBytes_length 4 n)
  rw [u32_eq hfits, hslice, BigEndian.ofBytes_toBytes, Nat.mod_eq_of_lt (by omega)]

/-- What the builder writes is read back. -/
theorem parseForwarderHookData_build (hsdk : sdk.Standard)
    {forwardRecipient : Text} {payload : Bytes}
    (haddress : assertStellarAddress sdk forwardRecipient = .ok ())
    (hlength : forwardRecipient.length < 2 ^ 32) :
    (do parseForwarderHookData sdk (← buildForwarderHookData sdk forwardRecipient payload)) =
      .ok ⟨hookVersion, forwardRecipient, payload⟩ := by
  have hascii := hsdk.ascii forwardRecipient haddress
  rw [← Utf8.encode_length hascii] at hlength
  refine bind_eq_ok.mpr ⟨_, buildForwarderHookData_ok.mpr ⟨haddress, rfl⟩, ?_⟩
  generalize hbuilt : List.replicate hookMagicBytes 0 ++ (toBytes 4 hookVersion ++
    (toBytes 4 (Utf8.encode forwardRecipient).length ++
      (Utf8.encode forwardRecipient ++ payload))) = built
  have hversion : u32 built hookMagicBytes = hookVersion := by
    rw [← hbuilt]
    exact u32_append (List.replicate hookMagicBytes 0) (by decide)
  have hprefixed : u32 built (hookMagicBytes + 4) = (Utf8.encode forwardRecipient).length := by
    rw [← hbuilt, ← List.append_assoc]
    exact u32_append (List.replicate hookMagicBytes 0 ++ toBytes 4 hookVersion) hlength
  have hafter : built.drop hookHeaderBytes = Utf8.encode forwardRecipient ++ payload := by
    rw [← hbuilt, ← List.append_assoc, ← List.append_assoc]
    exact List.drop_left' (by simp [hookMagicBytes, hookHeaderBytes])
  have hlong : built.length = hookHeaderBytes +
      ((Utf8.encode forwardRecipient).length + payload.length) := by
    rw [← hbuilt]
    simp only [List.length_append, List.length_replicate, BigEndian.toBytes_length]
    unfold hookHeaderBytes hookMagicBytes
    omega
  have hrecipient : recipientBytes built = Utf8.encode forwardRecipient := by
    rw [recipientBytes, slice, List.drop_take, hafter, hprefixed,
      Nat.add_sub_cancel_left, List.take_left]
  have hdecoded : sdk.decodeText (recipientBytes built) = forwardRecipient := by
    rw [hsdk.decodeText, hrecipient, Utf8.decode_encode hascii]
  refine parseForwarderHookData_ok.mpr ⟨by omega, by omega, by rw [hdecoded]; exact haddress, ?_⟩
  rw [hdecoded, hversion, hprefixed, ← List.drop_drop, hafter, List.drop_left]

/-- Of the spellings that the parser accepts, the canonical one is what the builder
writes. -/
theorem buildForwarderHookData_parse (hsdk : sdk.Standard)
    (h : parseForwarderHookData sdk hookData = .ok hook) :
    buildForwarderHookData sdk hook.forwardRecipient hook.payload = .ok hookData ↔
      Canonical hookData := by
  rcases parseForwarderHookData_ok.mp h with ⟨hfits, hlong, haddress, rfl⟩
  have hascii := hsdk.ascii _ haddress
  rw [hsdk.decodeText] at hascii
  have hlength := recipientBytes_length hfits
  rw [buildForwarderHookData_ok, and_iff_right haddress]
  simp only [hsdk.decodeText]
  constructor
  · intro hbuilt
    have hsplit := (hookData_split hfits).symm.trans hbuilt
    rcases List.append_inj hsplit (by simp [hookMagicBytes, hookHeaderBytes] at hlong ⊢; omega)
      with ⟨hreserved, hrest⟩
    rcases List.append_inj hrest (by simp) with ⟨hversion, hrest⟩
    have hencoded := List.append_cancel_right (List.append_inj hrest (by simp)).2
    refine ⟨hreserved, toBytes_inj (u32_lt _ _) (by decide) hversion, fun hmark => ?_⟩
    exact Utf8.encode_decode_ne hascii hmark hencoded.symm
  · rintro ⟨hreserved, hversion, hunmarked⟩
    have hencoded := Utf8.encode_decode hascii hunmarked
    rw [hencoded, hlength]
    have hsplit := hookData_split hfits
    rwa [hreserved, hversion] at hsplit

/-- The parser reads back what the builder writes; what else it accepts is what the
builder writes exactly when the reserved bytes are zero, the version is the known one and
no byte order mark stands before the recipient. -/
theorem parseForwarderHookData_spellings (hsdk : sdk.Standard) :
    (∀ forwardRecipient payload, assertStellarAddress sdk forwardRecipient = .ok () →
      forwardRecipient.length < 2 ^ 32 →
        (do parseForwarderHookData sdk (← buildForwarderHookData sdk forwardRecipient payload)) =
          .ok ⟨hookVersion, forwardRecipient, payload⟩) ∧
    ∀ hookData hook, parseForwarderHookData sdk hookData = .ok hook →
      (buildForwarderHookData sdk hook.forwardRecipient hook.payload = .ok hookData ↔
        Canonical hookData) :=
  ⟨fun _ _ haddress hlength => parseForwarderHookData_build hsdk haddress hlength,
    fun _ _ h => buildForwarderHookData_parse hsdk h⟩

/-! ## A recipient in two spellings -/

def hookRecipient : Text := "GDCZFUNJ7MXWBIQ6UUTJRGZIJF5EMRVJCSK73MA2U7K57GWMA4N3P6SL".toList

/-- The validators on one address. -/
def hookSdk : Sdk where
  isValidEd25519PublicKey a := a = hookRecipient
  isValidContract _ := false
  isValidMed25519PublicKey _ := false
  decodeContract _ := []
  addressFault a := if a = hookRecipient then none else some "Unsupported address type"
  i128Fault _ := "value out of range for i128"
  decodeText := Utf8.decode

theorem hookSdk_standard : hookSdk.Standard where
  ascii addr h := by
    have hvalid := panicIf_eq_ok.mp h
    have haddr : addr = hookRecipient := by simpa [hookSdk] using hvalid
    have hascii : hookRecipient.all (fun c => c.toNat < 128) = true := by decide
    rw [haddr]
    exact fun c hc => by simpa using List.all_eq_true.mp hascii c hc
  decodeText _ := rfl

theorem parseForwarderHookData_spellings_sample :
    (do parseForwarderHookData hookSdk (← buildForwarderHookData hookSdk hookRecipient [1, 2, 3])) =
      .ok ⟨0, hookRecipient, [1, 2, 3]⟩ :=
  (parseForwarderHookData_spellings hookSdk_standard).1 hookRecipient [1, 2, 3] rfl (by decide)

/-- The version is read and not checked. -/
def futureHookData : Bytes :=
  List.replicate 24 0 ++ (toBytes 4 1 ++ (toBytes 4 56 ++ Utf8.encode hookRecipient))

theorem parseForwarderHookData_future :
    ¬ ∀ (sdk : Sdk), sdk.Standard →
      ∀ hookData hook, parseForwarderHookData sdk hookData = .ok hook →
      buildForwarderHookData sdk hook.forwardRecipient hook.payload = .ok hookData := by
  intro hbuilt
  have hparsed : parseForwarderHookData hookSdk futureHookData = .ok ⟨1, hookRecipient, []⟩ := by
    decide +kernel
  have hsame := hbuilt hookSdk hookSdk_standard futureHookData _ hparsed
  exact absurd hsame (by decide +kernel)

end Lendoor.Cctp
