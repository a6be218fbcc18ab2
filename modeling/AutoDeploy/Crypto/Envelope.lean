import AutoDeploy.Lib.Aead
import AutoDeploy.Lib.Prefixed
import AutoDeploy.Lib.Result
import AutoDeploy.Lib.Table
import AutoDeploy.Lib.Utf8

namespace AutoDeploy.Crypto

open Lib Lib.Result

def suiteAES256GCMRandomNonceV1 : Bytes := Bytes.ofString "AES-256-GCM-RANDOMNONCE-v1"

def aadFormatV1 : Bytes := Bytes.ofString "v1"

def maxPlaintextBytes : Nat := 64 * 1024

-- The nonce before and the tag after what AES-GCM seals.
def sealOverhead : Nat := 28

def keyBytes : Nat := 32

inductive CryptoError where
  | invalidInput
  | invalidEnvelope
  | unknownKey
  | cryptographicFail
deriving DecidableEq, Repr

-- The identifiers an envelope is bound to. The texts of this package are byte strings: nothing says before
-- `validScope` that they are UTF-8.
structure Scope where
  ownerID : Bytes
  projectID : Bytes
  environmentID : Bytes
  variableID : Bytes
  secretVersionID : Bytes
  purpose : Bytes
  deliveryScope : Bytes
deriving DecidableEq, Repr

def Scope.fields (s : Scope) : List Bytes :=
  [s.ownerID, s.projectID, s.environmentID, s.variableID, s.secretVersionID, s.purpose, s.deliveryScope]

structure Envelope where
  suite : Bytes
  aadVersion : Bytes
  kekID : Bytes
  ciphertext : Bytes
  wrappedDEK : Bytes
deriving DecidableEq, Repr

structure KeyProvider where
  active : Except CryptoError (Bytes × Bytes)
  resolve : Bytes → Except CryptoError Bytes

def buildText : Bytes := Bytes.ofString "build"

def runtimeText : Bytes := Bytes.ofString "runtime"

def providerText : Bytes := Bytes.ofString "provider"

def validField (field : Bytes) : Bool :=
  decide (field ≠ []) && decide (field.length ≤ 255) && Utf8.validString field &&
    !field.any fun b => b == 0x00 || b == 0x0d || b == 0x0a

def validScope (s : Scope) : Bool :=
  s.fields.all validField &&
    (s.purpose == buildText || s.purpose == runtimeText || s.purpose == providerText) &&
    (s.deliveryScope == buildText || s.deliveryScope == runtimeText)

-- `a` to `z`, `A` to `Z`, `0` to `9`, `_` and `-`. Every other rune has a byte outside of these.
def keyIDByte (b : UInt8) : Bool :=
  (decide (0x61 ≤ b) && decide (b ≤ 0x7a)) || (decide (0x41 ≤ b) && decide (b ≤ 0x5a)) ||
    (decide (0x30 ≤ b) && decide (b ≤ 0x39)) || b == 0x5f || b == 0x2d

def validKeyID (id : Bytes) : Bool :=
  decide (id ≠ []) && decide (id.length ≤ 64) && Utf8.validString id && id.all keyIDByte

def validEnvelope (e : Envelope) : Bool :=
  Utf8.validString e.suite && Utf8.validString e.aadVersion && e.suite == suiteAES256GCMRandomNonceV1 &&
    e.aadVersion == aadFormatV1 && validKeyID e.kekID && decide (sealOverhead ≤ e.ciphertext.length) &&
    decide (e.ciphertext.length ≤ maxPlaintextBytes + sealOverhead) &&
    decide (e.wrappedDEK.length = keyBytes + sealOverhead)

-- The length of a field in four bytes, then the field. `uint32` of the length would wrap around from 2^32 on.
def encodeFields (fields : List Bytes) : Bytes :=
  fields.flatMap fun field => Bytes.bigEndian (field.length % 2 ^ 32) 4 ++ field

def valueLabel : Bytes := Bytes.ofString "autodeploy:secret-value:v1"

def wrapLabel : Bytes := Bytes.ofString "autodeploy:secret-dek-wrap:v1"

def valueAAD (s : Scope) : Bytes :=
  encodeFields ([valueLabel, suiteAES256GCMRandomNonceV1, aadFormatV1] ++ s.fields)

def wrapAAD (kekID : Bytes) (s : Scope) : Bytes :=
  encodeFields ([wrapLabel, suiteAES256GCMRandomNonceV1, aadFormatV1, kekID] ++ s.fields)

-- What chance contributes to one call of `Encrypt`: the data key, and the two texts the cipher makes of its nonces.
structure Draw where
  dek : Bytes
  value : Bytes
  wrapped : Bytes
deriving DecidableEq, Repr

-- `Encrypt` as far as the reservation.
def encryptionKey (provider : KeyProvider) (scope : Scope) (plaintext : Bytes) : Except CryptoError (Bytes × Bytes) := do
  require (plaintext.length ≤ maxPlaintextBytes ∧ validScope scope) .invalidInput
  let (kekID, kek) ← provider.active.mapError fun _ => .cryptographicFail
  require (validKeyID kekID ∧ kek.length = keyBytes) .cryptographicFail
  pure (kekID, kek)

-- Its end: the value is sealed under the data key, and the data key under the encryption key.
def sealEnvelope (cipher : Cipher) (kekID kek : Bytes) (draw : Draw) (scope : Scope) (plaintext : Bytes) :
    Envelope × Cipher :=
  (⟨suiteAES256GCMRandomNonceV1, aadFormatV1, kekID, draw.value, draw.wrapped⟩,
    (cipher.sealed draw.dek plaintext (valueAAD scope) draw.value).sealed kek draw.dek (wrapAAD kekID scope) draw.wrapped)

def encrypt (cipher : Cipher) (provider : KeyProvider) (reserveWrapInvocation : Bytes → Bool) (draw : Option Draw)
    (scope : Scope) (plaintext : Bytes) : Except CryptoError (Envelope × Cipher) := do
  let (kekID, kek) ← encryptionKey provider scope plaintext
  require (reserveWrapInvocation kekID) .cryptographicFail
  let draw ← found draw .cryptographicFail
  pure (sealEnvelope cipher kekID kek draw scope plaintext)

def decrypt (cipher : Cipher) (provider : KeyProvider) (scope : Scope) (envelope : Envelope) :
    Except CryptoError Bytes := do
  require (validScope scope ∧ validEnvelope envelope) .invalidEnvelope
  let kek ← (provider.resolve envelope.kekID).mapError fun _ => .cryptographicFail
  require (kek.length = keyBytes) .cryptographicFail
  let dek ← found (cipher.opened kek envelope.wrappedDEK (wrapAAD envelope.kekID scope)) .cryptographicFail
  require (dek.length = keyBytes) .cryptographicFail
  let plaintext ← found (cipher.opened dek envelope.ciphertext (valueAAD scope)) .cryptographicFail
  require (plaintext.length ≤ maxPlaintextBytes) .cryptographicFail
  pure plaintext

-- `Rewrap` as far as the reservation: the data key, and the key that wraps it next.
def rewrapKeys (cipher : Cipher) (provider : KeyProvider) (scope : Scope) (envelope : Envelope) :
    Except CryptoError (Bytes × Bytes × Bytes) := do
  require (validScope scope ∧ validEnvelope envelope) .invalidInput
  let oldKey ← (provider.resolve envelope.kekID).mapError fun _ => .cryptographicFail
  require (oldKey.length = keyBytes) .cryptographicFail
  let dek ← found (cipher.opened oldKey envelope.wrappedDEK (wrapAAD envelope.kekID scope)) .cryptographicFail
  require (dek.length = keyBytes) .cryptographicFail
  let (newID, newKey) ← provider.active.mapError fun _ => .cryptographicFail
  require (validKeyID newID ∧ newKey.length = keyBytes ∧ newID ≠ envelope.kekID) .cryptographicFail
  pure (dek, newID, newKey)

def sealRewrapped (cipher : Cipher) (newID newKey dek wrapped : Bytes) (scope : Scope) (envelope : Envelope) :
    Envelope × Cipher :=
  (⟨envelope.suite, envelope.aadVersion, newID, envelope.ciphertext, wrapped⟩,
    cipher.sealed newKey dek (wrapAAD newID scope) wrapped)

def rewrap (cipher : Cipher) (provider : KeyProvider) (reserveWrapInvocation : Bytes → Bool) (wrapped : Bytes)
    (scope : Scope) (envelope : Envelope) : Except CryptoError (Envelope × Cipher) := do
  let (dek, newID, newKey) ← rewrapKeys cipher provider scope envelope
  require (reserveWrapInvocation newID) .cryptographicFail
  pure (sealRewrapped cipher newID newKey dek wrapped scope envelope)

-- An immutable set of keys, one of them active.
structure KeyRing where
  activeID : Bytes
  keys : Table Bytes Bytes

def KeyRing.resolve (ring : KeyRing) (id : Bytes) : Except CryptoError Bytes := do
  let key ← found (ring.keys.get? id) .unknownKey
  require (key.length = keyBytes) .unknownKey
  pure key

def KeyRing.active (ring : KeyRing) : Except CryptoError (Bytes × Bytes) := do
  let key ← ring.resolve ring.activeID
  pure (ring.activeID, key)

def KeyRing.provider (ring : KeyRing) : KeyProvider := ⟨ring.active, ring.resolve⟩

-- The two encodings.
theorem encodeFields_eq {fields : List Bytes} (h : ∀ field ∈ fields, field.length < 256 ^ 4) :
    encodeFields fields = Bytes.prefixed 4 fields := by
  unfold encodeFields Bytes.prefixed
  refine List.flatMap_congr ?_
  intro field hfield
  have hlength : field.length < 2 ^ 32 := h field hfield
  rw [Nat.mod_eq_of_lt hlength]

theorem encodeFields_injective {xs ys : List Bytes} (hxs : ∀ field ∈ xs, field.length < 256 ^ 4)
    (hys : ∀ field ∈ ys, field.length < 256 ^ 4) (h : encodeFields xs = encodeFields ys) : xs = ys := by
  rw [encodeFields_eq hxs, encodeFields_eq hys] at h
  exact Bytes.prefixed_injective (by decide) hxs hys h

theorem validField_length {field : Bytes} (h : validField field = true) : field.length < 256 ^ 4 := by
  simp only [validField, Bool.and_eq_true, decide_eq_true_eq] at h
  have hshort : field.length ≤ 255 := h.1.1.2
  omega

theorem validScope_length {s : Scope} (h : validScope s = true) : ∀ field ∈ s.fields, field.length < 256 ^ 4 := by
  intro field hfield
  simp only [validScope, Bool.and_eq_true, List.all_eq_true] at h
  exact validField_length (h.1.1 field hfield)

theorem validKeyID_length {id : Bytes} (h : validKeyID id = true) : id.length < 256 ^ 4 := by
  simp only [validKeyID, Bool.and_eq_true, decide_eq_true_eq] at h
  have hshort : id.length ≤ 64 := h.1.1.2
  omega

private theorem header_length :
    ∀ field ∈ [valueLabel, wrapLabel, suiteAES256GCMRandomNonceV1, aadFormatV1], field.length < 256 ^ 4 := by
  decide

private theorem wrapFields_length {id : Bytes} {s : Scope} (hid : validKeyID id = true) (hs : validScope s = true) :
    ∀ field ∈ [wrapLabel, suiteAES256GCMRandomNonceV1, aadFormatV1, id] ++ s.fields, field.length < 256 ^ 4 := by
  intro field hfield
  simp only [List.cons_append, List.nil_append, List.mem_cons] at hfield
  obtain rfl | rfl | rfl | rfl | hfield := hfield
  · exact header_length _ (by simp)
  · exact header_length _ (by simp)
  · exact header_length _ (by simp)
  · exact validKeyID_length hid
  · exact validScope_length hs field hfield

private theorem valueFields_length {s : Scope} (hs : validScope s = true) :
    ∀ field ∈ [valueLabel, suiteAES256GCMRandomNonceV1, aadFormatV1] ++ s.fields, field.length < 256 ^ 4 := by
  intro field hfield
  simp only [List.cons_append, List.nil_append, List.mem_cons] at hfield
  obtain rfl | rfl | rfl | hfield := hfield
  · exact header_length _ (by simp)
  · exact header_length _ (by simp)
  · exact header_length _ (by simp)
  · exact validScope_length hs field hfield

theorem Scope.fields_injective {s t : Scope} (h : s.fields = t.fields) : s = t := by
  cases s
  cases t
  simp only [Scope.fields, List.cons.injEq, and_true] at h
  simp only [Scope.mk.injEq]
  exact h

theorem valueAAD_injective {s t : Scope} (hs : validScope s = true) (ht : validScope t = true)
    (h : valueAAD s = valueAAD t) : s = t := by
  have hfields := encodeFields_injective (valueFields_length hs) (valueFields_length ht) h
  exact Scope.fields_injective (List.append_cancel_left hfields)

theorem wrapAAD_injective {a b : Bytes} {s t : Scope} (ha : validKeyID a = true) (hb : validKeyID b = true)
    (hs : validScope s = true) (ht : validScope t = true) (h : wrapAAD a s = wrapAAD b t) : a = b ∧ s = t := by
  have hfields := encodeFields_injective (wrapFields_length ha hs) (wrapFields_length hb ht) h
  simp only [List.cons_append, List.nil_append, List.cons.injEq, true_and] at hfields
  exact ⟨hfields.1, Scope.fields_injective hfields.2⟩

-- The labels keep the two uses of the cipher apart.
theorem valueAAD_ne_wrapAAD {id : Bytes} {s t : Scope} (hid : validKeyID id = true) (hs : validScope s = true)
    (ht : validScope t = true) : valueAAD s ≠ wrapAAD id t := by
  intro h
  have hfields := encodeFields_injective (valueFields_length hs) (wrapFields_length hid ht) h
  have hlabel : valueLabel = wrapLabel := (List.cons.inj hfields).1
  exact absurd hlabel (by decide)

end AutoDeploy.Crypto
