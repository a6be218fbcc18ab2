import AutoDeploy.Crypto.Envelope

namespace AutoDeploy.Crypto

open Lib Lib.Result

-- Envelopes as the bytes a secret version is stored with.

def marshalFields (fields : List Bytes) : Bytes := encodeFields fields

def Envelope.fields (e : Envelope) : List Bytes := [e.suite, e.aadVersion, e.kekID, e.ciphertext, e.wrappedDEK]

def marshalBinary (e : Envelope) : Except CryptoError Bytes := do
  require (validEnvelope e) .invalidEnvelope
  pure (marshalFields e.fields)

def maxSerializedEnvelopeBytes : Nat :=
  4 + suiteAES256GCMRandomNonceV1.length + 4 + aadFormatV1.length + 4 + 64 + 4 + maxPlaintextBytes + 28 + 4 + 60

def maxFieldLength : Nat → Nat
  | 0 => suiteAES256GCMRandomNonceV1.length
  | 1 => aadFormatV1.length
  | 2 => 64
  | 3 => maxPlaintextBytes + 28
  | 4 => 60
  | _ => 0

-- `binary.BigEndian.Uint32` of the first four bytes.
def readUint32 (b : Bytes) : Nat := (b.take 4).foldl (fun n byte => n * 256 + byte.toNat) 0

-- `index` fields were read, and `want` are still to come.
def parseFields (index : Nat) : Nat → Bytes → Option (List Bytes)
  | 0, encoded => if encoded = [] then some [] else none
  | want + 1, encoded =>
      if encoded.length < 4 then none
      else
        let n := readUint32 encoded
        let rest := encoded.drop 4
        if rest.length < n ∨ maxFieldLength index < n then none
        else (parseFields (index + 1) want (rest.drop n)).map (rest.take n :: ·)

def parseEnvelope (encoded : Bytes) : Except CryptoError Envelope := do
  require (encoded.length ≤ maxSerializedEnvelopeBytes) .invalidEnvelope
  match parseFields 0 5 encoded with
  | some [suite, aadVersion, kekID, ciphertext, wrappedDEK] => do
      let e : Envelope := ⟨suite, aadVersion, kekID, ciphertext, wrappedDEK⟩
      require (validEnvelope e) .invalidEnvelope
      pure e
  | _ => .error .invalidEnvelope

-- No field is longer than the parser takes at its place.
def FieldsFit : Nat → List Bytes → Prop
  | _, [] => True
  | index, field :: rest => field.length ≤ maxFieldLength index ∧ FieldsFit (index + 1) rest

theorem maxFieldLength_lt (index : Nat) : maxFieldLength index < 256 ^ 4 := by
  match index with
  | 0 => decide +kernel
  | 1 => decide +kernel
  | 2 => decide
  | 3 => decide
  | 4 => decide
  | _ + 5 => exact Nat.pow_pos (by decide)

theorem FieldsFit.length_lt {index : Nat} {fields : List Bytes} (h : FieldsFit index fields) :
    ∀ field ∈ fields, field.length < 256 ^ 4 := by
  induction fields generalizing index with
  | nil =>
      intro field hfield
      cases hfield
  | cons first rest ih =>
      intro field hfield
      rcases List.mem_cons.1 hfield with rfl | hfield
      · exact lt_of_le_of_lt h.1 (maxFieldLength_lt index)
      · exact ih h.2 field hfield

theorem readUint32_bigEndian {n : Nat} (h : n < 256 ^ 4) (rest : Bytes) :
    readUint32 (Bytes.bigEndian n 4 ++ rest) = n := by
  have htake : (Bytes.bigEndian n 4 ++ rest).take 4 = Bytes.bigEndian n 4 := List.take_left' (Bytes.length_bigEndian n 4)
  rw [readUint32, htake]
  simp only [Bytes.bigEndian, List.nil_append, List.cons_append, List.foldl_cons, List.foldl_nil, UInt8.toNat_ofNat']
  omega

theorem bigEndian_readUint32 {encoded : Bytes} (h : ¬ encoded.length < 4) :
    Bytes.bigEndian (readUint32 encoded) 4 = encoded.take 4 ∧ readUint32 encoded < 256 ^ 4 := by
  match encoded, h with
  | a :: b :: c :: d :: rest, _ =>
      have ha := a.toNat_lt
      have hb := b.toNat_lt
      have hc := c.toNat_lt
      have hd := d.toNat_lt
      have hvalue : readUint32 (a :: b :: c :: d :: rest) =
          ((a.toNat * 256 + b.toNat) * 256 + c.toNat) * 256 + d.toNat := by
        simp [readUint32]
      have hbyte (n : Nat) (x : UInt8) (hn : n % 256 = x.toNat) : UInt8.ofNat n = x := by
        apply UInt8.toNat_inj.1
        rw [UInt8.toNat_ofNat']
        exact hn
      rw [hvalue]
      refine ⟨?_, by omega⟩
      simp only [Bytes.bigEndian, List.nil_append, List.cons_append, List.take_succ_cons, List.take_zero, List.cons.injEq,
        and_true]
      refine ⟨hbyte _ a ?_, hbyte _ b ?_, hbyte _ c ?_, hbyte _ d ?_⟩
      · omega
      · omega
      · omega
      · omega
  | [], h => exact absurd (by decide) h
  | [_], h => exact absurd (by simp) h
  | [_, _], h => exact absurd (by simp) h
  | [_, _, _], h => exact absurd (by simp) h

-- What was written is read.
theorem parseFields_prefixed {index : Nat} {fields : List Bytes} (h : FieldsFit index fields) :
    parseFields index fields.length (Bytes.prefixed 4 fields) = some fields := by
  induction fields generalizing index with
  | nil => rfl
  | cons field rest ih =>
      have hlength : field.length < 256 ^ 4 := lt_of_le_of_lt h.1 (maxFieldLength_lt index)
      have hread := readUint32_bigEndian hlength (field ++ Bytes.prefixed 4 rest)
      have hdrop : (Bytes.bigEndian field.length 4 ++ (field ++ Bytes.prefixed 4 rest)).drop 4 =
          field ++ Bytes.prefixed 4 rest := List.drop_left' (Bytes.length_bigEndian _ 4)
      have hlong : ¬ (Bytes.bigEndian field.length 4 ++ (field ++ Bytes.prefixed 4 rest)).length < 4 := by
        rw [List.length_append, Bytes.length_bigEndian]
        omega
      have hfits : ¬ ((field ++ Bytes.prefixed 4 rest).length < field.length ∨ maxFieldLength index < field.length) := by
        rw [List.length_append]
        have := h.1
        omega
      rw [Bytes.prefixed_cons, List.length_cons, parseFields, if_neg hlong]
      simp only [hread, hdrop]
      rw [if_neg hfits, List.drop_left, List.take_left, ih h.2]
      rfl

-- What is read was written so.
theorem parseFields_sound {index want : Nat} {encoded : Bytes} {fields : List Bytes}
    (h : parseFields index want encoded = some fields) :
    encoded = Bytes.prefixed 4 fields ∧ fields.length = want ∧ FieldsFit index fields := by
  induction want generalizing index encoded fields with
  | zero =>
      rw [parseFields] at h
      split at h
      · rename_i hnil
        cases h
        exact ⟨hnil, rfl, trivial⟩
      · cases h
  | succ want ih =>
      rw [parseFields] at h
      split at h
      · cases h
      rename_i hlong
      simp only at h
      split at h
      · cases h
      rename_i hfits
      obtain ⟨rest, hrest, rfl⟩ := Option.map_eq_some_iff.1 h
      obtain ⟨hsplit, hcount, hfit⟩ := ih hrest
      obtain ⟨hbytes, -⟩ := bigEndian_readUint32 hlong
      obtain ⟨henough, hmax⟩ := not_or.1 hfits
      have hlength : ((encoded.drop 4).take (readUint32 encoded)).length = readUint32 encoded := by
        rw [List.length_take]
        omega
      refine ⟨?_, by rw [List.length_cons, hcount], by rw [hlength]; omega, hfit⟩
      calc encoded = encoded.take 4 ++ encoded.drop 4 := (List.take_append_drop 4 encoded).symm
        _ = encoded.take 4 ++ ((encoded.drop 4).take (readUint32 encoded) ++ (encoded.drop 4).drop (readUint32 encoded)) := by
            exact congrArg _ (List.take_append_drop _ _).symm
        _ = Bytes.prefixed 4 ((encoded.drop 4).take (readUint32 encoded) :: rest) := by
            rw [Bytes.prefixed_cons, hlength, hbytes, ← hsplit]

theorem validEnvelope_fits {e : Envelope} (h : validEnvelope e = true) : FieldsFit 0 e.fields := by
  simp only [validEnvelope, Bool.and_eq_true, beq_iff_eq, decide_eq_true_eq] at h
  obtain ⟨⟨⟨⟨⟨⟨-, -⟩, hsuite⟩, hversion⟩, hkey⟩, -⟩, htext⟩ := h.1
  have hwrapped : e.wrappedDEK.length = 60 := h.2
  simp only [validKeyID, Bool.and_eq_true, decide_eq_true_eq] at hkey
  exact ⟨by rw [hsuite]; exact le_refl _, by rw [hversion]; exact le_refl _, hkey.1.1.2, htext, by rw [hwrapped]; exact le_refl _,
    trivial⟩

theorem length_marshalFields {e : Envelope} (h : FieldsFit 0 e.fields) :
    (Bytes.prefixed 4 e.fields).length ≤ maxSerializedEnvelopeBytes := by
  obtain ⟨hsuite, hversion, hkey, htext, hwrapped, -⟩ := h
  simp only [maxFieldLength] at hsuite hversion hkey htext hwrapped
  have hnil : Bytes.prefixed 4 [] = [] := rfl
  simp only [Envelope.fields, Bytes.prefixed_cons, hnil, List.length_append, Bytes.length_bigEndian, List.length_nil,
    maxSerializedEnvelopeBytes]
  omega

theorem marshalBinary_eq_ok {e : Envelope} {b : Bytes} :
    marshalBinary e = .ok b ↔ validEnvelope e = true ∧ Bytes.prefixed 4 e.fields = b := by
  simp only [marshalBinary, bind_eq_ok, require_eq_ok, exists_const, pure_eq_ok, marshalFields]
  refine and_congr_right fun hvalid => ?_
  rw [encodeFields_eq (validEnvelope_fits hvalid).length_lt]

-- One encoding for each valid envelope, and nothing else is accepted.
theorem parseEnvelope_iff_marshalBinary (b : Bytes) (e : Envelope) :
    parseEnvelope b = .ok e ↔ validEnvelope e = true ∧ marshalBinary e = .ok b := by
  rw [marshalBinary_eq_ok]
  constructor
  · intro h
    simp only [parseEnvelope, bind_eq_ok, require_eq_ok, exists_const] at h
    obtain ⟨-, h⟩ := h
    split at h
    · rename_i suite aadVersion kekID ciphertext wrappedDEK hfields
      simp only [bind_eq_ok, require_eq_ok, exists_const, pure_eq_ok] at h
      obtain ⟨hvalid, rfl⟩ := h
      exact ⟨hvalid, hvalid, (parseFields_sound hfields).1.symm⟩
    · cases h
  · rintro ⟨hvalid, -, rfl⟩
    have hfits := validEnvelope_fits hvalid
    have hparse := parseFields_prefixed hfits
    have hcount : e.fields.length = 5 := rfl
    rw [hcount] at hparse
    rw [parseEnvelope, hparse]
    refine bind_eq_ok.2 ⟨(), require_eq_ok.2 (length_marshalFields hfits), ?_⟩
    exact bind_eq_ok.2 ⟨(), require_eq_ok.2 hvalid, rfl⟩

end AutoDeploy.Crypto
