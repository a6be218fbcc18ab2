import AutoDeploy.Crypto.Envelope
import AutoDeploy.Lib.Runs

namespace AutoDeploy.Crypto

open Lib Lib.Result

-- One successful call of `Encrypt`.
structure SealedValue where
  scope : Scope
  plaintext : Bytes
  dek : Bytes
  ciphertext : Bytes
deriving DecidableEq, Repr

-- One wrapped data key: the `Encrypt` it stems from, and what it is wrapped with.
structure WrappedKey where
  call : Nat
  keyID : Bytes
  key : Bytes
  text : Bytes
deriving DecidableEq, Repr

-- The cipher, and what the calls of this package had it seal. `lineage` holds every envelope `Encrypt` returned and
-- every envelope `Rewrap` made of one of these, with the number of the `Encrypt`.
structure Vault where
  cipher : Cipher
  values : List SealedValue
  wraps : List WrappedKey
  lineage : List (Nat × Envelope)

namespace Vault

def empty : Vault := ⟨[], [], [], []⟩

def encrypted (v : Vault) (kekID kek : Bytes) (draw : Draw) (scope : Scope) (plaintext : Bytes) : Vault where
  cipher := (sealEnvelope v.cipher kekID kek draw scope plaintext).2
  values := v.values ++ [⟨scope, plaintext, draw.dek, draw.value⟩]
  wraps := v.wraps ++ [⟨v.values.length, kekID, kek, draw.wrapped⟩]
  lineage := v.lineage ++ [(v.values.length, (sealEnvelope v.cipher kekID kek draw scope plaintext).1)]

-- The new wrapped key stems from where the old one does. Nothing restricts the envelope: its value may be from
-- anywhere.
def rewrapped (v : Vault) (newID newKey dek wrapped : Bytes) (scope : Scope) (envelope : Envelope) : Vault where
  cipher := (sealRewrapped v.cipher newID newKey dek wrapped scope envelope).2
  values := v.values
  wraps := v.wraps ++
    (v.wraps.filter (·.text == envelope.wrappedDEK)).map fun w => ⟨w.call, newID, newKey, wrapped⟩
  lineage := v.lineage ++ (v.lineage.filter (·.2 == envelope)).map fun entry =>
    (entry.1, (sealRewrapped v.cipher newID newKey dek wrapped scope envelope).1)

-- Data keys are fresh, and so is every text the cipher returns.
structure FreshDraw (v : Vault) (plaintext : Bytes) (draw : Draw) : Prop where
  dek_length : draw.dek.length = keyBytes
  dek_fresh : ∀ value ∈ v.values, value.dek ≠ draw.dek
  value_length : draw.value.length = plaintext.length + sealOverhead
  value_fresh : v.cipher.Fresh draw.value
  wrapped_length : draw.wrapped.length = keyBytes + sealOverhead
  wrapped_fresh : v.cipher.Fresh draw.wrapped
  distinct : draw.value ≠ draw.wrapped

structure FreshWrap (v : Vault) (wrapped : Bytes) : Prop where
  length : wrapped.length = keyBytes + sealOverhead
  fresh : v.cipher.Fresh wrapped

inductive Step (v : Vault) : Vault → Prop
  | encrypt {provider : KeyProvider} {reserve : Bytes → Bool} {draw : Draw} {scope : Scope} {plaintext kek : Bytes}
      {result : Envelope × Cipher} (hdraw : v.FreshDraw plaintext draw)
      (h : Crypto.encrypt v.cipher provider reserve (some draw) scope plaintext = .ok result)
      (hkey : provider.active = .ok (result.1.kekID, kek)) :
      Step v (v.encrypted result.1.kekID kek draw scope plaintext)
  | rewrap {provider : KeyProvider} {reserve : Bytes → Bool} {wrapped : Bytes} {scope : Scope} {envelope : Envelope}
      {dek newKey : Bytes} {result : Envelope × Cipher} (hwrap : v.FreshWrap wrapped)
      (h : Crypto.rewrap v.cipher provider reserve wrapped scope envelope = .ok result)
      (hkeys : rewrapKeys v.cipher provider scope envelope = .ok (dek, result.1.kekID, newKey)) :
      Step v (v.rewrapped result.1.kekID newKey dek wrapped scope envelope)

end Vault

def vaultSystem : System Vault where
  initial v := v = Vault.empty
  next := Vault.Step

-- The envelope of a value, with one of the keys it was wrapped with.
def SealedValue.carrying (value : SealedValue) (w : WrappedKey) : Envelope :=
  ⟨suiteAES256GCMRandomNonceV1, aadFormatV1, w.keyID, value.ciphertext, w.text⟩

def SealedValue.sealing (value : SealedValue) : Sealing :=
  ⟨value.dek, valueAAD value.scope, value.plaintext, value.ciphertext⟩

def WrappedKey.sealing (w : WrappedKey) (value : SealedValue) : Sealing :=
  ⟨w.key, wrapAAD w.keyID value.scope, value.dek, w.text⟩

structure SealedValue.Valid (value : SealedValue) : Prop where
  scope : validScope value.scope = true
  plaintext : value.plaintext.length ≤ maxPlaintextBytes
  dek : value.dek.length = keyBytes
  ciphertext : value.ciphertext.length = value.plaintext.length + sealOverhead

structure WrappedKey.Valid (w : WrappedKey) : Prop where
  keyID : validKeyID w.keyID = true
  key : w.key.length = keyBytes
  text : w.text.length = keyBytes + sealOverhead

-- What the cipher has sealed are the values and the wrapped keys, each once.
structure Vault.Sound (v : Vault) : Prop where
  distinct : v.cipher.Distinct
  deks : (v.values.map SealedValue.dek).Nodup
  valid_value : ∀ value ∈ v.values, value.Valid
  valid_wrap : ∀ w ∈ v.wraps, w.Valid
  value_sealed : ∀ value ∈ v.values, value.sealing ∈ v.cipher
  wrap_sealed : ∀ w ∈ v.wraps, ∃ value, v.values[w.call]? = some value ∧ w.sealing value ∈ v.cipher
  known : ∀ s ∈ v.cipher, (∃ value ∈ v.values, s = value.sealing) ∨
    ∃ w ∈ v.wraps, ∃ value, v.values[w.call]? = some value ∧ s = w.sealing value
  lineage : ∀ i e, (i, e) ∈ v.lineage →
    ∃ w ∈ v.wraps, w.call = i ∧ ∃ value, v.values[i]? = some value ∧ e = value.carrying w

-- What the two calls check before they seal.
theorem encryptionKey_eq_ok {provider : KeyProvider} {scope : Scope} {plaintext kekID kek : Bytes}
    (h : encryptionKey provider scope plaintext = .ok (kekID, kek)) :
    provider.active = .ok (kekID, kek) ∧ plaintext.length ≤ maxPlaintextBytes ∧ validScope scope = true ∧
      validKeyID kekID = true ∧ kek.length = keyBytes := by
  simp only [encryptionKey, bind_eq_ok, require_eq_ok, mapError_eq_ok, pure_eq_ok, Prod.mk.injEq] at h
  obtain ⟨_, ⟨hlength, hscope⟩, ⟨_, _⟩, hactive, _, ⟨hid, hkey⟩, rfl, rfl⟩ := h
  exact ⟨hactive, hlength, hscope, hid, hkey⟩

theorem rewrapKeys_eq_ok {cipher : Cipher} {provider : KeyProvider} {scope : Scope} {envelope : Envelope}
    {dek newID newKey : Bytes} (h : rewrapKeys cipher provider scope envelope = .ok (dek, newID, newKey)) :
    validScope scope = true ∧ validEnvelope envelope = true ∧
      (∃ oldKey, ⟨oldKey, wrapAAD envelope.kekID scope, dek, envelope.wrappedDEK⟩ ∈ cipher) ∧
      validKeyID newID = true ∧ newKey.length = keyBytes ∧ newID ≠ envelope.kekID := by
  simp only [rewrapKeys, bind_eq_ok, require_eq_ok, mapError_eq_ok, found_eq_ok, pure_eq_ok, Prod.mk.injEq] at h
  obtain ⟨_, ⟨hscope, henvelope⟩, oldKey, _, _, _, _, hopened, _, _, ⟨_, _⟩, _, _, ⟨hid, hkey, hnew⟩, rfl, rfl, rfl⟩ := h
  exact ⟨hscope, henvelope, ⟨oldKey, Cipher.mem_of_opened hopened⟩, hid, hkey, hnew⟩

theorem encrypt_eq_ok {cipher : Cipher} {provider : KeyProvider} {reserve : Bytes → Bool} {draw : Draw} {scope : Scope}
    {plaintext : Bytes} {result : Envelope × Cipher}
    (h : encrypt cipher provider reserve (some draw) scope plaintext = .ok result) :
    ∃ kekID kek, encryptionKey provider scope plaintext = .ok (kekID, kek) ∧
      result = sealEnvelope cipher kekID kek draw scope plaintext := by
  simp only [encrypt, bind_eq_ok, require_eq_ok, found_eq_ok, pure_eq_ok, Option.some.injEq] at h
  obtain ⟨⟨kekID, kek⟩, hkey, _, _, _, rfl, rfl⟩ := h
  exact ⟨kekID, kek, hkey, rfl⟩

theorem rewrap_eq_ok {cipher : Cipher} {provider : KeyProvider} {reserve : Bytes → Bool} {wrapped : Bytes} {scope : Scope}
    {envelope : Envelope} {result : Envelope × Cipher}
    (h : rewrap cipher provider reserve wrapped scope envelope = .ok result) :
    ∃ dek newID newKey, rewrapKeys cipher provider scope envelope = .ok (dek, newID, newKey) ∧
      result = sealRewrapped cipher newID newKey dek wrapped scope envelope := by
  simp only [rewrap, bind_eq_ok, require_eq_ok, pure_eq_ok] at h
  obtain ⟨⟨dek, newID, newKey⟩, hkeys, _, _, rfl⟩ := h
  exact ⟨dek, newID, newKey, hkeys, rfl⟩

theorem validEnvelope_keyID {envelope : Envelope} (h : validEnvelope envelope = true) :
    validKeyID envelope.kekID = true := by
  simp only [validEnvelope, Bool.and_eq_true] at h
  exact h.1.1.1.2

namespace Vault.Sound

variable {v : Vault} {value other : SealedValue} {w w' : WrappedKey} {i j : Nat}

-- Each data key belongs to one call.
theorem call_unique (hv : v.Sound) (hi : v.values[i]? = some value) (hj : v.values[j]? = some other)
    (hdek : value.dek = other.dek) : i = j := by
  have hlt : i < (v.values.map SealedValue.dek).length := by
    rw [List.length_map]
    exact (List.getElem?_eq_some_iff.1 hi).1
  refine (List.getElem?_inj hlt hv.deks).1 ?_
  rw [List.getElem?_map, List.getElem?_map, hi, hj]
  exact congrArg some hdek

theorem value_unique (hv : v.Sound) (hvalue : value ∈ v.values) (hother : other ∈ v.values)
    (hdek : value.dek = other.dek) : value = other :=
  List.inj_on_of_nodup_map hv.deks hvalue hother hdek

-- A text that opens under a wrapping label is a wrapped key, and it says of which call, key and scope.
theorem wrap_of_sealing (hv : v.Sound) {key keyID dek text : Bytes} {scope : Scope} (hid : validKeyID keyID = true)
    (hscope : validScope scope = true) (h : ⟨key, wrapAAD keyID scope, dek, text⟩ ∈ v.cipher) :
    ∃ w ∈ v.wraps, ∃ value, v.values[w.call]? = some value ∧ w.keyID = keyID ∧ w.key = key ∧ w.text = text ∧
      value.scope = scope ∧ value.dek = dek := by
  obtain ⟨value, hvalue, heq⟩ | ⟨w, hw, value, hat, heq⟩ := hv.known _ h
  · have haad : wrapAAD keyID scope = valueAAD value.scope := congrArg Sealing.aad heq
    exact absurd haad.symm (valueAAD_ne_wrapAAD hid (hv.valid_value value hvalue).scope hscope)
  · have haad : wrapAAD keyID scope = wrapAAD w.keyID value.scope := congrArg Sealing.aad heq
    have hvalid := (hv.valid_value value (List.mem_of_getElem? hat)).scope
    obtain ⟨rfl, rfl⟩ := wrapAAD_injective hid (hv.valid_wrap w hw).keyID hscope hvalid haad
    exact ⟨w, hw, value, hat, rfl, (congrArg Sealing.key heq).symm, (congrArg Sealing.ciphertext heq).symm, rfl,
      (congrArg Sealing.plaintext heq).symm⟩

theorem value_of_sealing (hv : v.Sound) {dek plaintext ciphertext : Bytes} {scope : Scope}
    (hscope : validScope scope = true) (h : ⟨dek, valueAAD scope, plaintext, ciphertext⟩ ∈ v.cipher) :
    ∃ value ∈ v.values, value.scope = scope ∧ value.dek = dek ∧ value.plaintext = plaintext ∧
      value.ciphertext = ciphertext := by
  obtain ⟨value, hvalue, heq⟩ | ⟨w, hw, value, hat, heq⟩ := hv.known _ h
  · have haad : valueAAD scope = valueAAD value.scope := congrArg Sealing.aad heq
    have hsame := valueAAD_injective hscope (hv.valid_value value hvalue).scope haad
    exact ⟨value, hvalue, hsame.symm, (congrArg Sealing.key heq).symm, (congrArg Sealing.plaintext heq).symm,
      (congrArg Sealing.ciphertext heq).symm⟩
  · have haad : valueAAD scope = wrapAAD w.keyID value.scope := congrArg Sealing.aad heq
    have hvalid := (hv.valid_value value (List.mem_of_getElem? hat)).scope
    exact absurd haad (valueAAD_ne_wrapAAD (hv.valid_wrap w hw).keyID hscope hvalid)

-- Two wrapped keys with one text are the same key, of one call.
theorem wrap_unique (hv : v.Sound) (hw : w ∈ v.wraps) (hw' : w' ∈ v.wraps) (htext : w.text = w'.text) :
    w.call = w'.call ∧ w.keyID = w'.keyID ∧ w.key = w'.key := by
  obtain ⟨value, hat, hsealed⟩ := hv.wrap_sealed w hw
  obtain ⟨other, hat', hsealed'⟩ := hv.wrap_sealed w' hw'
  have heq := hv.distinct.eq_of_ciphertext hsealed hsealed' htext
  have hscope := (hv.valid_value value (List.mem_of_getElem? hat)).scope
  have hscope' := (hv.valid_value other (List.mem_of_getElem? hat')).scope
  obtain ⟨hid, _⟩ := wrapAAD_injective (hv.valid_wrap w hw).keyID (hv.valid_wrap w' hw').keyID hscope hscope'
    (congrArg Sealing.aad heq)
  exact ⟨hv.call_unique hat hat' (congrArg Sealing.plaintext heq), hid, congrArg Sealing.key heq⟩

theorem empty : Vault.empty.Sound := by
  constructor
  · exact Cipher.distinct_nil
  · exact List.nodup_nil
  all_goals simp [Vault.empty]

theorem encrypted (hv : v.Sound) {kekID kek plaintext : Bytes} {draw : Draw} {scope : Scope}
    (hdraw : v.FreshDraw plaintext draw) (hplaintext : plaintext.length ≤ maxPlaintextBytes)
    (hscope : validScope scope = true) (hid : validKeyID kekID = true) (hkek : kek.length = keyBytes) :
    (v.encrypted kekID kek draw scope plaintext).Sound := by
  have hlast : (v.values ++ [⟨scope, plaintext, draw.dek, draw.value⟩])[v.values.length]? =
      some ⟨scope, plaintext, draw.dek, draw.value⟩ := by simp
  have hkeep {k : Nat} {value : SealedValue} (h : v.values[k]? = some value) :
      (v.values ++ [⟨scope, plaintext, draw.dek, draw.value⟩])[k]? = some value := by
    rw [List.getElem?_append_left (List.getElem?_eq_some_iff.1 h).1]
    exact h
  constructor
  case distinct =>
    refine Cipher.Distinct.sealed (hv.distinct.sealed hdraw.value_fresh) ?_
    intro s hs
    obtain rfl | hs := List.mem_cons.1 hs
    · exact hdraw.distinct
    · exact hdraw.wrapped_fresh s hs
  case deks =>
    simp only [Vault.encrypted, List.map_append, List.map_cons, List.map_nil, List.nodup_append, List.nodup_singleton,
      List.mem_singleton, List.mem_map, true_and]
    refine ⟨hv.deks, ?_⟩
    rintro dek ⟨value, hvalue, rfl⟩ _ rfl
    exact hdraw.dek_fresh value hvalue
  case valid_value =>
    intro value hvalue
    obtain hvalue | rfl := List.mem_append.1 hvalue |>.imp_right List.mem_singleton.1
    · exact hv.valid_value value hvalue
    · exact ⟨hscope, hplaintext, hdraw.dek_length, hdraw.value_length⟩
  case valid_wrap =>
    intro w hw
    obtain hw | rfl := List.mem_append.1 hw |>.imp_right List.mem_singleton.1
    · exact hv.valid_wrap w hw
    · exact ⟨hid, hkek, hdraw.wrapped_length⟩
  case value_sealed =>
    intro value hvalue
    obtain hvalue | rfl := List.mem_append.1 hvalue |>.imp_right List.mem_singleton.1
    · exact List.mem_cons_of_mem _ (List.mem_cons_of_mem _ (hv.value_sealed value hvalue))
    · exact List.mem_cons_of_mem _ List.mem_cons_self
  case wrap_sealed =>
    intro w hw
    obtain hw | rfl := List.mem_append.1 hw |>.imp_right List.mem_singleton.1
    · obtain ⟨value, hat, hsealed⟩ := hv.wrap_sealed w hw
      exact ⟨value, hkeep hat, List.mem_cons_of_mem _ (List.mem_cons_of_mem _ hsealed)⟩
    · exact ⟨_, hlast, List.mem_cons_self⟩
  case known =>
    intro s hs
    obtain rfl | hs := List.mem_cons.1 hs
    · exact .inr ⟨_, List.mem_append_right _ (List.mem_singleton.2 rfl), _, hlast, rfl⟩
    obtain rfl | hs := List.mem_cons.1 hs
    · exact .inl ⟨_, List.mem_append_right _ (List.mem_singleton.2 rfl), rfl⟩
    obtain ⟨value, hvalue, rfl⟩ | ⟨w, hw, value, hat, rfl⟩ := hv.known s hs
    · exact .inl ⟨value, List.mem_append_left _ hvalue, rfl⟩
    · exact .inr ⟨w, List.mem_append_left _ hw, value, hkeep hat, rfl⟩
  case lineage =>
    intro i e hentry
    obtain hentry | hentry := List.mem_append.1 hentry
    · obtain ⟨w, hw, hcall, value, hat, he⟩ := hv.lineage i e hentry
      exact ⟨w, List.mem_append_left _ hw, hcall, value, hkeep hat, he⟩
    · obtain ⟨rfl, rfl⟩ := Prod.mk.inj (List.mem_singleton.1 hentry)
      exact ⟨_, List.mem_append_right _ (List.mem_singleton.2 rfl), rfl, _, hlast, rfl⟩

-- The data key of a rewrapped envelope is the one the old text wraps, and it is wrapped for the same scope.
theorem rewrapped (hv : v.Sound) {newID newKey oldKey dek wrapped : Bytes} {scope : Scope} {envelope : Envelope}
    (hwrap : v.FreshWrap wrapped) (hscope : validScope scope = true) (hid : validKeyID envelope.kekID = true)
    (hsealed : ⟨oldKey, wrapAAD envelope.kekID scope, dek, envelope.wrappedDEK⟩ ∈ v.cipher)
    (hnew : validKeyID newID = true) (hkey : newKey.length = keyBytes) :
    (v.rewrapped newID newKey dek wrapped scope envelope).Sound := by
  obtain ⟨w₀, hw₀, value₀, hat₀, _, _, htext₀, rfl, rfl⟩ := hv.wrap_of_sealing hid hscope hsealed
  -- every record of the old text leads to the same call
  have hcall {w : WrappedKey} (hw : w ∈ v.wraps) (htext : w.text = envelope.wrappedDEK) : w.call = w₀.call :=
    (hv.wrap_unique hw hw₀ (htext.trans htext₀.symm)).1
  have hmem {w : WrappedKey} (hw : w ∈ (v.rewrapped newID newKey value₀.dek wrapped value₀.scope envelope).wraps) :
      w ∈ v.wraps ∨ w = ⟨w₀.call, newID, newKey, wrapped⟩ := by
    obtain hw | hw := List.mem_append.1 hw
    · exact .inl hw
    · obtain ⟨old, hold, rfl⟩ := List.mem_map.1 hw
      simp only [List.mem_filter, beq_iff_eq] at hold
      exact .inr (by rw [hcall hold.1 hold.2])
  have hadded : (⟨w₀.call, newID, newKey, wrapped⟩ : WrappedKey) ∈
      (v.rewrapped newID newKey value₀.dek wrapped value₀.scope envelope).wraps := by
    refine List.mem_append_right _ (List.mem_map.2 ⟨w₀, ?_, rfl⟩)
    simp [hw₀, htext₀]
  constructor
  case distinct => exact hv.distinct.sealed hwrap.fresh
  case deks => exact hv.deks
  case valid_value => exact hv.valid_value
  case valid_wrap =>
    intro w hw
    obtain hw | rfl := hmem hw
    · exact hv.valid_wrap w hw
    · exact ⟨hnew, hkey, hwrap.length⟩
  case value_sealed =>
    intro value hvalue
    exact List.mem_cons_of_mem _ (hv.value_sealed value hvalue)
  case wrap_sealed =>
    intro w hw
    obtain hw | rfl := hmem hw
    · obtain ⟨value, hat, hsealed⟩ := hv.wrap_sealed w hw
      exact ⟨value, hat, List.mem_cons_of_mem _ hsealed⟩
    · exact ⟨value₀, hat₀, List.mem_cons_self⟩
  case known =>
    intro s hs
    obtain rfl | hs := List.mem_cons.1 hs
    · exact .inr ⟨_, hadded, value₀, hat₀, rfl⟩
    obtain ⟨value, hvalue, rfl⟩ | ⟨w, hw, value, hat, rfl⟩ := hv.known s hs
    · exact .inl ⟨value, hvalue, rfl⟩
    · exact .inr ⟨w, List.mem_append_left _ hw, value, hat, rfl⟩
  case lineage =>
    intro i e hentry
    obtain hentry | hentry := List.mem_append.1 hentry
    · obtain ⟨w, hw, hi, value, hat, he⟩ := hv.lineage i e hentry
      exact ⟨w, List.mem_append_left _ hw, hi, value, hat, he⟩
    · obtain ⟨⟨k, old⟩, hold, heq⟩ := List.mem_map.1 hentry
      simp only [List.mem_filter, beq_iff_eq] at hold
      obtain ⟨hold, rfl⟩ := hold
      obtain ⟨rfl, rfl⟩ := Prod.mk.inj heq
      obtain ⟨w, hw, hi, value, hat, he⟩ := hv.lineage k old hold
      have hstem : w.call = w₀.call := hcall hw (by rw [he]; rfl)
      refine ⟨_, hadded, hstem.symm.trans hi, value, hat, ?_⟩
      rw [he]
      rfl

theorem step (hv : v.Sound) {v' : Vault} (h : Vault.Step v v') : v'.Sound := by
  cases h with
  | encrypt hdraw hencrypt hactive =>
      obtain ⟨kekID, kek, hkey, rfl⟩ := encrypt_eq_ok hencrypt
      obtain ⟨hactive', hplaintext, hscope, hid, hkek⟩ := encryptionKey_eq_ok hkey
      obtain ⟨_, rfl⟩ := Prod.mk.inj (Except.ok.inj (hactive.symm.trans hactive'))
      exact hv.encrypted hdraw hplaintext hscope hid hkek
  | rewrap hwrap hrewrap hkeys =>
      obtain ⟨hscope, henvelope, ⟨oldKey, hsealed⟩, hid, hkey, _⟩ := rewrapKeys_eq_ok hkeys
      exact hv.rewrapped hwrap hscope (validEnvelope_keyID henvelope) hsealed hid hkey

theorem of_reachable (h : vaultSystem.Reachable v) : v.Sound := by
  refine h.invariant ?_ ?_
  · rintro _ rfl
    exact empty
  · intro v v' hv hstep
    exact hv.step hstep

theorem validEnvelope_carrying (hv : v.Sound) (hw : w ∈ v.wraps) (hvalue : value ∈ v.values) :
    validEnvelope (value.carrying w) = true := by
  have htext : Utf8.validString suiteAES256GCMRandomNonceV1 = true ∧ Utf8.validString aadFormatV1 = true := by
    decide
  have hvalid := hv.valid_value value hvalue
  have hlong : sealOverhead ≤ value.ciphertext.length := by
    rw [hvalid.ciphertext]
    omega
  have hshort : value.ciphertext.length ≤ maxPlaintextBytes + sealOverhead := by
    rw [hvalid.ciphertext]
    have := hvalid.plaintext
    omega
  simp [validEnvelope, SealedValue.carrying, htext.1, htext.2, (hv.valid_wrap w hw).keyID, (hv.valid_wrap w hw).text,
    hlong, hshort]

-- What decrypts, and to what: a value, with a key it was wrapped with, under that key's name and for its own scope.
theorem decrypt_iff (hv : v.Sound) {provider : KeyProvider} {scope : Scope} {envelope : Envelope} {plaintext : Bytes} :
    decrypt v.cipher provider scope envelope = .ok plaintext ↔
      ∃ w ∈ v.wraps, ∃ value, v.values[w.call]? = some value ∧ envelope = value.carrying w ∧ scope = value.scope ∧
        provider.resolve w.keyID = .ok w.key ∧ plaintext = value.plaintext := by
  constructor
  · intro h
    simp only [decrypt, bind_eq_ok, require_eq_ok, mapError_eq_ok, found_eq_ok, pure_eq_ok] at h
    obtain ⟨_, ⟨hscope, henvelope⟩, kek, hresolve, _, _, dek, hdek, _, _, _, hplaintext, _, _, rfl⟩ := h
    obtain ⟨w, hw, value, hat, hid, rfl, htext, rfl, rfl⟩ :=
      hv.wrap_of_sealing (validEnvelope_keyID henvelope) hscope (Cipher.mem_of_opened hdek)
    obtain ⟨other, hother, _, hsame, rfl, hciphertext⟩ :=
      hv.value_of_sealing hscope (Cipher.mem_of_opened hplaintext)
    obtain rfl := hv.value_unique hother (List.mem_of_getElem? hat) hsame
    rw [← hid] at hresolve
    refine ⟨w, hw, other, hat, ?_, rfl, hresolve, rfl⟩
    simp only [validEnvelope, Bool.and_eq_true, beq_iff_eq] at henvelope
    obtain ⟨⟨⟨⟨⟨⟨⟨_, _⟩, hsuite⟩, hversion⟩, _⟩, _⟩, _⟩, _⟩ := henvelope
    obtain ⟨_, _, _, _, _⟩ := envelope
    simp only [SealedValue.carrying, Envelope.mk.injEq]
    exact ⟨hsuite, hversion, hid.symm, hciphertext.symm, htext.symm⟩
  · rintro ⟨w, hw, value, hat, rfl, rfl, hresolve, rfl⟩
    have hmem := List.mem_of_getElem? hat
    have hvalid := hv.valid_value value hmem
    obtain ⟨value', hat', hwrapped⟩ := hv.wrap_sealed w hw
    obtain rfl := Option.some.inj (hat.symm.trans hat')
    have hdek : v.cipher.opened w.key w.text (wrapAAD w.keyID value.scope) = some value.dek :=
      hv.distinct.opened_iff.2 hwrapped
    have hplaintext : v.cipher.opened value.dek value.ciphertext (valueAAD value.scope) = some value.plaintext :=
      hv.distinct.opened_iff.2 (hv.value_sealed value hmem)
    have henvelope := hv.validEnvelope_carrying hw hmem
    simp only [decrypt, bind_eq_ok, require_eq_ok, mapError_eq_ok, found_eq_ok, pure_eq_ok]
    exact ⟨(), ⟨hvalid.scope, henvelope⟩, w.key, hresolve, (), (hv.valid_wrap w hw).key, value.dek, hdek, (), hvalid.dek,
      value.plaintext, hplaintext, (), hvalid.plaintext, rfl⟩

end Vault.Sound

-- The envelope holds the plaintext for the scope.
def Vault.Carries (v : Vault) (scope : Scope) (plaintext : Bytes) (envelope : Envelope) : Prop :=
  ∃ w ∈ v.wraps, ∃ value, v.values[w.call]? = some value ∧ envelope = value.carrying w ∧ value.scope = scope ∧
    value.plaintext = plaintext

-- Calls only add to what was sealed.
structure Vault.Extends (v v' : Vault) : Prop where
  wraps : ∀ w ∈ v.wraps, w ∈ v'.wraps
  values : ∀ (i : Nat) value, v.values[i]? = some value → v'.values[i]? = some value
  cipher : ∀ s ∈ v.cipher, s ∈ v'.cipher

section

variable {v v' : Vault} {scope : Scope} {plaintext : Bytes} {envelope : Envelope}

theorem Vault.Extends.refl (v : Vault) : v.Extends v := ⟨fun _ h => h, fun _ _ h => h, fun _ h => h⟩

theorem Vault.extends_encrypted (v : Vault) (kekID kek : Bytes) (draw : Draw) (scope : Scope) (plaintext : Bytes) :
    v.Extends (v.encrypted kekID kek draw scope plaintext) := by
  refine ⟨fun w hw => List.mem_append_left _ hw, ?_, fun s hs => List.mem_cons_of_mem _ (List.mem_cons_of_mem _ hs)⟩
  intro i value hvalue
  simp only [Vault.encrypted]
  rw [List.getElem?_append_left (List.getElem?_eq_some_iff.1 hvalue).1]
  exact hvalue

theorem Vault.extends_rewrapped (v : Vault) (newID newKey dek wrapped : Bytes) (scope : Scope) (envelope : Envelope) :
    v.Extends (v.rewrapped newID newKey dek wrapped scope envelope) :=
  ⟨fun _ hw => List.mem_append_left _ hw, fun _ _ h => h, fun _ hs => List.mem_cons_of_mem _ hs⟩

theorem Vault.Carries.mono (h : v.Carries scope plaintext envelope) (hext : v.Extends v') :
    v'.Carries scope plaintext envelope := by
  obtain ⟨w, hw, value, hat, he, hscope, hplaintext⟩ := h
  exact ⟨w, hext.wraps w hw, value, hext.values _ value hat, he, hscope, hplaintext⟩

theorem Vault.carries_encrypted (v : Vault) (kekID kek : Bytes) (draw : Draw) (scope : Scope) (plaintext : Bytes) :
    (v.encrypted kekID kek draw scope plaintext).Carries scope plaintext
      (sealEnvelope v.cipher kekID kek draw scope plaintext).1 := by
  refine ⟨_, List.mem_append_right _ (List.mem_singleton.2 rfl), ⟨scope, plaintext, draw.dek, draw.value⟩, ?_, rfl, rfl, rfl⟩
  simp [Vault.encrypted]

theorem Vault.Carries.rewrapped (h : v.Carries scope plaintext envelope) (newID newKey dek wrapped : Bytes)
    (scope' : Scope) :
    (v.rewrapped newID newKey dek wrapped scope' envelope).Carries scope plaintext
      (sealRewrapped v.cipher newID newKey dek wrapped scope' envelope).1 := by
  obtain ⟨w, hw, value, hat, rfl, hscope, hplaintext⟩ := h
  refine ⟨⟨w.call, newID, newKey, wrapped⟩, ?_, value, hat, rfl, hscope, hplaintext⟩
  refine List.mem_append_right _ (List.mem_map.2 ⟨w, ?_, rfl⟩)
  simp [hw, SealedValue.carrying]

-- Two envelopes of one value hold the same, and either's wrapped key serves the other.
theorem Vault.Sound.carries_same (hv : v.Sound) {scope' : Scope} {plaintext' : Bytes} {envelope' : Envelope}
    (h : v.Carries scope plaintext envelope) (h' : v.Carries scope' plaintext' envelope')
    (hsame : envelope.ciphertext = envelope'.ciphertext) :
    v.Carries scope plaintext
      { envelope with kekID := envelope'.kekID, wrappedDEK := envelope'.wrappedDEK } := by
  obtain ⟨w, _, value, hat, rfl, hscope, hplaintext⟩ := h
  obtain ⟨w', hw', value', hat', rfl, _, _⟩ := h'
  have hsealing := hv.distinct.eq_of_ciphertext (hv.value_sealed value (List.mem_of_getElem? hat))
    (hv.value_sealed value' (List.mem_of_getElem? hat')) hsame
  obtain rfl := hv.value_unique (List.mem_of_getElem? hat) (List.mem_of_getElem? hat') (congrArg Sealing.key hsealing)
  exact ⟨w', hw', value, hat', rfl, hscope, hplaintext⟩

end

-- The key an envelope's data key is wrapped with can be had under the name the envelope gives.
def KeyAvailable (cipher : Cipher) (provider : KeyProvider) (envelope : Envelope) : Prop :=
  ∃ s ∈ cipher, s.ciphertext = envelope.wrappedDEK ∧ provider.resolve envelope.kekID = .ok s.key

-- With its key at hand, an envelope gives back what it holds.
theorem Vault.Sound.decrypt_carried {v : Vault} (hv : v.Sound) {scope : Scope} {plaintext : Bytes} {envelope : Envelope}
    (h : v.Carries scope plaintext envelope) {provider : KeyProvider}
    (havailable : KeyAvailable v.cipher provider envelope) :
    decrypt v.cipher provider scope envelope = .ok plaintext := by
  obtain ⟨w, hw, value, hat, rfl, rfl, rfl⟩ := h
  obtain ⟨s, hs, htext, hresolve⟩ := havailable
  obtain ⟨_, _, hsealed⟩ := hv.wrap_sealed w hw
  obtain rfl := hv.distinct.eq_of_ciphertext hs hsealed htext
  exact hv.decrypt_iff.2 ⟨w, hw, value, hat, rfl, rfl, hresolve, rfl⟩

def Refused (result : Except CryptoError Bytes) : Prop := ∃ e, result = .error e

theorem refused_of_not_ok {result : Except CryptoError Bytes} (h : ∀ plaintext, result ≠ .ok plaintext) :
    Refused result := by
  cases result with
  | error e => exact ⟨e, rfl⟩
  | ok plaintext => exact absurd rfl (h plaintext)

-- An envelope is bound to its scope: through every chain of rewraps it decrypts for the scope it was made for and for
-- no other, its parts cannot be combined with those of another envelope, and its value is never touched.
theorem envelope_bound_to_scope {v : Vault} (hv : vaultSystem.Reachable v) :
    (∀ i envelope, (i, envelope) ∈ v.lineage → ∃ value, v.values[i]? = some value ∧
      (∀ provider, KeyAvailable v.cipher provider envelope →
        decrypt v.cipher provider value.scope envelope = .ok value.plaintext) ∧
      ∀ provider scope, scope ≠ value.scope → Refused (decrypt v.cipher provider scope envelope)) ∧
    (∀ i value, v.values[i]? = some value → ∀ w ∈ v.wraps, w.call ≠ i → ∀ provider scope envelope,
      envelope.ciphertext = value.ciphertext → envelope.wrappedDEK = w.text →
        Refused (decrypt v.cipher provider scope envelope)) ∧
    (∀ w ∈ v.wraps, ∀ provider scope envelope, envelope.wrappedDEK = w.text → envelope.kekID ≠ w.keyID →
      Refused (decrypt v.cipher provider scope envelope)) ∧
    ∀ provider reserve wrapped scope envelope result,
      rewrap v.cipher provider reserve wrapped scope envelope = .ok result →
        result.1.ciphertext = envelope.ciphertext := by
  have hsound := Vault.Sound.of_reachable hv
  refine ⟨?_, ?_, ?_, ?_⟩
  · intro i envelope hentry
    obtain ⟨w, hw, rfl, value, hat, rfl⟩ := hsound.lineage i envelope hentry
    refine ⟨value, hat, ?_, ?_⟩
    · intro provider havailable
      exact hsound.decrypt_carried ⟨w, hw, value, hat, rfl, rfl, rfl⟩ havailable
    · intro provider scope hscope
      refine refused_of_not_ok ?_
      intro plaintext h
      obtain ⟨w', hw', other, hat', hsame, rfl, _, _⟩ := hsound.decrypt_iff.1 h
      have htext : w.text = w'.text := congrArg Envelope.wrappedDEK hsame
      obtain ⟨hcall, _, _⟩ := hsound.wrap_unique hw hw' htext
      rw [hcall] at hat
      exact hscope (congrArg SealedValue.scope (Option.some.inj (hat'.symm.trans hat)))
  · intro i value hat w hw hcall provider scope envelope hciphertext htext
    refine refused_of_not_ok ?_
    intro plaintext h
    obtain ⟨w', hw', other, hat', rfl, _, _, _⟩ := hsound.decrypt_iff.1 h
    obtain ⟨hcall', _, _⟩ := hsound.wrap_unique hw' hw htext
    -- one value has one text
    have hsame := hsound.distinct.eq_of_ciphertext (hsound.value_sealed other (List.mem_of_getElem? hat'))
      (hsound.value_sealed value (List.mem_of_getElem? hat)) hciphertext
    have hindex := hsound.call_unique hat' hat (congrArg Sealing.key hsame)
    exact hcall (hcall'.symm.trans hindex)
  · intro w hw provider scope envelope htext hid
    refine refused_of_not_ok ?_
    intro plaintext h
    obtain ⟨w', hw', _, _, rfl, _, _, _⟩ := hsound.decrypt_iff.1 h
    exact hid (hsound.wrap_unique hw' hw htext).2.1
  · intro provider reserve wrapped scope envelope result h
    obtain ⟨_, _, _, _, rfl⟩ := rewrap_eq_ok h
    rfl

-- One value, sealed under the first of two keys and rewrapped to the second.
def sampleScope : Scope :=
  ⟨Bytes.ofString "owner", Bytes.ofString "project", Bytes.ofString "environment", Bytes.ofString "token",
    Bytes.ofString "version-1", runtimeText, runtimeText⟩

def otherScope : Scope := { sampleScope with secretVersionID := Bytes.ofString "version-2" }

def sampleSecret : Bytes := Bytes.ofString "hunter"

def firstID : Bytes := Bytes.ofString "k1"

def secondID : Bytes := Bytes.ofString "k2"

def firstKey : Bytes := List.replicate 32 1

def secondKey : Bytes := List.replicate 32 2

def sampleRing (activeID : Bytes) : KeyRing := ⟨activeID, (Table.empty.put firstID firstKey).put secondID secondKey⟩

def sampleDraw : Draw := ⟨List.replicate 32 3, List.replicate 34 4, List.replicate 60 5⟩

def sampleWrapped : Bytes := List.replicate 60 6

def sampleVault : Vault := Vault.empty.encrypted firstID firstKey sampleDraw sampleScope sampleSecret

def sampleEnvelope : Envelope := (sealEnvelope [] firstID firstKey sampleDraw sampleScope sampleSecret).1

def rewrappedVault : Vault :=
  sampleVault.rewrapped secondID secondKey sampleDraw.dek sampleWrapped sampleScope sampleEnvelope

theorem sampleVault_step : Vault.Step Vault.empty sampleVault := by
  have hfresh : Vault.empty.FreshDraw sampleSecret sampleDraw := by
    constructor
    all_goals decide
  have hencrypt : encrypt Vault.empty.cipher (sampleRing firstID).provider (fun _ => true) (some sampleDraw) sampleScope
      sampleSecret = .ok (sealEnvelope [] firstID firstKey sampleDraw sampleScope sampleSecret) :=
    ok_of_toOption (by decide)
  have hactive : (sampleRing firstID).provider.active = .ok (firstID, firstKey) := ok_of_toOption (by decide)
  have hstep := Vault.Step.encrypt hfresh hencrypt hactive
  exact hstep

theorem rewrappedVault_step : Vault.Step sampleVault rewrappedVault := by
  have hfresh : sampleVault.FreshWrap sampleWrapped := by
    constructor
    all_goals decide
  have hrewrap : rewrap sampleVault.cipher (sampleRing secondID).provider (fun _ => true) sampleWrapped sampleScope
      sampleEnvelope =
        .ok (sealRewrapped sampleVault.cipher secondID secondKey sampleDraw.dek sampleWrapped sampleScope sampleEnvelope) :=
    ok_of_toOption (by decide)
  have hkeys : rewrapKeys sampleVault.cipher (sampleRing secondID).provider sampleScope sampleEnvelope =
      .ok (sampleDraw.dek, secondID, secondKey) := ok_of_toOption (by decide)
  have hstep := Vault.Step.rewrap hfresh hrewrap hkeys
  exact hstep

theorem rewrappedVault_reachable : vaultSystem.Reachable rewrappedVault :=
  ((System.Reachable.of_initial rfl).step sampleVault_step).step rewrappedVault_step

def rewrappedEnvelope : Envelope :=
  (sealRewrapped sampleVault.cipher secondID secondKey sampleDraw.dek sampleWrapped sampleScope sampleEnvelope).1

theorem envelope_bound_to_scope_rewrapped :
    vaultSystem.Reachable rewrappedVault ∧ (0, rewrappedEnvelope) ∈ rewrappedVault.lineage ∧
      decrypt rewrappedVault.cipher (sampleRing secondID).provider sampleScope rewrappedEnvelope = .ok sampleSecret ∧
      Refused (decrypt rewrappedVault.cipher (sampleRing secondID).provider otherScope rewrappedEnvelope) := by
  have hentry : (0, rewrappedEnvelope) ∈ rewrappedVault.lineage := by decide
  have hdiffer : otherScope ≠ sampleScope := by decide
  have havailable : KeyAvailable rewrappedVault.cipher (sampleRing secondID).provider rewrappedEnvelope :=
    ⟨_, List.mem_cons_self, rfl, ok_of_toOption (by decide)⟩
  obtain ⟨value, hat, hsame, hother⟩ := (envelope_bound_to_scope rewrappedVault_reachable).1 0 rewrappedEnvelope hentry
  have hvalue : value = ⟨sampleScope, sampleSecret, sampleDraw.dek, sampleDraw.value⟩ :=
    List.mem_singleton.1 (List.mem_of_getElem? hat)
  subst hvalue
  exact ⟨rewrappedVault_reachable, hentry, hsame _ havailable, hother _ otherScope hdiffer⟩

end AutoDeploy.Crypto
