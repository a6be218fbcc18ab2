import AutoDeploy.Auth.Csrf
import AutoDeploy.Lib.Forms
import AutoDeploy.Lib.Prefixed

namespace AutoDeploy.Auth

open Lib

-- Every function that authenticates something under a CSRF key.
inductive MacCall where
  | newSessionCSRF (ring : CSRFKeyRing) (sessionID origin : Bytes)
  | validateSessionCSRF (ring : CSRFKeyRing) (token sessionID origin : Bytes)
  | newLoginCSRF (ring : CSRFKeyRing) (nonce : LoginNonce) (origin : Bytes)
  | validateLoginCSRF (ring : CSRFKeyRing) (token : Bytes) (nonce : LoginNonce) (origin : Bytes)
  | newLoginEnvelope (ring : CSRFKeyRing) (nonce : LoginNonce) (issuedAt : Instant) (origin : Bytes)
  | parseLoginEnvelope (ring : CSRFKeyRing) (value : Bytes) (now : Instant) (origin : Bytes)
  | throttleDigest (key : Bytes) (domain : String) (components : List Bytes)

inductive MacKind where
  | sessionCSRF
  | loginCSRF
  | loginEnvelope
  | throttle
deriving DecidableEq, Repr

def MacCall.kind : MacCall → MacKind
  | .newSessionCSRF .. | .validateSessionCSRF .. => .sessionCSRF
  | .newLoginCSRF .. | .validateLoginCSRF .. => .loginCSRF
  | .newLoginEnvelope .. | .parseLoginEnvelope .. => .loginEnvelope
  | .throttleDigest .. => .throttle

-- What a call authenticates, with the keys.
def MacCall.log (parse : Bytes → Option URL) : MacCall → List (Bytes × MacUse)
  | .newSessionCSRF ring sessionID origin => (Auth.newSessionCSRF parse ring sessionID origin).log
  | .validateSessionCSRF ring token sessionID origin => (Auth.validateSessionCSRF parse ring token sessionID origin).log
  | .newLoginCSRF ring nonce origin => (Auth.newLoginCSRF parse ring nonce origin).log
  | .validateLoginCSRF ring token nonce origin => (Auth.validateLoginCSRF parse ring token nonce origin).log
  | .newLoginEnvelope ring nonce issuedAt origin => (Auth.newLoginEnvelope parse ring nonce issuedAt origin).log
  | .parseLoginEnvelope ring value now origin => (Auth.parseLoginEnvelope parse ring value now origin).log
  | .throttleDigest key domain components => (throttleMacs key domain components).log

-- The domains of the throttle digests of the login handler.
def throttleDomains : List String := ["pair", "invalid-username-pair", "ip", "invalid-username", "invalid-forward"]

def MacUse.kind : MacUse → MacKind
  | .csrf .session _ _ => .sessionCSRF
  | .csrf .login _ _ => .loginCSRF
  | .loginEnvelope .. => .loginEnvelope
  | .throttle .. => .throttle

-- The text before the first zero byte.
def MacKind.label : MacKind → String
  | .sessionCSRF => "autodeploy/session-csrf/v1"
  | .loginCSRF => "autodeploy/login-csrf/v1"
  | .loginEnvelope => "autodeploy/login-envelope/v1"
  | .throttle => "autodeploy/throttle/v1"

-- The inputs that a message stands for.
inductive MacInput where
  | sessionCSRF (sessionID origin : Bytes)
  | loginCSRF (nonce origin : Bytes)
  | loginEnvelope (keyVersion : String) (issued : Nat) (nonce origin : Bytes)
  | throttle (domain : String) (components : List Bytes)

def MacUse.input : MacUse → MacInput
  | .csrf .session context origin => .sessionCSRF context origin
  | .csrf .login context origin => .loginCSRF context origin
  | .loginEnvelope _ keyVersion payload origin =>
      .loginEnvelope keyVersion (ofBigEndian (payload.take 8)) ((payload.drop 8).take 32) origin
  | .throttle domain components => .throttle domain components

-- What the inputs of a call are, with its origin in canonical form. An envelope that is read carries its own key
-- version, issue time and nonce.
def MacCall.Inputs (parse : Bytes → Option URL) : MacCall → MacInput → Prop
  | .newSessionCSRF _ sessionID origin, input | .validateSessionCSRF _ _ sessionID origin, input =>
      ∃ canonical, canonicalHTTPSOrigin parse origin = some canonical ∧ input = .sessionCSRF sessionID canonical
  | .newLoginCSRF _ nonce origin, input | .validateLoginCSRF _ _ nonce origin, input =>
      ∃ canonical, canonicalHTTPSOrigin parse origin = some canonical ∧ input = .loginCSRF nonce.bytes canonical
  | .newLoginEnvelope ring nonce issuedAt origin, input =>
      ∃ canonical, canonicalHTTPSOrigin parse origin = some canonical ∧
        input = .loginEnvelope ring.activeVersion (issuedAt.utc.truncate 1000000000).unix.toNat nonce.bytes canonical
  | .parseLoginEnvelope _ _ _ origin, input =>
      ∃ keyVersion issued nonce canonical, canonicalHTTPSOrigin parse origin = some canonical ∧
        input = .loginEnvelope keyVersion issued nonce canonical
  | .throttleDigest _ domain components, input => input = .throttle domain components

-- What is known of a message's fields once its function has made its checks.
inductive MacUse.Checked (parse : Bytes → Option URL) : MacUse → Prop
  | csrf {domain context value origin} (horigin : canonicalHTTPSOrigin parse value = some origin) :
      Checked parse (.csrf domain context origin)
  | loginEnvelope {keyVersion payload value origin} (hversion : validKeyVersion keyVersion = true)
      (hpayload : payload.length = 40) (horigin : canonicalHTTPSOrigin parse value = some origin) :
      Checked parse (.loginEnvelope "v1" keyVersion payload origin)
  | throttle {domain components} (hcomponents : components ≠ [])
      (hlengths : ∀ component ∈ components, component.length ≤ 256) : Checked parse (.throttle domain components)

-- What follows the label and its zero byte.
def MacUse.body : MacUse → Bytes
  | .csrf _ context origin => context ++ 0 :: origin
  | .loginEnvelope envelopeVersion keyVersion payload origin =>
      Bytes.ofString envelopeVersion ++ 0 :: (Bytes.ofString keyVersion ++ 0 :: (payload.take 8 ++ 0 ::
        ((payload.drop 8).take 32 ++ 0 :: origin)))
  | .throttle domain components => Bytes.ofString domain ++ Bytes.prefixed 2 components

theorem message_eq (use : MacUse) : use.message = Bytes.ofString use.kind.label ++ 0 :: use.body := by
  cases use with
  | csrf domain context origin =>
      cases domain <;> simp only [MacUse.message, MacUse.body, MacUse.kind, MacKind.label, CsrfDomain.label,
        List.append_assoc, List.nil_append, List.cons_append]
  | loginEnvelope envelopeVersion keyVersion payload origin =>
      simp only [MacUse.message, MacUse.body, MacUse.kind, MacKind.label, List.append_assoc, List.nil_append,
        List.cons_append]
  | throttle domain components =>
      simp only [MacUse.message, MacUse.body, MacUse.kind, MacKind.label, List.append_assoc, List.nil_append,
        List.cons_append, Bytes.prefixed]

theorem zero_notMem_label (kind : MacKind) : 0 ∉ Bytes.ofString kind.label := by
  cases kind <;> decide

theorem label_injective {kind kind' : MacKind} (h : Bytes.ofString kind.label = Bytes.ofString kind'.label) :
    kind = kind' := by
  cases kind <;> cases kind' <;> first | rfl | exact absurd h (by decide)

-- The label ends at the first zero byte, whatever the fields hold.
theorem kind_of_message {use use' : MacUse} (h : use.message = use'.message) :
    use.kind = use'.kind ∧ use.body = use'.body := by
  rw [message_eq, message_eq use'] at h
  obtain ⟨hlabel, hbody⟩ := Form.cut_unique (zero_notMem_label _) (zero_notMem_label _) h
  exact ⟨label_injective hlabel, hbody⟩

theorem zero_notMem_ofString {s : String} (h : ∀ c ∈ s.toList, c.toNat ≠ 0) : 0 ∉ Bytes.ofString s := by
  intro hmem
  rw [Utf8.ofString_eq_encode] at hmem
  obtain ⟨c, hc, hbyte⟩ := List.mem_flatMap.1 hmem
  exact h c hc (Unicode.eq_zero_of_zero_mem_encodeChar hbyte)

theorem zero_notMem_keyVersion {version : String} (h : validKeyVersion version = true) :
    0 ∉ Bytes.ofString version := by
  apply zero_notMem_ofString
  intro c hc hzero
  simp only [validKeyVersion, Bool.and_eq_true, List.all_eq_true] at h
  have hchar := h.2 c hc
  have hc : c = Char.ofNat 0 := Unicode.eq_of_toNat_eq hzero
  rw [hc] at hchar
  exact absurd hchar (by decide)

theorem zero_notMem_decimal (n : Nat) : 0 ∉ Bytes.ofString (toString n) :=
  fun hmem => absurd (Bytes.mem_decimal hmem).1 (by decide)

section

variable {parse : Bytes → Option URL}

theorem cutLast_mem {sep b : UInt8} {s before after : Bytes} (h : cutLast sep s = some (before, after))
    (hb : b ∈ before) : b ∈ s := by
  induction s generalizing before with
  | nil => cases h
  | cons c rest ih =>
      simp only [cutLast] at h
      split at h
      · rename_i front back hrest
        obtain ⟨rfl, rfl⟩ := Prod.mk.inj (Option.some.inj h)
        rcases List.mem_cons.1 hb with rfl | hb
        · exact List.mem_cons_self
        · exact List.mem_cons_of_mem _ (ih hrest hb)
      · split at h
        · obtain ⟨rfl, rfl⟩ := Prod.mk.inj (Option.some.inj h)
          exact absurd hb List.not_mem_nil
        · cases h

theorem stripBrackets_mem {b : UInt8} {host : Bytes} (hb : b ∈ stripBrackets host) : b ∈ host := by
  unfold stripBrackets at hb
  split at hb
  · exact List.mem_of_mem_tail ((List.dropLast_sublist _).subset hb)
  · exact hb

theorem hostname_mem {b : UInt8} {u : URL} (hb : b ∈ u.hostname) : b ∈ u.host := by
  unfold URL.hostname splitHostPort at hb
  split at hb
  · rename_i host port hcut
    split at hb
    · exact cutLast_mem hcut (stripBrackets_mem hb)
    · exact stripBrackets_mem hb
  · exact stripBrackets_mem hb

theorem zero_notMem_bracketed {host : Bytes} (h : 0 ∉ host) : 0 ∉ bracketed host := by
  unfold bracketed
  split
  · simp [h]
  · exact h

-- An origin is a scheme, a host of the parser and perhaps a number: none of them has a zero byte.
theorem zero_notMem_origin (hparse : ∀ value u, parse value = some u → 0 ∉ u.host) {value origin : Bytes}
    (h : canonicalHTTPSOrigin parse value = some origin) : 0 ∉ origin := by
  have hscheme : 0 ∉ Bytes.ofString "https://" := by decide
  unfold canonicalHTTPSOrigin at h
  obtain ⟨u, hu, h⟩ := Option.bind_eq_some_iff.1 h
  have hhost : 0 ∉ Unicode.lowerBytes u.hostname :=
    Unicode.zero_notMem_lowerBytes fun hmem => hparse value u hu (hostname_mem hmem)
  have hbare : 0 ∉ Bytes.ofString "https://" ++ bracketed (Unicode.lowerBytes u.hostname) := by
    simp only [List.mem_append, hscheme, zero_notMem_bracketed hhost, or_self, not_false_eq_true]
  split at h
  · cases h
  simp only at h
  split at h
  · cases h
  split at h
  · cases h
  split at h
  · split at h
    · cases h
    · cases h
    · cases h
      exact hbare
    · rename_i port _ _ _
      cases h
      simp only [joinHostPort, List.mem_append, hscheme, zero_notMem_bracketed hhost, zero_notMem_decimal,
        List.mem_singleton, or_false, false_or]
      decide
  · cases h
    exact hbare

theorem csrf_of_body {domain domain' : CsrfDomain} {context context' origin origin' : Bytes}
    (horigin : 0 ∉ origin) (horigin' : 0 ∉ origin')
    (hbody : (MacUse.csrf domain context origin).body = (MacUse.csrf domain' context' origin').body) :
    context = context' ∧ origin = origin' := Form.cut_unique_last horigin horigin' hbody

theorem payload_parts {payload : Bytes} (h : payload.length = 40) :
    payload.take 8 ++ (payload.drop 8).take 32 = payload := by
  have hall : (payload.drop 8).take 32 = payload.drop 8 := by
    apply List.take_of_length_le
    rw [List.length_drop, h]
  rw [hall, List.take_append_drop]

theorem envelope_of_body {version keyVersion keyVersion' : String} {payload payload' origin origin' : Bytes}
    (hversion : validKeyVersion keyVersion = true) (hversion' : validKeyVersion keyVersion' = true)
    (hpayload : payload.length = 40) (hpayload' : payload'.length = 40)
    (hbody : (MacUse.loginEnvelope version keyVersion payload origin).body =
      (MacUse.loginEnvelope version keyVersion' payload' origin').body) :
    keyVersion = keyVersion' ∧ payload = payload' ∧ origin = origin' := by
  have hfields := (List.cons.inj (List.append_cancel_left hbody)).2
  obtain ⟨hkey, hrest⟩ := Form.cut_unique (zero_notMem_keyVersion hversion) (zero_notMem_keyVersion hversion') hfields
  obtain ⟨htime, hrest⟩ := List.append_inj hrest (by simp [hpayload, hpayload'])
  obtain ⟨hnonce, hrest⟩ := List.append_inj (List.cons.inj hrest).2 (by simp [hpayload, hpayload'])
  refine ⟨Bytes.ofString_injective hkey, ?_, (List.cons.inj hrest).2⟩
  rw [← payload_parts hpayload, htime, hnonce, payload_parts hpayload']

-- No domain has a byte that a component's length can start with.
def domainByte (b : UInt8) : Bool := decide (1 < b)

theorem throttleDomains_bytes : (throttleDomains.all fun domain => (Bytes.ofString domain).all domainByte) = true := by
  decide

theorem prefixed_head {component : Bytes} (h : component.length ≤ 256) (rest : List Bytes) :
    ∃ b tail, Bytes.prefixed 2 (component :: rest) = b :: tail ∧ domainByte b = false := by
  refine ⟨UInt8.ofNat (component.length / 256), UInt8.ofNat component.length :: (component ++ Bytes.prefixed 2 rest),
    by simp only [Bytes.prefixed_cons, Bytes.bigEndian, List.nil_append, List.cons_append], ?_⟩
  have hsmall : component.length / 256 ≤ 1 := by omega
  have hnot : ¬ 1 < UInt8.ofNat (component.length / 256) := by
    rw [UInt8.lt_iff_toNat_lt, UInt8.toNat_ofNat', Nat.mod_eq_of_lt (by omega)]
    exact Nat.not_lt.2 hsmall
  simp only [domainByte, hnot, decide_false]

theorem throttle_of_body {domain domain' : String} {components components' : List Bytes}
    (hdomain : domain ∈ throttleDomains) (hdomain' : domain' ∈ throttleDomains)
    (hne : components ≠ []) (hne' : components' ≠ [])
    (hlengths : ∀ component ∈ components, component.length ≤ 256)
    (hlengths' : ∀ component ∈ components', component.length ≤ 256)
    (hbody : (MacUse.throttle domain components).body = (MacUse.throttle domain' components').body) :
    domain = domain' ∧ components = components' := by
  obtain ⟨component, rest, rfl⟩ := List.exists_cons_of_ne_nil hne
  obtain ⟨component', rest', rfl⟩ := List.exists_cons_of_ne_nil hne'
  obtain ⟨b, tail, hhead, hb⟩ := prefixed_head (hlengths component List.mem_cons_self) rest
  obtain ⟨b', tail', hhead', hb'⟩ := prefixed_head (hlengths' component' List.mem_cons_self) rest'
  have hbytes := List.all_eq_true.1 throttleDomains_bytes
  simp only [MacUse.body, hhead, hhead'] at hbody
  obtain ⟨hsame, hcomponents⟩ := Form.cut_class domainByte (List.all_eq_true.1 (hbytes domain hdomain))
    (List.all_eq_true.1 (hbytes domain' hdomain')) hb hb' hbody
  rw [← hhead, ← hhead'] at hcomponents
  refine ⟨Bytes.ofString_injective hsame, Bytes.prefixed_injective (show 0 < 2 by decide) ?_ ?_ hcomponents⟩
  · intro field hfield
    exact Nat.lt_of_le_of_lt (hlengths field hfield) (by decide)
  · intro field hfield
    exact Nat.lt_of_le_of_lt (hlengths' field hfield) (by decide)

-- A throttle digest of the login handler.
def MacUse.ofHandler : MacUse → Prop
  | .throttle domain _ => domain ∈ throttleDomains
  | _ => True

-- A message of one kind determines its fields: a zero byte inside a session ID or a nonce does no harm, as the
-- origin has none and the other fields have a fixed width.
theorem use_of_body (hparse : ∀ value u, parse value = some u → 0 ∉ u.host) {use use' : MacUse}
    (hchecked : use.Checked parse) (hchecked' : use'.Checked parse) (hkind : use.kind = use'.kind)
    (hhandler : use.ofHandler) (hhandler' : use'.ofHandler) (hbody : use.body = use'.body) : use = use' := by
  cases hchecked with
  | @csrf domain context value origin horigin =>
      cases hchecked' with
      | @csrf domain' context' value' origin' horigin' =>
          obtain ⟨rfl, rfl⟩ := csrf_of_body (zero_notMem_origin hparse horigin) (zero_notMem_origin hparse horigin') hbody
          have hdomain : domain = domain' := by
            cases domain <;> cases domain' <;> first | rfl | cases hkind
          rw [hdomain]
      | loginEnvelope => cases domain <;> cases hkind
      | throttle => cases domain <;> cases hkind
  | loginEnvelope hversion hpayload horigin =>
      cases hchecked' with
      | @csrf domain' => cases domain' <;> cases hkind
      | loginEnvelope hversion' hpayload' horigin' =>
          obtain ⟨rfl, rfl, rfl⟩ := envelope_of_body hversion hversion' hpayload hpayload' hbody
          rfl
      | throttle => cases hkind
  | throttle hne hlengths =>
      cases hchecked' with
      | @csrf domain' => cases domain' <;> cases hkind
      | loginEnvelope => cases hkind
      | throttle hne' hlengths' =>
          obtain ⟨rfl, rfl⟩ := throttle_of_body hhandler hhandler' hne hne' hlengths hlengths' hbody
          rfl

theorem foldl_bigEndian (n value k : Nat) :
    (Bytes.bigEndian n k).foldl (fun value b => value * 256 + b.toNat) value = value * 256 ^ k + n % 256 ^ k := by
  induction k generalizing n with
  | zero => simp [Bytes.bigEndian, Nat.mod_one]
  | succ k ih =>
      simp only [Bytes.bigEndian, List.foldl_append, ih, List.foldl_cons, List.foldl_nil, UInt8.toNat_ofNat']
      have hdigits : n % 256 ^ (k + 1) = n / 256 % 256 ^ k * 256 + n % 256 := by
        rw [pow_succ, Nat.mul_comm (256 ^ k) 256, Nat.mod_mul]
        omega
      have hvalue : value * 256 ^ (k + 1) = value * 256 ^ k * 256 := by rw [pow_succ, Nat.mul_assoc]
      rw [hdigits, hvalue]
      omega

theorem ofBigEndian_bigEndian {n : Nat} (h : n < 2 ^ 63) : ofBigEndian (Bytes.bigEndian n 8) = n := by
  rw [ofBigEndian, foldl_bigEndian]
  have hlarge : (2 : Nat) ^ 63 ≤ 256 ^ 8 := by decide
  rw [Nat.mod_eq_of_lt (Nat.lt_of_lt_of_le h hlarge)]
  omega

theorem length_envelopePayload (issued : Nat) (nonce : LoginNonce) : (envelopePayload issued nonce).length = 40 := by
  simp [envelopePayload, nonce.length_eq]

theorem unix_toNat_lt (t : Instant) : t.unix.toNat < 2 ^ 63 := by
  have hbound := Int.bmod_lt (x := t.nanoseconds / 1000000000 - 62135596800) (m := 2 ^ 64) (by decide)
  unfold Instant.unix
  omega

-- An entry of a call's log: a checked message of the call's kind, for the call's inputs.
def MacCall.Entry (parse : Bytes → Option URL) (call : MacCall) (use : MacUse) : Prop :=
  use.Checked parse ∧ use.kind = call.kind ∧ call.Inputs parse use.input

theorem csrfToken_log {ring : CSRFKeyRing} {domain : CsrfDomain} {context origin key : Bytes} {use : MacUse}
    (h : (key, use) ∈ (csrfToken parse ring domain context origin).log) :
    ∃ canonical, canonicalHTTPSOrigin parse origin = some canonical ∧ use = .csrf domain context canonical := by
  unfold csrfToken at h
  split at h
  · exact absurd h List.not_mem_nil
  split at h
  · exact absurd h List.not_mem_nil
  · rename_i canonical horigin
    exact ⟨canonical, horigin, (Prod.mk.inj (List.mem_singleton.1 h)).2⟩

theorem validateCSRF_log {ring : CSRFKeyRing} {token : Bytes} {domain : CsrfDomain} {context origin key : Bytes}
    {use : MacUse} (h : (key, use) ∈ (validateCSRF parse ring token domain context origin).log) :
    ∃ canonical, canonicalHTTPSOrigin parse origin = some canonical ∧ use = .csrf domain context canonical := by
  unfold validateCSRF at h
  split at h
  · exact absurd h List.not_mem_nil
  split at h
  · exact absurd h List.not_mem_nil
  rename_i canonical horigin
  split at h
  · exact absurd h List.not_mem_nil
  split at h
  · split at h
    · exact absurd h List.not_mem_nil
    split at h
    · split at h
      · exact absurd h List.not_mem_nil
      · exact ⟨canonical, horigin, (Prod.mk.inj (List.mem_singleton.1 h)).2⟩
    · exact absurd h List.not_mem_nil
  · exact absurd h List.not_mem_nil

theorem session_entry {call : MacCall} {sessionID origin : Bytes} {use : MacUse} (hkind : call.kind = .sessionCSRF)
    (hinputs : ∀ input, call.Inputs parse input ↔ ∃ canonical,
      canonicalHTTPSOrigin parse origin = some canonical ∧ input = .sessionCSRF sessionID canonical)
    (h : ∃ canonical, canonicalHTTPSOrigin parse origin = some canonical ∧ use = .csrf .session sessionID canonical) :
    call.Entry parse use := by
  obtain ⟨canonical, horigin, rfl⟩ := h
  exact ⟨.csrf horigin, hkind.symm, (hinputs _).2 ⟨canonical, horigin, rfl⟩⟩

theorem login_entry {call : MacCall} {nonce origin : Bytes} {use : MacUse} (hkind : call.kind = .loginCSRF)
    (hinputs : ∀ input, call.Inputs parse input ↔ ∃ canonical,
      canonicalHTTPSOrigin parse origin = some canonical ∧ input = .loginCSRF nonce canonical)
    (h : ∃ canonical, canonicalHTTPSOrigin parse origin = some canonical ∧ use = .csrf .login nonce canonical) :
    call.Entry parse use := by
  obtain ⟨canonical, horigin, rfl⟩ := h
  exact ⟨.csrf horigin, hkind.symm, (hinputs _).2 ⟨canonical, horigin, rfl⟩⟩

theorem newLoginEnvelope_entry {ring : CSRFKeyRing} {nonce : LoginNonce} {issuedAt : Instant} {origin key : Bytes}
    {use : MacUse} (h : (key, use) ∈ (newLoginEnvelope parse ring nonce issuedAt origin).log) :
    (MacCall.newLoginEnvelope ring nonce issuedAt origin).Entry parse use := by
  unfold newLoginEnvelope at h
  split at h
  · exact absurd h List.not_mem_nil
  rename_i hring
  split at h
  · exact absurd h List.not_mem_nil
  rename_i canonical horigin
  simp only at h
  split at h
  · exact absurd h List.not_mem_nil
  obtain ⟨-, rfl⟩ := Prod.mk.inj (List.mem_singleton.1 h)
  have hversion : validKeyVersion ring.activeVersion = true := by
    simp only [Bool.not_eq_false, CSRFKeyRing.validate, Bool.and_eq_true] at hring
    exact hring.1.1.1
  refine ⟨.loginEnvelope hversion (length_envelopePayload _ _) horigin, rfl, canonical, horigin, ?_⟩
  have htime (issued : Nat) : (envelopePayload issued nonce).take 8 = Bytes.bigEndian issued 8 :=
    List.take_left' (Bytes.length_bigEndian _ _)
  have hnonce (issued : Nat) : ((envelopePayload issued nonce).drop 8).take 32 = nonce.bytes := by
    rw [envelopePayload, List.drop_left' (Bytes.length_bigEndian _ _)]
    exact List.take_of_length_le (Nat.le_of_eq nonce.length_eq)
  simp only [MacUse.input, htime, hnonce, ofBigEndian_bigEndian (unix_toNat_lt _)]

theorem parseLoginEnvelope_entry {ring : CSRFKeyRing} {value : Bytes} {now : Instant} {origin key : Bytes}
    {use : MacUse} (h : (key, use) ∈ (parseLoginEnvelope parse ring value now origin).log) :
    (MacCall.parseLoginEnvelope ring value now origin).Entry parse use := by
  unfold parseLoginEnvelope at h
  split at h
  · exact absurd h List.not_mem_nil
  split at h
  · exact absurd h List.not_mem_nil
  rename_i canonical horigin
  split at h
  · exact absurd h List.not_mem_nil
  split at h
  · split at h
    · exact absurd h List.not_mem_nil
    split at h
    · rename_i version payload hknown _
      split at h
      · rename_i hpayload
        simp only at h
        split at h
        · exact absurd h List.not_mem_nil
        obtain ⟨-, rfl⟩ := Prod.mk.inj (List.mem_singleton.1 h)
        have hversion : validKeyVersion version = true := by
          have hfound := List.find?_some hknown
          simp only [Bool.and_eq_true] at hfound
          exact hfound.1
        refine ⟨.loginEnvelope hversion (by simp [hpayload.1]) horigin, rfl, version, _, _, canonical, horigin, rfl⟩
      · exact absurd h List.not_mem_nil
    · exact absurd h List.not_mem_nil
  · exact absurd h List.not_mem_nil

theorem throttle_entry {secret : Bytes} {domain : String} {components : List Bytes} {key : Bytes} {use : MacUse}
    (h : (key, use) ∈ (throttleMacs secret domain components).log) :
    (MacCall.throttleDigest secret domain components).Entry parse use := by
  unfold throttleMacs at h
  split at h
  · exact absurd h List.not_mem_nil
  rename_i digest hdigest
  obtain ⟨-, rfl⟩ := Prod.mk.inj (List.mem_singleton.1 h)
  unfold throttleDigest at hdigest
  split at hdigest
  · cases hdigest
  rename_i hinput
  split at hdigest
  · cases hdigest
  rename_i hlengths
  refine ⟨.throttle ?_ ?_, rfl, rfl⟩
  · rintro rfl
    simp at hinput
  · intro component hcomponent
    simp only [List.any_eq_true, decide_eq_true_eq, not_exists, not_and, not_or] at hlengths
    exact Nat.not_lt.1 (hlengths component hcomponent).2

theorem entry_of_log {call : MacCall} {key : Bytes} {use : MacUse} (h : (key, use) ∈ call.log parse) :
    call.Entry parse use := by
  cases call with
  | newSessionCSRF ring sessionID origin =>
      simp only [MacCall.log, newSessionCSRF] at h
      split at h
      · exact absurd h List.not_mem_nil
      · exact session_entry rfl (fun _ => Iff.rfl) (csrfToken_log h)
  | validateSessionCSRF ring token sessionID origin =>
      simp only [MacCall.log, validateSessionCSRF] at h
      split at h
      · exact absurd h List.not_mem_nil
      · exact session_entry rfl (fun _ => Iff.rfl) (validateCSRF_log h)
  | newLoginCSRF ring nonce origin => exact login_entry rfl (fun _ => Iff.rfl) (csrfToken_log h)
  | validateLoginCSRF ring token nonce origin => exact login_entry rfl (fun _ => Iff.rfl) (validateCSRF_log h)
  | newLoginEnvelope ring nonce issuedAt origin => exact newLoginEnvelope_entry h
  | parseLoginEnvelope ring value now origin => exact parseLoginEnvelope_entry h
  | throttleDigest secret domain components => exact throttle_entry h

-- Any two messages that the functions authenticate, under one key or two: they stand for the inputs of their
-- calls, messages of two kinds differ, and messages of one kind are equal for equal inputs only.
theorem mac_uses_never_overlap (hparse : ∀ value u, parse value = some u → 0 ∉ u.host) {call call' : MacCall}
    {key key' : Bytes} {use use' : MacUse} (h : (key, use) ∈ call.log parse) (h' : (key', use') ∈ call'.log parse) :
    call.Inputs parse use.input ∧ (call.kind ≠ call'.kind → use.message ≠ use'.message) ∧
      (use.ofHandler → use'.ofHandler → use.message = use'.message → use.input = use'.input) := by
  obtain ⟨hchecked, hkind, hinputs⟩ := entry_of_log h
  obtain ⟨hchecked', hkind', -⟩ := entry_of_log h'
  refine ⟨hinputs, fun hne hmessage => ?_, fun hhandler hhandler' hmessage => ?_⟩
  · apply hne
    rw [← hkind, ← hkind']
    exact (kind_of_message hmessage).1
  · obtain ⟨hkinds, hbody⟩ := kind_of_message hmessage
    rw [use_of_body hparse hchecked hchecked' hkinds hhandler hhandler' hbody]

end

def exampleOrigin : Bytes := Bytes.ofString "https://a.example"

-- The parser on one origin.
def exampleParse (value : Bytes) : Option URL :=
  if value = exampleOrigin then some ⟨Bytes.ofString "https", [], false, Bytes.ofString "a.example", [], [], false, []⟩
  else none

def exampleRing : CSRFKeyRing := ⟨"k1", Table.empty.put "k1" (List.replicate 32 7)⟩

-- A session whose ID is the nonce of a login: the two tokens have different messages.
theorem mac_uses_never_overlap_session_login :
    (MacUse.csrf .session (List.replicate 32 0) exampleOrigin).message ≠
      (MacUse.csrf .login (List.replicate 32 0) exampleOrigin).message := by
  have hparse : ∀ value u, exampleParse value = some u → 0 ∉ u.host := by
    intro value u h
    unfold exampleParse at h
    split at h
    · cases h
      decide
    · cases h
  have hsession : (List.replicate 32 7, MacUse.csrf .session (List.replicate 32 0) exampleOrigin) ∈
      (MacCall.newSessionCSRF exampleRing (List.replicate 32 0) exampleOrigin).log exampleParse := by decide
  have hlogin : (List.replicate 32 7, MacUse.csrf .login (List.replicate 32 0) exampleOrigin) ∈
      (MacCall.newLoginCSRF exampleRing ⟨List.replicate 32 0, rfl⟩ exampleOrigin).log exampleParse := by decide
  exact (mac_uses_never_overlap hparse hsession hlogin).2.1 (by decide)

end AutoDeploy.Auth
