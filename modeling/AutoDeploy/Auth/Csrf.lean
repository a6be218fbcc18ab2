import AutoDeploy.Auth.Identities
import AutoDeploy.Lib.Base64
import AutoDeploy.Lib.Instant
import AutoDeploy.Lib.Unicode

namespace AutoDeploy.Auth

open Lib

-- The fields of a parsed URL that an origin is read from.
structure URL where
  scheme : Bytes
  opaquePart : Bytes
  hasUser : Bool
  host : Bytes
  path : Bytes
  rawQuery : Bytes
  forceQuery : Bool
  fragment : Bytes

def isDigitByte (b : UInt8) : Bool := decide (48 ≤ b ∧ b ≤ 57)

-- What stands before and behind the last occurrence of a separator.
def cutLast (sep : UInt8) : Bytes → Option (Bytes × Bytes)
  | [] => none
  | b :: rest =>
      match cutLast sep rest with
      | some (before, after) => some (b :: before, after)
      | none => if b = sep then some ([], rest) else none

def stripBrackets (host : Bytes) : Bytes :=
  if host.head? = some 91 ∧ host.getLast? = some 93 then host.tail.dropLast else host

-- A colon splits off a port only when nothing but digits follows it.
def splitHostPort (hostPort : Bytes) : Bytes × Bytes :=
  match cutLast 58 hostPort with
  | some (host, port) => if port.all isDigitByte then (stripBrackets host, port) else (stripBrackets hostPort, [])
  | none => (stripBrackets hostPort, [])

def URL.hostname (u : URL) : Bytes := (splitHostPort u.host).1

def URL.port (u : URL) : Bytes := (splitHostPort u.host).2

-- strconv.ParseUint in base 10 for 16 bits.
def parseUint16 (digits : Bytes) : Option Nat :=
  if digits = [] ∨ digits.any (fun b => !isDigitByte b) then none
  else
    let value := digits.foldl (fun value b => value * 10 + (b.toNat - 48)) 0
    if value ≤ 65535 then some value else none

def bracketed (host : Bytes) : Bytes := if 58 ∈ host then [91] ++ host ++ [93] else host

def joinHostPort (host : Bytes) (port : Nat) : Bytes := bracketed host ++ [58] ++ Bytes.ofString (toString port)

section

-- The URL parser of the standard library.
variable (parse : Bytes → Option URL)

def canonicalHTTPSOrigin (value : Bytes) : Option Bytes := do
  let u ← parse value
  if Unicode.lowerBytes u.scheme ≠ Bytes.ofString "https" ∨ u.opaquePart ≠ [] ∨ u.host = [] ∨ u.hasUser = true ∨
      (u.path ≠ [] ∧ u.path ≠ [47]) ∨ u.rawQuery ≠ [] ∨ u.forceQuery = true ∨ u.fragment ≠ [] then none
  else
    let host := Unicode.lowerBytes u.hostname
    if host = [] ∨ 37 ∈ host ∨ (host.any fun b => decide (0x80 ≤ b)) = true then none
    else if 58 ∈ u.host ∧ u.port = [] ∧ u.host.getLast? ≠ some 93 then none
    else if u.port ≠ [] then
      match parseUint16 u.port with
      | none => none
      | some 0 => none
      | some 443 => some (Bytes.ofString "https://" ++ bracketed host)
      | some port => some (Bytes.ofString "https://" ++ joinHostPort host port)
    else some (Bytes.ofString "https://" ++ bracketed host)

end

-- The two kinds of CSRF token.
inductive CsrfDomain where
  | session
  | login
deriving DecidableEq, Repr

def CsrfDomain.label : CsrfDomain → String
  | .session => "autodeploy/session-csrf/v1"
  | .login => "autodeploy/login-csrf/v1"

-- What is authenticated under a CSRF key, with the fields that each kind of message is built from.
inductive MacUse where
  | csrf (domain : CsrfDomain) (context origin : Bytes)
  | loginEnvelope (envelopeVersion keyVersion : String) (payload origin : Bytes)
  | throttle (domain : String) (components : List Bytes)
deriving DecidableEq

def MacUse.message : MacUse → Bytes
  | .csrf domain context origin => Bytes.ofString domain.label ++ [0] ++ context ++ [0] ++ origin
  | .loginEnvelope envelopeVersion keyVersion payload origin =>
      Bytes.ofString "autodeploy/login-envelope/v1" ++ [0] ++ Bytes.ofString envelopeVersion ++ [0] ++
        Bytes.ofString keyVersion ++ [0] ++ payload.take 8 ++ [0] ++ (payload.drop 8).take 32 ++ [0] ++ origin
  | .throttle domain components =>
      Bytes.ofString "autodeploy/throttle/v1" ++ [0] ++ Bytes.ofString domain ++
        components.flatMap fun component => Bytes.bigEndian component.length 2 ++ component

-- A result together with the messages that were authenticated for it, each with its key.
structure Macs (α : Type) where
  value : α
  log : List (Bytes × MacUse)

namespace Macs

def none {α : Type} : Macs (Option α) := ⟨.none, []⟩

def map {α β : Type} (f : α → β) (x : Macs α) : Macs β := ⟨f x.value, x.log⟩

end Macs

def authenticate (key : Bytes) (use : MacUse) : Macs Digest := ⟨Hmac.sum key use.message, [(key, use)]⟩

def csrfMAC (key : Bytes) (domain : CsrfDomain) (context origin : Bytes) : Macs Digest :=
  authenticate key (.csrf domain context origin)

def loginEnvelopeMAC (key : Bytes) (envelopeVersion keyVersion : String) (payload origin : Bytes) : Macs Digest :=
  authenticate key (.loginEnvelope envelopeVersion keyVersion payload origin)

def CSRFKeyRing.key (ring : CSRFKeyRing) (version : String) : Bytes := (ring.keys.get? version).getD []

-- A token of a key version: `v1.` with the version and the text.
def versioned (version : String) (body : Bytes) : Bytes :=
  Bytes.ofString "v1." ++ Bytes.ofString version ++ Bytes.ofString "." ++ Base64.encode body

structure LoginNonce where
  bytes : Bytes
  length_eq : bytes.length = 32

structure LoginEnvelope where
  nonce : LoginNonce
  issuedAt : Instant

def loginEnvelopeMaxAge : Int := 600000000000

-- The first eight bytes of an envelope are the issue time, the next ones the nonce.
def envelopePayload (issued : Nat) (nonce : LoginNonce) : Bytes := Bytes.bigEndian issued 8 ++ nonce.bytes

def ofBigEndian (bytes : Bytes) : Nat := bytes.foldl (fun value b => value * 256 + b.toNat) 0

section

variable (parse : Bytes → Option URL)

def csrfToken (ring : CSRFKeyRing) (domain : CsrfDomain) (context origin : Bytes) : Macs (Option Bytes) :=
  if ring.validate = false then .none
  else
    match canonicalHTTPSOrigin parse origin with
    | none => .none
    | some origin =>
        (csrfMAC (ring.key ring.activeVersion) domain context origin).map fun mac =>
          some (versioned ring.activeVersion mac.bytes)

-- The key version of a token's middle part: the key ring holds valid versions only, so that the text of a
-- version it knows is the version itself.
def knownVersion (ring : CSRFKeyRing) (text : Bytes) : Option String :=
  (ring.keys.rows.map Prod.fst).find? fun version => validKeyVersion version && Bytes.ofString version == text

def validateCSRF (ring : CSRFKeyRing) (token : Bytes) (domain : CsrfDomain) (context origin : Bytes) : Macs Bool :=
  if ring.validate = false then ⟨false, []⟩
  else
    match canonicalHTTPSOrigin parse origin with
    | none => ⟨false, []⟩
    | some origin =>
        if token.length < 46 ∨ 79 < token.length then ⟨false, []⟩
        else
          match token.splitOn 46 with
          | [v1, version, body] =>
              if v1 ≠ Bytes.ofString "v1" ∨ body.length ≠ 43 then ⟨false, []⟩
              else
                match knownVersion ring version, Base64.decode body with
                | some version, some got =>
                    if Base64.encode got ≠ body then ⟨false, []⟩
                    else (csrfMAC (ring.key version) domain context origin).map fun mac => got == mac.bytes
                | _, _ => ⟨false, []⟩
          | _ => ⟨false, []⟩

def newSessionCSRF (ring : CSRFKeyRing) (sessionID origin : Bytes) : Macs (Option Bytes) :=
  if sessionID = [] then .none else csrfToken parse ring .session sessionID origin

def validateSessionCSRF (ring : CSRFKeyRing) (token sessionID origin : Bytes) : Macs Bool :=
  if sessionID = [] then ⟨false, []⟩ else validateCSRF parse ring token .session sessionID origin

def newLoginCSRF (ring : CSRFKeyRing) (nonce : LoginNonce) (origin : Bytes) : Macs (Option Bytes) :=
  csrfToken parse ring .login nonce.bytes origin

def validateLoginCSRF (ring : CSRFKeyRing) (token : Bytes) (nonce : LoginNonce) (origin : Bytes) : Macs Bool :=
  validateCSRF parse ring token .login nonce.bytes origin

def newLoginEnvelope (ring : CSRFKeyRing) (nonce : LoginNonce) (issuedAt : Instant) (origin : Bytes) :
    Macs (Option Bytes) :=
  if ring.validate = false then .none
  else
    match canonicalHTTPSOrigin parse origin with
    | none => .none
    | some origin =>
        let issued := (issuedAt.utc.truncate 1000000000).unix
        if issued < 0 then .none
        else
          let payload := envelopePayload issued.toNat nonce
          (loginEnvelopeMAC (ring.key ring.activeVersion) "v1" ring.activeVersion payload origin).map fun mac =>
            some (versioned ring.activeVersion (payload ++ mac.bytes))

def parseLoginEnvelope (ring : CSRFKeyRing) (value : Bytes) (now : Instant) (origin : Bytes) :
    Macs (Option LoginEnvelope) :=
  if ring.validate = false then .none
  else
    match canonicalHTTPSOrigin parse origin with
    | none => .none
    | some origin =>
        if value.length < 101 ∨ 132 < value.length then .none
        else
          match value.splitOn 46 with
          | [v1, version, body] =>
              if v1 ≠ Bytes.ofString "v1" ∨ body.length ≠ 96 then .none
              else
                match knownVersion ring version, Base64.decode body with
                | some version, some payload =>
                    if h : payload.length = 72 ∧ Base64.encode payload = body then
                      let issued := ofBigEndian (payload.take 8)
                      if 2 ^ 63 ≤ issued then .none
                      else
                        let issuedAt := Instant.ofUnix issued
                        (loginEnvelopeMAC (ring.key version) "v1" version (payload.take 40) origin).map fun mac =>
                          if payload.drop 40 ≠ mac.bytes ∨ now.utc.before issuedAt = true ∨
                              loginEnvelopeMaxAge < now.nanoseconds - issuedAt.nanoseconds then none
                          else some ⟨⟨(payload.drop 8).take 32, by simp [h.1]⟩, issuedAt⟩
                    else .none
                | _, _ => .none
          | _ => .none

end

-- The digest of the throttles, with the message behind it.
def throttleMacs (key : Bytes) (domain : String) (components : List Bytes) : Macs (Option Digest) :=
  match throttleDigest key domain components with
  | none => .none
  | some _ => (authenticate key (.throttle domain components)).map some

theorem throttleMacs_value (key : Bytes) (domain : String) (components : List Bytes) :
    (throttleMacs key domain components).value = throttleDigest key domain components := by
  unfold throttleMacs
  split
  · rename_i h
    rw [h]
    rfl
  · rename_i digest h
    rw [h]
    unfold throttleDigest at h
    split at h
    · cases h
    split at h
    · cases h
    · exact h

end AutoDeploy.Auth
