import AutoDeploy.Auth.Throttle
import AutoDeploy.Lib.Hmac
import Mathlib.Data.Char
import Mathlib.Data.List.Lex

namespace AutoDeploy.Auth

open Lib

-- The identities the login handler of the web package reserves for.

def isZeroKey (key : Bytes) : Bool := key.all fun b => b == 0

def validKeyVersion (version : String) : Bool :=
  decide (0 < version.utf8ByteSize) && decide (version.utf8ByteSize ≤ 32) && version.toList.all fun c =>
    decide ('a' ≤ c ∧ c ≤ 'z') || decide ('A' ≤ c ∧ c ≤ 'Z') || decide ('0' ≤ c ∧ c ≤ '9') || c == '_' || c == '-'

structure CSRFKeyRing where
  activeVersion : String
  keys : Table String Bytes

def CSRFKeyRing.validate (ring : CSRFKeyRing) : Bool :=
  validKeyVersion ring.activeVersion && decide (ring.keys.size ≠ 0 ∧ ring.keys.size ≤ 5) &&
    (ring.keys.get? ring.activeVersion).any (fun key => key.length == 32) &&
      ring.keys.rows.all fun entry => validKeyVersion entry.1 && entry.2.length == 32 && !isZeroKey entry.2

structure UsernameThrottleKeyRing where
  activeVersion : String
  keys : Table String Bytes
  retainedVersions : List String

def UsernameThrottleKeyRing.versions (ring : UsernameThrottleKeyRing) : List String :=
  ring.activeVersion :: ring.retainedVersions

def UsernameThrottleKeyRing.validate (ring : UsernameThrottleKeyRing) : Bool :=
  validKeyVersion ring.activeVersion && decide (ring.keys.size ≠ 0 ∧ ring.keys.size ≤ 5) &&
    decide (ring.retainedVersions.length ≤ 4) &&
    (ring.versions.all fun version => validKeyVersion version &&
      (ring.keys.get? version).any fun key => key.length == 32) &&
    decide ring.versions.Nodup && decide (ring.versions.length = ring.keys.size) &&
    (ring.keys.rows.all fun entry => validKeyVersion entry.1 && entry.2.length == 32 && !isZeroKey entry.2) &&
    decide (ring.keys.rows.map Prod.snd).Nodup

def lowerASCII (b : UInt8) : UInt8 := if 65 ≤ b ∧ b ≤ 90 then b + 32 else b

def usernameByte (b : UInt8) : Bool := decide (97 ≤ b ∧ b ≤ 122) || decide (48 ≤ b ∧ b ≤ 57)

def trimSpaces (value : Bytes) : Bytes :=
  ((value.dropWhile fun b => b == 32).reverse.dropWhile fun b => b == 32).reverse

-- ASCII spaces are trimmed and ASCII letters lowered; what is left has the form of a username.
def canonicalUsername (input : Bytes) : Option Bytes :=
  let value := trimSpaces input
  if value.length < 3 ∨ 64 < value.length ∨ (value.any fun b => decide (0x80 ≤ b)) then none
  else
    let canonical := value.map lowerASCII
    if canonical.head?.any usernameByte &&
        canonical.tail.all fun b => usernameByte b || b == 46 || b == 95 || b == 45 then some canonical
    else none

def throttleDigest (key : Bytes) (domain : String) (components : List Bytes) : Option Digest :=
  if key.length ≠ 32 ∨ isZeroKey key = true ∨ (Bytes.ofString domain).length = 0 ∨ 64 < (Bytes.ofString domain).length ∨
      components.length = 0 ∨ 3 < components.length then none
  else if components.any fun component => decide (component.length = 0 ∨ 256 < component.length) then none
  else some (Hmac.sum key (Bytes.ofString "autodeploy/throttle/v1" ++ [0] ++ Bytes.ofString domain ++
    components.flatMap fun component => Bytes.bigEndian component.length 2 ++ component))

-- Active, then retained.
def UsernameThrottleKeyRing.usernameDigests (ring : UsernameThrottleKeyRing) (username : Bytes) : Option (List Digest) :=
  if ring.validate = true ∧ canonicalUsername username = some username then
    some (ring.versions.map fun version => Hmac.sum ((ring.keys.get? version).getD [])
      (Bytes.ofString "autodeploy/username-throttle/v1" ++ [0] ++ username))
  else none

-- What `New` accepts of a configuration, as far as the throttles read it.
structure WebConfig where
  csrfKeys : CSRFKeyRing
  usernameThrottleKeys : UsernameThrottleKeyRing
  authThrottleMaxRows : Nat
  csrf_valid : csrfKeys.validate = true
  username_valid : usernameThrottleKeys.validate = true
  max_valid : 8 ≤ authThrottleMaxRows ∧ authThrottleMaxRows ≤ 100000

namespace WebConfig

variable (config : WebConfig)

def csrfKey (version : String) : Bytes := (config.csrfKeys.keys.get? version).getD []

-- The versions that are not active, in order.
def retainedVersions : List String :=
  ((config.csrfKeys.keys.rows.map Prod.fst).insertionSort fun x y => x.toList ≤ y.toList).filter fun version =>
    version != config.csrfKeys.activeVersion

-- An identity counted under the digests of one text, the active version's first.
def csrfIdentity (kind : ThrottleKind) (domain : String) (components : List Bytes) (userID : String) :
    Option ThrottleIdentity := do
  let aliases ← config.retainedVersions.mapM fun version =>
    (throttleDigest (config.csrfKey version) domain components).map fun digest => (⟨version, digest⟩ : ThrottleAlias)
  let digest ← throttleDigest (config.csrfKey config.csrfKeys.activeVersion) domain components
  pure ⟨kind, config.csrfKeys.activeVersion, digest, aliases, userID⟩

def usernameIdentity (username : Bytes) : Option ThrottleIdentity := do
  let digests ← config.usernameThrottleKeys.usernameDigests username
  let primary ← digests.head?
  pure ⟨.username, config.usernameThrottleKeys.activeVersion, primary,
    List.zipWith ThrottleAlias.mk config.usernameThrottleKeys.retainedVersions digests.tail, ""⟩

def pairIdentity (ip username : Bytes) (userID : String) (malformedUsername : Bool) : Option ThrottleIdentity :=
  if malformedUsername then
    config.csrfIdentity .pair "invalid-username-pair" [ip, Bytes.ofString "malformed"] userID
  else config.csrfIdentity .pair "pair" [ip, username] userID

def nameIdentity (username : Bytes) (malformedUsername : Bool) : Option ThrottleIdentity :=
  if malformedUsername then config.csrfIdentity .username "invalid-username" [Bytes.ofString "malformed"] ""
  else config.usernameIdentity username

-- Whether a digest fails does not depend on which of them is computed first.
def identities (ip username : Bytes) (userID : String) (malformedUsername : Bool) : Option (List ThrottleIdentity) := do
  let pair ← config.pairIdentity ip username userID malformedUsername
  let address ← config.csrfIdentity .ip "ip" [ip] ""
  let name ← config.nameIdentity username malformedUsername
  pure [pair, name, address]

end WebConfig

end AutoDeploy.Auth
