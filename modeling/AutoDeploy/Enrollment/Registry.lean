import AutoDeploy.Lib.Base64
import AutoDeploy.Store.Access

namespace AutoDeploy.Enrollment

open Lib Lib.Result Store

-- Tokens are text: a prefix and 32 random bytes.
def credentialTokenPrefix : Bytes := Bytes.ofString "srv.v1."

def tokenRawBytes : Nat := 32

def tokenEncodedBytes : Nat := 43

def newCredentialToken (raw : Bytes) : Bytes := credentialTokenPrefix ++ Base64.encode raw

def decodeToken (value tokenPrefix : Bytes) : Option Bytes :=
  if value.length ≠ tokenPrefix.length + tokenEncodedBytes ∨ tokenPrefix.isPrefixOf value = false then none
  else do
    let encoded := value.drop tokenPrefix.length
    let raw ← Base64.decode encoded
    if raw.length = tokenRawBytes ∧ Base64.encode raw = encoded then pure raw else none

def domainDigest (domain : String) (raw : Bytes) : Digest := Sha256.sum (Bytes.ofString domain ++ [0] ++ raw)

def credentialTokenDigest (token : Bytes) : Option Digest :=
  (decodeToken token credentialTokenPrefix).map (domainDigest "autodeploy/server-credential-token/v1")

-- server_enrollment_tokens, keyed by server.
structure TokenRow where
  digest : Digest
  issuedAt : Nat
  expiresAt : Nat
  consumedAt : Option Nat
deriving DecidableEq

-- server_credentials, keyed by server and version.
structure CredentialRow where
  digest : Digest
  status : ServerStatus
deriving DecidableEq

structure Registry where
  servers : Table String ServerStatus
  tokens : Table String TokenRow
  credentials : Table (String × Nat) CredentialRow

inductive EnrollError where
  | authorizationDenied
  | database
deriving DecidableEq, Repr

-- The transaction of `Enroll`: the enrollment token is consumed and version 1 of the credential inserted.
def Registry.enroll (now : Nat) (db : Registry) (serverID : String) (enrollmentDigest credentialDigest : Digest) :
    Except EnrollError (Registry × Nat) := do
  require (validOpaqueID serverID) .authorizationDenied
  let foundServer := db.servers.get? serverID = some .active
  let token := if foundServer then db.tokens.get? serverID else none
  let stored := (token.map TokenRow.digest).getD dummyCredentialDigest
  let live := token.all fun row => row.consumedAt.isNone && decide (now < row.expiresAt)
  require (foundServer ∧ token.isSome ∧ live ∧ stored = enrollmentDigest) .authorizationDenied
  let row ← found token .authorizationDenied
  require (row.issuedAt ≤ now) .database
  let consumed := db.tokens.put serverID { row with consumedAt := some now }
  require (db.credentials.get? (serverID, 1) = none) .authorizationDenied
  require (db.credentials.any (fun key row => key.1 == serverID && row.status == .active) = false) .authorizationDenied
  let issued := db.credentials.put (serverID, 1) ⟨credentialDigest, .active⟩
  pure ({ db with tokens := consumed, credentials := issued }, 1)

theorem Registry.enroll_eq_ok {now version : Nat} {db db' : Registry} {serverID : String}
    {enrollmentDigest credentialDigest : Digest}
    (h : db.enroll now serverID enrollmentDigest credentialDigest = .ok (db', version)) :
    version = 1 ∧ db.credentials.get? (serverID, 1) = none ∧
      db'.credentials = db.credentials.put (serverID, 1) ⟨credentialDigest, .active⟩ := by
  simp only [Registry.enroll, bind_eq_ok, require_eq_ok, found_eq_ok, pure_eq_ok, Prod.mk.injEq] at h
  obtain ⟨_, _, _, _, row, _, _, _, _, hnone, _, _, rfl, rfl⟩ := h
  exact ⟨rfl, hnone, rfl⟩

end AutoDeploy.Enrollment
