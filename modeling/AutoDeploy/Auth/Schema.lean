import AutoDeploy.Lib.TableSize
import AutoDeploy.Lib.Sha256

namespace AutoDeploy.Auth

open Lib

-- Times are microseconds since the zero time of the source, whose value is 0.
def minutes (n : Nat) : Nat := n * 60000000

inductive ThrottleKind where
  | pair
  | ip
  | username
  | invalidForward
deriving DecidableEq, Repr

def zeroDigest : Digest := ⟨List.replicate 32 0, by simp⟩

theorem length_constant (b : UInt8) : (List.replicate 32 b).length = 32 := List.length_replicate

-- A keyed digest under one key version.
structure ThrottleAlias where
  keyVersion : String
  digest : Digest
deriving DecidableEq

structure ThrottleIdentity where
  kind : ThrottleKind
  keyVersion : String
  digest : Digest
  aliases : List ThrottleAlias
  recoveryUserID : String
deriving DecidableEq

namespace ThrottleIdentity

def primary (identity : ThrottleIdentity) : ThrottleAlias := ⟨identity.keyVersion, identity.digest⟩

-- Every key the identity may be counted under: the active one first.
def candidates (identity : ThrottleIdentity) : List ThrottleAlias := identity.primary :: identity.aliases

end ThrottleIdentity

structure ThrottleReservation where
  blockedUntil : Nat
  allowed : Bool
deriving DecidableEq, Repr

-- The kind column: a kind, or its overflow.
inductive BucketKind where
  | own (kind : ThrottleKind)
  | overflow (kind : ThrottleKind)
deriving DecidableEq

-- auth_throttle_buckets. Its created_at and updated_at are never read.
structure BucketKey where
  kind : BucketKind
  key : ThrottleAlias
  window : Nat
deriving DecidableEq

structure BucketRow where
  attempts : Nat
  failures : Nat
  blockedUntil : Option Nat
  recoveryUserID : Option String
deriving DecidableEq

-- auth_username_throttles, keyed by key version and digest.
structure UsernameRow where
  failures : Nat
  blockedUntil : Option Nat
  updatedAt : Nat
deriving DecidableEq

@[ext] structure PasswordVerifier where
  phc : Bytes
  policyRevision : Nat
deriving DecidableEq

structure Argon2Policy where
  revision : Nat
  memoryKiB : Nat
  iterations : Nat
  lanes : Nat
deriving DecidableEq

inductive UserStatus where
  | active
  | disabled
deriving DecidableEq

-- users, keyed by id. The username, the role and the times of a user are not read by the transactions below.
structure UserRow where
  ownerID : String
  verifier : PasswordVerifier
  authRevision : Nat
  status : UserStatus
deriving DecidableEq

inductive RevokedReason where
  | logout
  | sessionLimit
  | passwordReset
deriving DecidableEq

-- admin_sessions, keyed by id.
structure SessionRow where
  tokenDigest : Digest
  userID : String
  ownerID : String
  authRevision : Nat
  createdAt : Nat
  lastSeenAt : Nat
  idleExpiresAt : Nat
  absoluteExpiresAt : Nat
  revoked : Option (Nat × RevokedReason)
deriving DecidableEq

inductive AuditAction where
  | loginSuccess
  | logout
  | sessionRevoked
  | passwordReset
deriving DecidableEq

-- auth_audit_events, keyed by id.
structure AuditRow where
  actorUserID : String
  ownerID : String
  action : AuditAction
deriving DecidableEq

-- The administrator tables. `maxRows` is the single row of auth_throttle_state and `policy` that of
-- installation_auth once it is bootstrapped.
structure DB where
  maxRows : Option Nat
  buckets : Table BucketKey BucketRow
  usernames : Table ThrottleAlias UsernameRow
  policy : Option Argon2Policy
  users : Table String UserRow
  sessions : Table String SessionRow
  audits : Table String AuditRow

inductive AuthError where
  | invalid (message : String)
  | database (message : String)
  | unauthenticated
  | sessionRevoked
  | revisionOverflow
deriving DecidableEq, Repr

-- The rows the cap counts.
def DB.throttleRows (db : DB) : Nat := db.buckets.size + db.usernames.size

end AutoDeploy.Auth
