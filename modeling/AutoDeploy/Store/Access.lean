import AutoDeploy.Store.Deployments

namespace AutoDeploy.Store

open Lib Lib.Result

-- Who is calling: a server with its bearer digest, or an administrator with a session.

def validOpaqueID (value : String) : Bool :=
  decide (0 < value.utf8ByteSize) && decide (value.utf8ByteSize ≤ 128) && !value.toList.contains '\x00'

def dummyCredentialDigest : Digest :=
  Sha256.sum (Bytes.ofString "autodeploy/server-repository/dummy-digest/v1")

def matchServerCredential (foundServer : Bool) (stored : Option Digest) (presented : Digest) : Bool :=
  foundServer && stored.isSome && stored.getD dummyCredentialDigest == presented

-- The server's owner, when the server and the presented credential are both active.
def lockActiveServerCredential (db : DB) (serverID : String) (presented : Digest) : Except Error String :=
  let server := (db.servers.get? serverID).filter fun s => s.status == .active
  let stored := (db.credentials.find? fun _ c => c.serverID == serverID && c.status == .active).map
    fun row => row.2.digest
  if matchServerCredential server.isSome stored presented then
    found (server.map Server.ownerID) (.sentinel .serverAuthorizationDenied)
  else .error (.sentinel .serverAuthorizationDenied)

structure Principal where
  userID : String
  ownerID : String
  sessionID : String
  authRevision : Nat
  isOwner : Bool
deriving DecidableEq, Repr

def Principal.valid (p : Principal) : Bool :=
  p.userID != "" && p.ownerID != "" && p.sessionID != "" && p.authRevision != 0 && p.isOwner

-- The session is live and its user is active, at the same authentication revision.
def administratorSessionLive (db : DB) (now : Nat) (p : Principal) : Bool :=
  match db.administration.sessions.get? p.sessionID, db.administration.users.get? p.userID with
  | some s, some u =>
      s.userID == p.userID && s.ownerID == p.ownerID && u.ownerID == s.ownerID &&
        s.authRevision == p.authRevision && u.authRevision == p.authRevision && u.active && !s.revoked &&
        decide (now < s.idleExpiresAt) && decide (now < s.absoluteExpiresAt)
  | _, _ => false

def lockAdministratorSession (db : DB) (now : Nat) (p : Principal) : Except Error Unit :=
  require (p.valid ∧ administratorSessionLive db now p) (.sentinel .serverAuthorizationDenied)

def validReason (reason : String) : Bool :=
  decide (reason.utf8ByteSize ≤ 512) &&
    reason.toList.all fun c => decide (0x20 ≤ c.toNat) && c.toNat != 0x7f

-- `octet_length BETWEEN 1 AND 128`
def validOperationID (id : String) : Bool :=
  decide (1 ≤ id.utf8ByteSize) && decide (id.utf8ByteSize ≤ 128)

def environmentOwnedBy (db : DB) (environmentID ownerID : String) : Bool :=
  db.jobs.any fun _ j => j.environmentID == environmentID && j.ownerID == ownerID

end AutoDeploy.Store
