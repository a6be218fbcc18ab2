import AutoDeploy.Auth.Throttle
import AutoDeploy.Auth.Password
import Mathlib.Data.Char
import Mathlib.Data.List.Lex

namespace AutoDeploy.Auth

open Lib Lib.Result

def sessionTokenPrefix : Bytes := Bytes.ofString "v1."

def sessionTokenDigest (token : Bytes) : Option Digest :=
  if token.length ≠ sessionTokenPrefix.length + 43 ∨ sessionTokenPrefix.isPrefixOf token = false then none
  else do
    let encoded := token.drop sessionTokenPrefix.length
    let raw ← Base64.decode encoded
    if raw.length = 32 ∧ Base64.encode raw = encoded then
      pure (Sha256.sum (Bytes.ofString "autodeploy/session-token/v1" ++ [0] ++ raw))
    else none

structure LoginUser where
  id : String
  ownerID : String
  verifier : PasswordVerifier
  authRevision : Nat
  active : Bool

structure CompleteLoginInput where
  sessionID : String
  auditID : String
  sessionLimitAuditID : String
  token : Bytes
  user : LoginUser
  replacement : Option PasswordVerifier
  throttleIdentities : List ThrottleIdentity

def validateLoginIdentity (userID : String) (identity : ThrottleIdentity) : Except AuthError Unit :=
  match identity.kind with
  | .pair =>
      require (identity.recoveryUserID = userID) (.invalid "pair throttle recovery user does not match login user")
  | .username => .ok ()
  | .ip => .ok ()
  | .invalidForward => .error (.invalid "invalid successful login throttle identity")

def validateCompleteLogin (input : CompleteLoginInput) : Except AuthError Unit := do
  require (validID input.sessionID = true ∧ validID input.auditID = true) (.invalid "invalid identifier")
  require (validID input.sessionLimitAuditID = true ∧ input.sessionLimitAuditID ≠ input.auditID)
    (.invalid "invalid distinct session-limit audit identifier")
  require (validID input.user.id = true ∧ validID input.user.ownerID = true ∧ input.user.authRevision ≠ 0)
    (.invalid "invalid login user")
  validateThrottleIdentities input.throttleIdentities 8
  require (input.throttleIdentities.length = 3) (.invalid "invalid successful login throttle identities")
  input.throttleIdentities.forM (validateLoginIdentity input.user.id)
  let kinds := input.throttleIdentities.map fun identity => identity.kind
  require (kinds.count .pair = 1 ∧ kinds.count .username = 1 ∧ kinds.count .ip = 1)
    (.invalid "invalid successful login throttle identities")
  require (∀ verifier ∈ input.replacement, validatePasswordVerifier verifier = true)
    (.invalid "invalid password verifier")

def insertAudit (db : DB) (id : String) (row : AuditRow) : Except AuthError DB := do
  require (db.audits.get? id = none) (.database "append auth audit")
  pure { db with audits := db.audits.put id row }

def sessionIdleTimeout : Nat := minutes 30

def sessionAbsoluteLife : Nat := minutes 480

def maxActiveSessions : Nat := 10

def sessionTouchInterval : Nat := minutes 5

def SessionRow.unrevoked (row : SessionRow) : Bool := row.revoked.isNone

def SessionRow.revoke (moment : Nat) (reason : RevokedReason) (row : SessionRow) : SessionRow :=
  { row with revoked := some (moment, reason) }

-- ORDER BY created_at DESC, id DESC.
def createdAfter (x y : String × SessionRow) : Prop :=
  y.2.createdAt < x.2.createdAt ∨ (x.2.createdAt = y.2.createdAt ∧ y.1.toList ≤ x.1.toList)

instance : DecidableRel createdAfter := fun _ _ => inferInstanceAs (Decidable (_ ∨ _))

-- The unrevoked sessions of a user beyond the ten newest.
def excessiveSessions (db : DB) (userID : String) : List (String × SessionRow) :=
  ((db.sessions.select fun _ row => row.userID == userID && row.unrevoked).insertionSort createdAfter).drop
    maxActiveSessions

def insertSession (db : DB) (id : String) (row : SessionRow) : Except AuthError DB := do
  require (db.sessions.get? id = none ∧ db.sessions.any (fun _ other => other.tokenDigest == row.tokenDigest) = false)
    (.database "insert login session")
  pure { db with sessions := db.sessions.put id row }

-- The clock is read for every row an UPDATE revokes, and the row must have been created by then.
def revokeSessions (message : String) (db : DB) (moments : String → Nat) (reason : RevokedReason)
    (which : String → SessionRow → Bool) : Except AuthError DB := do
  require (db.sessions.any (fun id row => which id row && decide (moments id < row.createdAt)) = false)
    (.database message)
  let revoked := db.sessions.mapValues fun id row => if which id row then row.revoke (moments id) reason else row
  pure { db with sessions := revoked }

-- The verifier the user keeps: the rehash, where the login carries one and the policy asks for it.
def rehash (db : DB) (policy : Argon2Policy) (input : CompleteLoginInput) (user : UserRow) : Except AuthError DB :=
  match input.replacement with
  | none => .ok db
  | some verifier => do
      require (validatePasswordVerifierForPolicy input.user.verifier policy = false)
        (.invalid "password rehash is not required")
      require (validatePasswordVerifierForPolicy verifier policy = true)
        (.invalid "password verifier policy is not current")
      pure { db with users := db.users.put input.user.id { user with verifier } }

-- The login state the caller carries is checked against the locked user.
def lockLoginUser (db : DB) (user : LoginUser) : Except AuthError (UserRow × Argon2Policy) := do
  let row ← found (db.users.get? user.id) .unauthenticated
  let policy ← found db.policy (.database "lock login user")
  require (row.ownerID = user.ownerID ∧ row.status = .active ∧ row.authRevision = user.authRevision ∧
    row.verifier.phc = user.verifier.phc ∧ row.verifier.policyRevision = user.verifier.policyRevision) .unauthenticated
  require (policy.validate = true) (.invalid "invalid stored password policy")
  require (row.verifier.policyRevision ≤ policy.revision) .unauthenticated
  pure (row, policy)

def newSession (moment : Nat) (digest : Digest) (userID : String) (user : UserRow) : SessionRow where
  tokenDigest := digest
  userID := userID
  ownerID := user.ownerID
  authRevision := user.authRevision
  createdAt := moment
  lastSeenAt := moment
  idleExpiresAt := moment + sessionIdleTimeout
  absoluteExpiresAt := moment + sessionAbsoluteLife
  revoked := none

-- The audit rows of a login: one for the session it pushed out, if any, and one for itself.
def recordLogin (db : DB) (input : CompleteLoginInput) (ownerID : String) (limited : Bool) : Except AuthError DB :=
  if limited then do
    let db ← insertAudit db input.sessionLimitAuditID ⟨input.user.id, ownerID, .sessionRevoked⟩
    insertAudit db input.auditID ⟨input.user.id, ownerID, .loginSuccess⟩
  else insertAudit db input.auditID ⟨input.user.id, ownerID, .loginSuccess⟩

def completeLogin (clock : Clock) (db : DB) (input : CompleteLoginInput) : Except AuthError (SessionRow × DB) := do
  validateCompleteLogin input
  let digest ← found (sessionTokenDigest input.token) .unauthenticated
  let (user, policy) ← lockLoginUser db input.user
  let db ← rehash db policy input user
  let session := newSession (clock 0) digest input.user.id user
  let db ← insertSession db input.sessionID session
  let excessive := (excessiveSessions db input.user.id).map Prod.fst
  let db ← revokeSessions "limit login sessions" db (fun _ => clock 1) .sessionLimit fun id _ => excessive.contains id
  require (excessive.length ≤ 1) (.invalid "session limit revoked more than one session")
  let db ← recordLogin db input user.ownerID (excessive.length == 1)
  let mine := fun row : BucketRow => row.recoveryUserID == some input.user.id || row.recoveryUserID.isNone
  pure (session, input.throttleIdentities.foldl (clearIdentity mine) db)

inductive Role where
  | none
  | owner
deriving DecidableEq

structure Principal where
  userID : String
  ownerID : String
  role : Role
  authRevision : Nat
  sessionID : String
deriving DecidableEq

def Principal.validate (p : Principal) : Bool :=
  decide (p.userID ≠ "" ∧ p.ownerID ≠ "" ∧ p.sessionID ≠ "" ∧ p.authRevision ≠ 0 ∧ p.role = .owner)

-- The user of a session is established without a lock, in a state `seen` before the locks are taken.
def identifySessionUser (seen : DB) (digest : Digest) : Except AuthError String := do
  let row ← found (seen.sessions.find? fun _ row => row.tokenDigest == digest) .unauthenticated
  pure row.2.userID

-- The touch: only when the session was last seen five minutes ago, and with the row check of the table.
def touchSession (clock : Clock) (db : DB) (id : String) (row : SessionRow) : Except AuthError DB :=
  if row.lastSeenAt + sessionTouchInterval ≤ clock 0 then do
    let touched :=
      { row with
        lastSeenAt := clock 1
        idleExpiresAt := min row.absoluteExpiresAt (clock 2 + sessionIdleTimeout) }
    require (touched.createdAt ≤ touched.lastSeenAt ∧ touched.lastSeenAt ≤ touched.idleExpiresAt)
      (.database "touch session")
    pure { db with sessions := db.sessions.put id touched }
  else .ok db

def validateSession (clock : Clock) (seen db : DB) (token : Bytes) : Except AuthError (Principal × DB) := do
  let digest ← found (sessionTokenDigest token) .unauthenticated
  let userID ← identifySessionUser seen digest
  let (id, row) ← found (db.sessions.find? fun _ row =>
    row.tokenDigest == digest && row.userID == userID && row.unrevoked) .unauthenticated
  let user ← found (db.users.get? row.userID) .unauthenticated
  require (user.status = .active ∧ row.ownerID = user.ownerID) .unauthenticated
  require (row.authRevision = user.authRevision) .unauthenticated
  require (clock 0 < row.idleExpiresAt ∧ clock 1 < row.absoluteExpiresAt) .unauthenticated
  let db ← touchSession (fun n => clock (n + 2)) db id row
  pure (⟨row.userID, row.ownerID, .owner, row.authRevision, id⟩, db)

def revokeSession (clock : Clock) (seen db : DB) (token : Bytes) (principal : Principal) (auditID : String) :
    Except AuthError DB := do
  require (validID auditID = true) (.invalid "invalid identifier")
  require (principal.validate = true) .unauthenticated
  let digest ← found (sessionTokenDigest token) .unauthenticated
  let userID ← identifySessionUser seen digest
  let (id, row) ← found (db.sessions.find? fun _ row => row.tokenDigest == digest && row.userID == userID)
    .unauthenticated
  let user ← found (db.users.get? row.userID) .unauthenticated
  require (user.status = .active ∧ row.userID = principal.userID ∧ row.ownerID = principal.ownerID ∧
    user.authRevision = principal.authRevision) .unauthenticated
  require (id = principal.sessionID) .unauthenticated
  require (row.revoked = none) .sessionRevoked
  let db ← revokeSessions "revoke session" db (fun _ => clock 0) .logout fun _ other => other.tokenDigest == digest
  insertAudit db auditID ⟨row.userID, row.ownerID, .logout⟩

def cleanupSessions (clock : Readings String) (place : String → Nat) (db : DB) (limit : Nat) :
    Except AuthError (Nat × DB) := do
  require (1 ≤ limit ∧ limit ≤ 1000) (.invalid "invalid session cleanup limit")
  let sessions := ((db.sessions.select fun id row => !row.unrevoked || decide (row.idleExpiresAt ≤ clock.first id) ||
    decide (row.absoluteExpiresAt ≤ clock.second id)).insertionSort fun x y =>
      x.2.createdAt < y.2.createdAt ∨ (x.2.createdAt = y.2.createdAt ∧ place x.1 ≤ place y.1)).take limit
  pure (sessions.length, { db with sessions := db.sessions.keep fun id _ => !(sessions.map Prod.fst).contains id })

-- What an operator reset may clear: the pairs tagged with the user, and the untagged rows of the given digests.
def clearRecovery (db : DB) (userID : String) (digests : List Digest) : DB :=
  { db with
    buckets := db.buckets.keep fun key row => !(decide (key.kind = .own .pair) &&
      (row.recoveryUserID == some userID || (row.recoveryUserID.isNone && digests.contains key.key.digest)))
    usernames := db.usernames.keep fun key _ => !(digests.contains key.digest && key.keyVersion != "overflow") }

def resetPassword (moments : String → Nat) (db : DB) (userID : String) (verifier : PasswordVerifier) (auditID : String)
    (recoveryDigests : List Digest) : Except AuthError DB := do
  require (validID userID = true ∧ validID auditID = true) (.invalid "invalid identifier")
  require (validatePasswordVerifier verifier = true) (.invalid "invalid password verifier")
  require (recoveryDigests.length ≤ 10) (.invalid "too many recovery throttle digests")
  require (zeroDigest ∉ recoveryDigests) (.invalid "invalid zero recovery throttle digest")
  require recoveryDigests.Nodup (.invalid "duplicate recovery throttle digest")
  let user ← found (db.users.get? userID) (.database "lock reset user")
  let policy ← found db.policy (.database "lock reset user")
  require (user.authRevision ≠ 9223372036854775807) .revisionOverflow
  require (validatePasswordVerifierForPolicy verifier policy = true) (.invalid "password verifier policy is not current")
  let db := { db with users := db.users.put userID { user with verifier, authRevision := user.authRevision + 1 } }
  let db ← revokeSessions "revoke reset sessions" db moments .passwordReset fun _ row =>
    row.userID == userID && row.unrevoked
  insertAudit (clearRecovery db userID recoveryDigests) auditID ⟨userID, user.ownerID, .passwordReset⟩

end AutoDeploy.Auth
