import AutoDeploy.Store.Activation

namespace AutoDeploy.Store

open Lib Lib.Result Queue

def expireBatchMaxLimit : Nat := 100

def activationBlockedByAuthorityEndSummary : Bytes := Bytes.ofString
  "attempt authority ended (expired or server revoked) while the activation was unresolved; live traffic may already have switched; operator reconciliation required"

-- An attempt that holds an unresolved activation is not closed: the block is recorded instead,
-- once. The answer says whether the attempt was diverted.
def divertUnresolvedActivation (now : Nat) (db : DB) (jobID attemptID : Nat) (environmentID : String) :
    Except Error (DB × Bool) :=
  match db.operations.find? fun _ op => op.attemptID == attemptID && op.environmentID == environmentID &&
      unresolvedActivation op.state with
  | none => pure (db, false)
  | some (operationID, op) =>
      if op.state ≠ .switchAuthorized then pure (db, true)
      else do
        let db ← blockActivationForReconciliation now db jobID attemptID operationID environmentID
          activationBlockedByAuthorityEndSummary
        pure (db, true)

-- The job state an ended lease leads to.
def closedJobState (cancelRequested : Bool) (attemptNumber : Nat) : JobState :=
  if cancelRequested then .cancelled
  else if maxAttempts ≤ attemptNumber then .dead
  else .retryWait

def closureEvents (cancelRequested : Bool) (jobState : JobState) : List JobEventType :=
  if cancelRequested then [.cancelled]
  else
    match jobState with
    | .retryWait => [.expired, .retryScheduled]
    | .dead => [.expired, .dead]
    | _ => [.expired]

def closeAttemptOrdinary (now draw : Nat) (db : DB) (jobID attemptID : Nat) (environmentID : String)
    (attemptNumber : Nat) (deploymentID : String) (cancelRequested : Bool) : Except Error DB := do
  let (db, _) ← during "close agent job attempt" <|
    updateAttempt db attemptID (fun _ => true) fun a =>
      { a with state := if cancelRequested then .cancelled else .expired, closedAt := some now }
  let (db, _) ← during "advance environment slot for closed attempt" <|
    updateSlot db environmentID (fun _ => true) fun s =>
      { s with
        fence := s.fence + 1
        currentAttemptID := none
        reconciliationAttemptID := some attemptID
        updatedAt := now }
  let jobState := closedJobState cancelRequested attemptNumber
  let db ← endJob now db jobID jobState (now + fullJitterDelay attemptNumber draw)
  let db ← (if jobState = .cancelled then transitionDeployment db deploymentID .cancelled now
    else if jobState = .dead then transitionDeployment db deploymentID .failed now
    else pure db)
  pure ((closureEvents cancelRequested jobState).foldl
    (fun db eventType => appendAgentJobEvent db jobID (some attemptID) eventType) db)

def closeExpiredOrRevokedAttempt (now draw : Nat) (db : DB) (jobID attemptID : Nat) (environmentID : String)
    (attemptNumber : Nat) (deploymentID : String) (cancelRequested : Bool) : Except Error (DB × Bool) := do
  let (db, diverted) ← divertUnresolvedActivation now db jobID attemptID environmentID
  if diverted then pure (db, true)
  else
    let db ← closeAttemptOrdinary now draw db jobID attemptID environmentID attemptNumber deploymentID
      cancelRequested
    pure (db, false)

-- The revalidation the sweeper and the revocation share: still the occupant, still leased.
def inFlight (db : DB) (attemptID : Nat) : Option (Attempt × Job) := do
  let attempt ← db.attempts.get? attemptID
  let slot ← db.slots.get? attempt.environmentID
  let job ← db.jobs.get? attempt.jobID
  if slot.currentAttemptID = some attemptID ∧ job.state = .leased ∧ attempt.state = .leased then
    some (attempt, job)
  else none

-- The sweeper on one attempt: whether the attempt was closed.
def expireOne (now draw : Nat) (db : DB) (attemptID : Nat) : Except Error (DB × Bool) :=
  match inFlight db attemptID with
  | none => pure (db, false)
  | some (attempt, job) =>
      if now < attempt.authorityExpiresAt then pure (db, false)
      else do
        let (db, diverted) ← closeExpiredOrRevokedAttempt now draw db attempt.jobID attemptID
          attempt.environmentID attempt.attemptNumber job.deploymentID job.cancelRequestedAt.isSome
        pure (db, !diverted)

def expiresBefore (x y : Nat × Attempt) : Prop :=
  x.2.authorityExpiresAt < y.2.authorityExpiresAt ∨
    (x.2.authorityExpiresAt = y.2.authorityExpiresAt ∧ x.1 ≤ y.1)

instance : DecidableRel expiresBefore := fun x y => by
  unfold expiresBefore
  infer_instance

-- Expired leases, less those whose block is already recorded.
def discoverExpired (db : DB) (now limit : Nat) : List Nat :=
  (((db.attempts.select fun id a => a.state == .leased && decide (a.authorityExpiresAt ≤ now) &&
    !(db.operations.any fun _ op => op.attemptID == id && op.environmentID == a.environmentID &&
      unresolvedActivation op.state && op.state != .switchAuthorized)).insertionSort expiresBefore).take limit).map
    Prod.fst

-- One clock reading and one random draw for each attempt; each attempt commits on its own.
def expireLoop : List (Nat × Nat × Nat) → DB → Nat → DB × Except Error Nat
  | [], db, processed => (db, .ok processed)
  | (attemptID, now, draw) :: rest, db, processed =>
      match expireOne now draw db attemptID with
      | .error e => (db, .error e)
      | .ok (db, closed) => expireLoop rest db (if closed then processed + 1 else processed)

def expireBatch (now : Nat) (readings : Nat → Nat × Nat) (db : DB) (limit : Nat) : DB × Except Error Nat :=
  if limit = 0 then (db, .ok 0)
  else
    let candidates := discoverExpired db now (min limit expireBatchMaxLimit)
    expireLoop (candidates.map fun id => (id, readings id)) db 0

def revokedBefore (x y : Nat × Attempt) : Prop :=
  x.2.environmentID.toList < y.2.environmentID.toList ∨
    (x.2.environmentID = y.2.environmentID ∧ x.1 ≤ y.1)

instance : DecidableRel revokedBefore := fun x y => by
  unfold revokedBefore
  infer_instance

def revokeLoop (now : Nat) (draws : Nat → Nat) : List Nat → DB → Except Error DB
  | [], db => pure db
  | attemptID :: rest, db =>
      match inFlight db attemptID with
      | none => revokeLoop now draws rest db
      | some (attempt, job) => do
          let (db, _) ← closeExpiredOrRevokedAttempt now (draws attemptID) db attempt.jobID attemptID
            attempt.environmentID attempt.attemptNumber job.deploymentID job.cancelRequestedAt.isSome
          revokeLoop now draws rest db

def revokeInFlightLeases (now : Nat) (draws : Nat → Nat) (db : DB) (serverID : String) : Except Error DB :=
  revokeLoop now draws
    (((db.attempts.select fun _ a => a.serverID == serverID && a.state == .leased).insertionSort
      revokedBefore).map Prod.fst) db

-- The server and its active credential are revoked and its in-flight leases ended together.
def revokeServer (now : Nat) (draws : Nat → Nat) (db : DB) (p : Principal) (serverID reason : String) :
    Except Error (DB × Unit) := do
  require (p.valid ∧ validOpaqueID serverID ∧ validReason reason) (.sentinel .serverAuthorizationDenied)
  lockAdministratorSession db now p
  let server ← found ((db.servers.get? serverID).filter fun s => s.ownerID == p.ownerID && s.status == .active)
    (.sentinel .serverAuthorizationDenied)
  during "revoke server" <| require (server.createdAt ≤ now)
    (DbError.checkViolation "servers" "servers_check1")
  let db := { db with servers := db.servers.put serverID { server with status := .revoked, revokedAt := some now } }
  let credential := db.credentials.find? fun _ c => c.serverID == serverID && c.status == .active
  during "revoke server credential" <| require (∀ row ∈ credential, row.2.issuedAt ≤ now)
    (DbError.checkViolation "server_credentials" "server_credentials_check1")
  let db := match credential with
    | none => db
    | some (id, c) =>
        { db with credentials := db.credentials.put id { c with status := .revoked, revokedAt := some now } }
  let db ← revokeInFlightLeases now draws db serverID
  pure (insertServerAuditEvent db ⟨p.userID, .serverRevoked, some serverID, reason⟩, ())

end AutoDeploy.Store
