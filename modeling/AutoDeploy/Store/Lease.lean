import AutoDeploy.Store.Claim

namespace AutoDeploy.Store

open Lib Lib.Result Queue

def cancellationGrace : Nat := 60 * second

-- What commits: a transaction that fails leaves the database as it was.
def committed {α : Type} (db : DB) : Except Error (DB × α) → DB × Except Error α
  | .error e => (db, .error e)
  | .ok (db', a) => (db', .ok a)

structure Lease where
  attempt : Attempt
  slot : Slot
  job : Job

-- The opening every agent call shares: authenticate, find the attempt, check whose it is, then
-- lock its slot and job.
def lockLease (db : DB) (purpose serverID : String) (presented : Digest) (attemptID : Nat) :
    Except Error Lease := do
  let _ ← lockActiveServerCredential db serverID presented
  let attempt ← found (db.attempts.get? attemptID) (.sentinel .serverAuthorizationDenied)
  require (attempt.serverID = serverID) (.sentinel .serverAuthorizationDenied)
  let slot ← found (db.slots.get? attempt.environmentID)
    (.wrap ("lock environment slot for " ++ purpose) (.db .noRows))
  let job ← found (db.jobs.get? attempt.jobID) (.wrap ("lock agent job for " ++ purpose) (.db .noRows))
  pure ⟨attempt, slot, job⟩

-- The attempt is the leased occupant of its slot at the given fence.
def Lease.occupies (l : Lease) (attemptID fence : Nat) : Prop :=
  l.attempt.state = .leased ∧ l.slot.fence = fence ∧ l.slot.currentAttemptID = some attemptID

instance (l : Lease) (attemptID fence : Nat) : Decidable (l.occupies attemptID fence) :=
  inferInstanceAs (Decidable (_ ∧ _ ∧ _))

-- ... with unexpired authority.
def Lease.live (l : Lease) (now attemptID fence : Nat) : Prop :=
  l.occupies attemptID fence ∧ l.attempt.fence = fence ∧ now < l.attempt.authorityExpiresAt

instance (l : Lease) (now attemptID fence : Nat) : Decidable (l.live now attemptID fence) :=
  inferInstanceAs (Decidable (_ ∧ _ ∧ _))

-- A full lease from now, capped by a cancellation deadline.
def renewedExpiry (now : Nat) (attempt : Attempt) : Nat :=
  match attempt.cancelDeadlineAt with
  | some deadline => min deadline (now + leaseDuration)
  | none => now + leaseDuration

def renew (now : Nat) (db : DB) (serverID : String) (presented : Digest) (attemptID fence sequence : Nat) :
    Except Error (DB × RenewalResult) := do
  require (validOpaqueID serverID ∧ 0 < attemptID ∧ 0 < fence) (.sentinel .serverAuthorizationDenied)
  let l ← lockLease db "renew" serverID presented attemptID
  require (l.live now attemptID fence) (.sentinel .leaseStale)
  let cancelRequested := l.job.cancelRequestedAt.isSome
  if sequence = l.attempt.renewalSequence then
    -- a replay of the accepted sequence returns the stored deadlines
    pure (db, ⟨l.attempt.leaseExpiresAt, l.attempt.authorityExpiresAt, cancelRequested⟩)
  else
    require (sequence = l.attempt.renewalSequence + 1) (.sentinel .leaseStale)
    let newExpiresAt := renewedExpiry now l.attempt
    let (db, _) ← during "extend agent job attempt lease" <|
      updateAttempt db attemptID (fun _ => true) fun a =>
        { a with renewalSequence := sequence, leaseExpiresAt := newExpiresAt, authorityExpiresAt := newExpiresAt }
    pure (db, ⟨newExpiresAt, newExpiresAt, cancelRequested⟩)

structure CompletionReport where
  outcome : CompletionOutcome
  failureClass : Option FailureClass
  operationID : String
  resultDigest : Digest
deriving DecidableEq

def CompletionReport.valid (r : CompletionReport) : Bool :=
  validOperationID r.operationID &&
    match r.outcome with
    | .succeeded => r.failureClass.isNone
    | .failed => r.failureClass.isSome

def CompletionReport.closedState (r : CompletionReport) : AttemptState :=
  match r.outcome with
  | .succeeded => .succeeded
  | .failed => .failed

def openActivation (db : DB) (attemptID fence : Nat) : Bool :=
  db.operations.any fun _ op => op.attemptID == attemptID && op.fence == fence && unresolvedActivation op.state

-- Free the slot if this attempt still holds it.
def freeSlot (now : Nat) (db : DB) (environmentID : String) (attemptID : Nat) : Except Error DB := do
  let (db, _) ← during "free environment slot" <|
    updateSlot db environmentID (fun s => s.currentAttemptID == some attemptID) fun s =>
      { s with currentAttemptID := none, updatedAt := now }
  pure db

def closeJob (now : Nat) (db : DB) (jobID : Nat) (state : JobState) : Except Error DB := do
  let (db, _) ← during "close agent job" <|
    updateJob db jobID (fun j => j.state == .leased) fun j => { j with state := state, updatedAt := now }
  pure db

def scheduleRetry (now : Nat) (db : DB) (jobID availableAt : Nat) : Except Error DB := do
  let (db, _) ← during "schedule agent job retry" <|
    updateJob db jobID (fun j => j.state == .leased) fun j =>
      { j with state := .retryWait, availableAt := availableAt, updatedAt := now }
  pure db

-- Schedule the job's retry, or close it.
def endJob (now : Nat) (db : DB) (jobID : Nat) (state : JobState) (availableAt : Nat) : Except Error DB :=
  if state = .retryWait then scheduleRetry now db jobID availableAt else closeJob now db jobID state

-- The job state a completion leads to. The cancel mark of the job is not consulted.
def completionJobState (r : CompletionReport) (attemptNumber : Nat) : JobState :=
  match r.outcome, r.failureClass with
  | .succeeded, _ => .succeeded
  | .failed, some c =>
      if c.retryable then if attemptNumber < maxAttempts then .retryWait else .dead else .failed
  | .failed, none => .failed

def completionEvent : JobState → JobEventType
  | .failed => .failed
  | .retryWait => .retryScheduled
  | .dead => .dead
  | _ => .succeeded

-- A closed attempt answers only the exact report it stored.
def completeReplay (attempt : Attempt) (r : CompletionReport) : Except Error Unit :=
  match attempt.result with
  | none => .error (.sentinel .leaseStale)
  | some (operationID, digest) =>
      require (attempt.state = r.closedState ∧ operationID = r.operationID ∧ digest = r.resultDigest ∧
        attempt.failureClass = r.failureClass) (.sentinel .integrityConflict)

def complete (now draw : Nat) (db : DB) (serverID : String) (presented : Digest) (attemptID fence : Nat)
    (r : CompletionReport) : Except Error (DB × Unit) := do
  require (validOpaqueID serverID ∧ 0 < attemptID ∧ 0 < fence ∧ r.valid) (.sentinel .invalidInput)
  let l ← lockLease db "complete" serverID presented attemptID
  if l.attempt.state ≠ .leased then do
    completeReplay l.attempt r
    pure (db, ())
  else
    require (openActivation db attemptID fence = false) (.sentinel .activationOpen)
    require (l.live now attemptID fence) (.sentinel .leaseStale)
    let (db, _) ← during "close agent job attempt" <|
      updateAttempt db attemptID (fun _ => true) fun a =>
        { a with state := r.closedState, closedAt := some now, failureClass := r.failureClass,
                 result := some (r.operationID, r.resultDigest) }
    let db ← freeSlot now db l.attempt.environmentID attemptID
    let jobState := completionJobState r l.attempt.attemptNumber
    let db ← endJob now db l.attempt.jobID jobState (now + fullJitterDelay l.attempt.attemptNumber draw)
    let db ← (if jobState = .dead ∨ jobState = .failed
      then transitionDeployment db l.job.deploymentID .failed now
      else pure db)
    pure (appendAgentJobEvent db l.attempt.jobID (some attemptID) (completionEvent jobState), ())

-- Cancellation of a job that is not running closes it at once; of a running one, marks the job
-- and caps the attempt's deadlines.
def requestCancellation (now : Nat) (db : DB) (p : Principal) (jobID : Nat) : Except Error (DB × Unit) := do
  require (p.valid ∧ 0 < jobID) (.sentinel .serverAuthorizationDenied)
  lockAdministratorSession db now p
  let job ← found (db.jobs.get? jobID) (.sentinel .serverAuthorizationDenied)
  require (job.ownerID = p.ownerID) (.sentinel .serverAuthorizationDenied)
  match job.state with
  | .cancelled => pure (db, ())
  | .succeeded | .failed | .dead => .error (.sentinel .jobTerminal)
  | .queued | .retryWait => do
      let (db, _) ← during "cancel agent job" <|
        updateJob db jobID (fun _ => true) fun j =>
          { j with state := .cancelled, cancelRequestedAt := some now, updatedAt := now }
      let db ← transitionDeployment db job.deploymentID .cancelled now
      pure (appendAgentJobEvent db jobID none .cancelled, ())
  | .leased =>
      if job.cancelRequestedAt.isSome then pure (db, ())
      else do
        let (attemptID, _) ← found
          (db.attempts.find? fun _ a => a.jobID == jobID && a.state == .leased)
          (.wrap "lock leased agent job attempt for cancellation" (.db .noRows))
        let deployment ← found (db.deployments.get? job.deploymentID)
          (.wrap "lock deployment for cancellation" (.db .noRows))
        require (deployment.status ≠ .activating) (.sentinel .jobActivating)
        let deadline := now + cancellationGrace
        let (db, _) ← during "mark agent job cancel requested" <|
          updateJob db jobID (fun _ => true) fun j =>
            { j with cancelRequestedAt := some now, updatedAt := now }
        let (db, _) ← during "cap agent job attempt deadlines" <|
          updateAttempt db attemptID (fun _ => true) fun a =>
            { a with
              cancelDeadlineAt := some deadline
              leaseExpiresAt := min a.leaseExpiresAt deadline
              authorityExpiresAt := min a.authorityExpiresAt deadline }
        pure (appendAgentJobEvent db jobID (some attemptID) .cancelRequested, ())

def acknowledgeReplay (attempt : Attempt) (operationID : String) (resultDigest : Digest) :
    Except Error Unit :=
  match attempt.result with
  | none => .error (.sentinel .leaseStale)
  | some (storedOperationID, digest) =>
      require (attempt.state = .cancelled ∧ storedOperationID = operationID ∧ digest = resultDigest)
        (.sentinel .integrityConflict)

def acknowledgeCancellation (now : Nat) (db : DB) (serverID : String) (presented : Digest)
    (attemptID fence : Nat) (operationID : String) (resultDigest : Digest) : Except Error (DB × Unit) := do
  require (validOpaqueID serverID ∧ 0 < attemptID ∧ 0 < fence ∧ validOperationID operationID)
    (.sentinel .invalidInput)
  let l ← lockLease db "cancel acknowledge" serverID presented attemptID
  if l.attempt.state ≠ .leased then do
    acknowledgeReplay l.attempt operationID resultDigest
    pure (db, ())
  else
    require l.job.cancelRequestedAt.isSome (.sentinel .invalidInput)
    require (l.live now attemptID fence) (.sentinel .leaseStale)
    let (db, _) ← during "close agent job attempt as cancelled" <|
      updateAttempt db attemptID (fun _ => true) fun a =>
        { a with state := .cancelled, closedAt := some now, result := some (operationID, resultDigest) }
    let db ← freeSlot now db l.attempt.environmentID attemptID
    let db ← closeJob now db l.attempt.jobID .cancelled
    let db ← transitionDeployment db l.job.deploymentID .cancelled now
    pure (appendAgentJobEvent db l.attempt.jobID (some attemptID) .cancelled, ())

-- The authority check of materialization, checkout and progress: like `live`, and also refused
-- once the slot is flagged or cancellation was requested.
def authorizeLease (now : Nat) (db : DB) (purpose serverID : String) (presented : Digest)
    (attemptID fence : Nat) : Except Error Lease := do
  require (validOpaqueID serverID ∧ 0 < attemptID ∧ 0 < fence) (.sentinel .invalidInput)
  let l ← lockLease db purpose serverID presented attemptID
  require (l.slot.reconciliationRequired = false ∧ l.job.cancelRequestedAt = none ∧
    l.live now attemptID fence) (.sentinel .serverAuthorizationDenied)
  pure l

structure FrozenSecretReference where
  variableName : String
  deliveryScope : DeliveryScope
  secretVersionID : String
  secretID : String
  purpose : SecretPurpose
deriving DecidableEq, Repr

-- One frozen reference, rechecked against the version it names; `none` is a row the join drops.
def materializeReference (db : DB) (job : Job) (b : FrozenBinding) :
    Except Error (Option FrozenSecretReference) :=
  match db.administration.secretVersions.get? b.secretVersionID with
  | none => pure none
  | some version =>
      match db.administration.secretHeads.get? version.secretID with
      | none => pure none
      | some head => do
          require (version.state ≠ .revoked) (.sentinel .serverAuthorizationDenied)
          require (version.ownerID = job.ownerID ∧ version.projectID = job.projectID ∧
              version.environmentID = job.environmentID ∧ head.deliveryScope = b.deliveryScope)
            (.sentinel .serverAuthorizationDenied)
          pure (some ⟨b.variableName, b.deliveryScope, b.secretVersionID, version.secretID, head.purpose⟩)

def materializeReferences (db : DB) (job : Job) : List FrozenBinding → Except Error (List FrozenSecretReference)
  | [] => pure []
  | b :: rest => do
      let reference ← materializeReference db job b
      let references ← materializeReferences db job rest
      pure (reference.toList ++ references)

structure MaterializationAuthorization where
  jobID : Nat
  ownerID : String
  projectID : String
  environmentID : String
  deploymentID : String
  secrets : List FrozenSecretReference
deriving DecidableEq, Repr

def authorizeMaterialization (now : Nat) (db : DB) (serverID : String) (presented : Digest)
    (attemptID fence : Nat) : Except Error MaterializationAuthorization := do
  let l ← authorizeLease now db "materialization" serverID presented attemptID fence
  let secrets ← materializeReferences db { l.job with environmentID := l.attempt.environmentID }
    ((db.frozenBindings.get? attemptID).getD [])
  pure ⟨l.attempt.jobID, l.job.ownerID, l.job.projectID, l.attempt.environmentID, l.job.deploymentID, secrets⟩

structure CheckoutAuthorization where
  jobID : Nat
  ownerID : String
  projectID : String
  environmentID : String
  deploymentID : String
  repositoryID : Nat
  commitSHA : String
deriving DecidableEq, Repr

def authorizeCheckout (now : Nat) (db : DB) (serverID : String) (presented : Digest)
    (attemptID fence : Nat) : Except Error CheckoutAuthorization := do
  let l ← authorizeLease now db "checkout" serverID presented attemptID fence
  pure ⟨l.attempt.jobID, l.job.ownerID, l.job.projectID, l.attempt.environmentID, l.job.deploymentID,
    l.job.repositoryID, l.job.commitSHA⟩

-- Progress moves one phase at a time; a repeat or a late report is absorbed.
def reportProgress (now : Nat) (db : DB) (serverID : String) (presented : Digest) (attemptID fence : Nat)
    (phase : Deployment.Status) : Except Error (DB × Unit) := do
  require (Deployment.agentReportablePhase phase) (.sentinel .invalidInput)
  let l ← authorizeLease now db "progress" serverID presented attemptID fence
  let deployment ← found (db.deployments.get? l.job.deploymentID)
    (.wrap "lock deployment for progress" (.db .noRows))
  let currentOrder ← found (Deployment.executionOrder deployment.status) (.sentinel .serverAuthorizationDenied)
  let targetOrder := (Deployment.executionOrder phase).getD 0
  if targetOrder ≤ currentOrder then pure (db, ())
  else
    require (targetOrder = currentOrder + 1) (.sentinel .invalidInput)
    let db ← transitionDeployment db l.job.deploymentID phase now
    pure (db, ())

end AutoDeploy.Store
