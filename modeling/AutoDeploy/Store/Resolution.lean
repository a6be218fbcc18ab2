import AutoDeploy.Store.Closure

namespace AutoDeploy.Store

open Lib Lib.Result Queue

def reconciledEvent (db : DB) (jobID attemptID : Nat) : Bool :=
  db.jobEvents.any fun e => e.jobID == jobID && e.attemptID == some attemptID && e.eventType == .reconciled

-- Clear the slot's flag and record the reconciliation.
def clearSlotFlag (now : Nat) (db : DB) (environmentID : String) (jobID attemptID : Nat) : Except Error DB := do
  let (db, _) ← during "clear environment slot reconciliation" <|
    updateSlot db environmentID (fun _ => true) fun s =>
      { s with reconciliationAttemptID := none, updatedAt := now }
  pure (appendAgentJobEvent db jobID (some attemptID) .reconciled)

-- The agent's plain reconciliation of a closed attempt.
def reconcile (now : Nat) (db : DB) (serverID : String) (presented : Digest) (environmentID : String)
    (attemptID fence : Nat) : Except Error (DB × Unit) := do
  require (validOpaqueID serverID ∧ validOpaqueID environmentID ∧ 0 < attemptID ∧ 0 < fence)
    (.sentinel .invalidInput)
  let _ ← lockActiveServerCredential db serverID presented
  let slot ← found (db.slots.get? environmentID) (.sentinel .serverAuthorizationDenied)
  let attempt ← found (db.attempts.get? attemptID) (.sentinel .serverAuthorizationDenied)
  require (attempt.serverID = serverID ∧ attempt.environmentID = environmentID ∧ attempt.fence = fence ∧
      attempt.state ≠ .leased ∧ attempt.closedAt.isSome) (.sentinel .serverAuthorizationDenied)
  let unresolved := db.operations.find? fun _ op =>
    op.attemptID == attemptID && op.environmentID == environmentID && unresolvedActivation op.state
  require (unresolved = none) (.detail (.sentinel .corruptState)
    ("attempt " ++ toString attemptID ++ " is closed but activation operation " ++
      toString ((unresolved.map Prod.fst).getD 0) ++ " is unresolved"))
  if slot.reconciliationAttemptID ≠ some attemptID then do
    require (reconciledEvent db attempt.jobID attemptID) (.sentinel .serverAuthorizationDenied)
    pure (db, ())
  else do
    let db ← clearSlotFlag now db environmentID attempt.jobID attemptID
    pure (db, ())

-- The administrator's clearing of a plain block, with its audit row.
def clearPlainReconciliation (now : Nat) (db : DB) (p : Principal) (environmentID : String)
    (jobID attemptID : Nat) (reason : String) : Except Error DB := do
  let (db, _) ← during "clear environment slot reconciliation" <|
    updateSlot db environmentID (fun _ => true) fun s =>
      { s with reconciliationAttemptID := none, updatedAt := now }
  let db := insertServerAuditEvent db ⟨p.userID, .environmentMarkReconciled, none, reason⟩
  pure (appendAgentJobEvent db jobID (some attemptID) .reconciled)

-- The flagged attempt's job and the owner of that job.
def flaggedJob (db : DB) (attemptID : Nat) : Except Error (Nat × Job) := do
  let attempt ← found (db.attempts.get? attemptID)
    (.wrap "locate agent lease reconciliation attempt job" (.db .noRows))
  let job ← found (db.jobs.get? attempt.jobID)
    (.wrap "locate agent lease reconciliation attempt job" (.db .noRows))
  pure (attempt.jobID, job)

def markReconciled (now : Nat) (db : DB) (p : Principal) (environmentID reason : String) :
    Except Error (DB × Unit) := do
  require (p.valid ∧ validOpaqueID environmentID ∧ validReason reason) (.sentinel .serverAuthorizationDenied)
  lockAdministratorSession db now p
  let slot ← found (db.slots.get? environmentID) (.sentinel .serverAuthorizationDenied)
  let attemptID ← found slot.reconciliationAttemptID (.sentinel .serverAuthorizationDenied)
  let (jobID, job) ← flaggedJob db attemptID
  require (job.ownerID = p.ownerID) (.sentinel .serverAuthorizationDenied)
  require (db.operations.any (fun _ op => op.environmentID == environmentID && unresolvedActivation op.state) = false)
    (.sentinel .activationUnresolved)
  let db ← clearPlainReconciliation now db p environmentID jobID attemptID reason
  pure (db, ())

inductive ActivationOutcome where
  | activated
  | notActivated
  | noActivation
deriving DecidableEq, Repr

def ActivationOutcome.text : ActivationOutcome → String
  | .activated => "activated"
  | .notActivated => "not_activated"
  | .noActivation => "no_activation"

def lateReportSeparator : Bytes := Bytes.ofString " | "

def declaredSummary (existing : Bytes) (outcome : ActivationOutcome) : Bytes :=
  let declared := Bytes.ofString ("declared " ++ outcome.text)
  let marker := if existing = [] then declared else lateReportSeparator ++ declared
  if maxOutcomeSummaryBytes < existing.length + marker.length then existing else existing ++ marker

-- The environment's unresolved activation.
def unresolvedOperation (db : DB) (environmentID : String) : Option (Nat × Operation) :=
  db.operations.find? fun _ op => op.environmentID == environmentID && unresolvedActivation op.state

def unflagRouteHead (now : Nat) (db : DB) (environmentID : String) : Except Error DB := do
  let (db, n) ← during "clear route head reconciliation flag" <|
    updateRouteHead db environmentID (fun h => h.reconciliationRequired) fun h =>
      { h with reconciliationRequired := false, updatedAt := max h.updatedAt now }
  require (n = 1) (.detail (.sentinel .corruptState)
    ("route head for environment " ++ environmentID ++ " is not flagged at activation resolution"))
  pure db

-- The declared "not activated": everything the activation held is closed as failed.
def resolveNotActivated (now : Nat) (db : DB) (jobID attemptID operationID : Nat)
    (environmentID deploymentID : String) (headFlagged : Bool) (summary : Bytes) : Except Error DB := do
  let db ← transitionDeployment db deploymentID .failed now
  let db ← (if headFlagged then unflagRouteHead now db environmentID else pure db)
  let (db, n) ← during "close activation operation as failed" <|
    updateOperation db operationID (fun op => op.state == .reconciliationRequired) fun op =>
      { op with state := .failed, closedAt := some (op.closedAt.getD now), outcomeSummary := summary }
  require (n = 1) (.detail (.sentinel .corruptState)
    ("operation " ++ toString operationID ++ " is not reconciliation_required at activation resolution"))
  let (db, n) ← during "close agent job attempt" <|
    updateAttempt db attemptID (fun a => a.state == .leased) fun a =>
      { a with state := .expired, closedAt := some now }
  require (n = 1) (.detail (.sentinel .corruptState)
    ("attempt " ++ toString attemptID ++ " is not leased at activation resolution"))
  let (db, n) ← during "free environment slot" <|
    updateSlot db environmentID (fun s => s.currentAttemptID == some attemptID &&
        s.reconciliationAttemptID == some attemptID) fun s =>
      { s with currentAttemptID := none, reconciliationAttemptID := none, updatedAt := now }
  require (n = 1) (.detail (.sentinel .corruptState)
    ("slot " ++ environmentID ++ " is not held and flagged by attempt " ++ toString attemptID ++
      " at activation resolution"))
  let (db, n) ← during "close agent job" <|
    updateJob db jobID (fun j => j.state == .leased) fun j => { j with state := .failed, updatedAt := now }
  require (n = 1) (.detail (.sentinel .corruptState)
    ("job " ++ toString jobID ++ " is not leased at activation resolution"))
  let db := appendAgentJobEvent db jobID (some attemptID) .activationNotActivated
  pure (appendAgentJobEvent db jobID (some attemptID) .failed)

-- What differs between the administrator's and the agent's declared resolution.
structure DeclaredResolution where
  environmentID : String
  jobID : Nat
  attemptID : Nat
  slotCurrentAttemptID : Option Nat
  outcome : ActivationOutcome
  authorize : Attempt → Except Error Unit
  outcomeDigest : Option Digest
  plainAttemptRefusal : Attempt → Except Error Unit
  clearPlain : DB → Except Error DB
  audit : DB → DB

def declaredFinalizeInput (d : DeclaredResolution) (job : Job) (operationID : Nat) (op : Operation) :
    FinalizeInput :=
  { jobID := d.jobID
    attemptID := d.attemptID
    operationID := operationID
    environmentID := d.environmentID
    deploymentID := job.deploymentID
    candidateReleaseID := op.releaseID
    expectedRouteRevision := op.expectedRouteRevision
    expectedActiveReleaseID := op.expectedActiveReleaseID
    resultDigest := op.routeDigest
    summary := declaredSummary op.outcomeSummary d.outcome
    fromState := .reconciliationRequired }

-- The declared resolution of an unresolved activation.
def resolveOperation (now : Nat) (db : DB) (d : DeclaredResolution) (job : Job) (attempt : Attempt)
    (operationID : Nat) (op : Operation) : Except Error DB := do
  require (d.outcome ≠ .noActivation) (.sentinel .outcomeMismatch)
  require (op.state = .reconciliationRequired) (.sentinel .activationUnresolved)
  require (attempt.state = .leased ∧ attempt.closedAt = none)
    (.detail (.sentinel .corruptState) ("attempt " ++ toString d.attemptID ++ " is \"" ++
      AttemptState.text attempt.state ++ "\" at activation resolution"))
  require (attempt.environmentID = d.environmentID ∧ attempt.fence = op.fence)
    (.detail (.sentinel .corruptState) ("attempt " ++ toString d.attemptID ++ " does not match environment " ++
      d.environmentID ++ " / operation " ++ toString operationID ++ " fence"))
  require (job.state = .leased)
    (.detail (.sentinel .corruptState) ("job " ++ toString d.jobID ++ " is \"" ++ JobState.text job.state ++
      "\" at activation resolution"))
  require (d.slotCurrentAttemptID = some d.attemptID)
    (.detail (.sentinel .corruptState) ("slot " ++ d.environmentID ++ " is not held by attempt " ++
      toString d.attemptID ++ " at activation resolution"))
  require (d.outcome = .activated → ∀ digest ∈ d.outcomeDigest, digest = op.routeDigest)
    (.sentinel .integrityConflict)
  let deployment ← found (db.deployments.get? job.deploymentID)
    (.wrap "lock deployment for activation resolution" (.db .noRows))
  require (deployment.status = .activating)
    (.detail (.sentinel .corruptState) ("deployment " ++ job.deploymentID ++ " is \"" ++
      deployment.status.text ++ "\" at activation resolution"))
  let headFlagged := (db.routeHeads.get? d.environmentID).any fun h => h.reconciliationRequired
  let db ← (if d.outcome = .activated then
      finalizeActivationSucceeded now db (declaredFinalizeInput d job operationID op)
    else
      resolveNotActivated now db d.jobID d.attemptID operationID d.environmentID job.deploymentID headFlagged
        (declaredSummary op.outcomeSummary d.outcome))
  let db := appendAgentJobEvent (d.audit db) d.jobID (some d.attemptID) .reconciled
  (if d.outcome = .activated then
      during "commit activation resolution" (finalizeCommit db (declaredFinalizeInput d job operationID op))
    else pure ())
  pure db

def resolveDeclared (now : Nat) (db : DB) (d : DeclaredResolution) : Except Error DB := do
  let job ← found (db.jobs.get? d.jobID) (.wrap "lock agent job for activation resolution" (.db .noRows))
  let attempt ← found (db.attempts.get? d.attemptID)
    (.wrap "lock agent job attempt for activation resolution" (.db .noRows))
  d.authorize attempt
  match unresolvedOperation db d.environmentID with
  | none => do
      require (d.outcome = .noActivation) (.sentinel .outcomeMismatch)
      d.plainAttemptRefusal attempt
      d.clearPlain db
  | some (operationID, op) => do
      require (op.attemptID = d.attemptID) (.detail (.sentinel .corruptState)
        ("environment " ++ d.environmentID ++ " is flagged by attempt " ++ toString d.attemptID ++
          " but its unresolved activation belongs to attempt " ++ toString op.attemptID))
      resolveOperation now db d job attempt operationID op

-- The most recent activation of an attempt, by id.
def latestOperation (db : DB) (attemptID : Nat) : Option Operation :=
  (((db.operations.select fun _ op => op.attemptID == attemptID).map fun row => row.1).max?).bind fun id =>
    db.operations.get? id

-- Whether a declared outcome agrees with the one already recorded for the attempt.
def agreeResolvedOutcome (db : DB) (attemptID : Nat) (outcome : ActivationOutcome) (digest : Option Digest) :
    Except Error Unit := do
  let op := latestOperation db attemptID
  let want ← match op.map Operation.state with
    | none => pure ActivationOutcome.noActivation
    | some .succeeded => pure .activated
    | some .failed => pure .notActivated
    | some s => .error (.detail (.sentinel .corruptState)
        ("attempt " ++ toString attemptID ++ " was reconciled but its activation is \"" ++ s.text ++ "\""))
  require (outcome = want) (.sentinel .integrityConflict)
  require (want = .activated → ∀ d ∈ digest, ∀ o ∈ op, d = o.routeDigest) (.sentinel .integrityConflict)

-- The environment's newest attempt.
def newestAttempt (db : DB) (environmentID : String) : Option Nat :=
  ((db.attempts.select fun _ a => a.environmentID == environmentID).map fun row => row.1).max?

-- An unflagged environment answers only for its newest attempt, and only if that was reconciled.
def confirmResolvedOutcome (db : DB) (p : Principal) (environmentID : String) (outcome : ActivationOutcome) :
    Except Error Unit := do
  let attemptID ← found (newestAttempt db environmentID) (.sentinel .serverAuthorizationDenied)
  let job ← found ((db.attempts.get? attemptID).bind fun a => db.jobs.get? a.jobID)
    (.sentinel .serverAuthorizationDenied)
  require (job.ownerID = p.ownerID ∧ db.jobEvents.any (fun e =>
      e.attemptID == some attemptID && e.eventType == .reconciled))
    (.sentinel .serverAuthorizationDenied)
  agreeResolvedOutcome db attemptID outcome none

def resolveActivation (now : Nat) (db : DB) (p : Principal) (environmentID : String)
    (outcome : ActivationOutcome) (reason : String) : Except Error (DB × Unit) := do
  require (p.valid ∧ validOpaqueID environmentID) (.sentinel .serverAuthorizationDenied)
  let auditReason := "outcome=" ++ outcome.text ++ "; " ++ reason
  require (validReason auditReason) (.sentinel .serverAuthorizationDenied)
  lockAdministratorSession db now p
  let slot ← found (db.slots.get? environmentID) (.sentinel .serverAuthorizationDenied)
  match slot.reconciliationAttemptID with
  | none => do
      confirmResolvedOutcome db p environmentID outcome
      pure (db, ())
  | some attemptID => do
      let (jobID, job) ← flaggedJob db attemptID
      require (job.ownerID = p.ownerID) (.sentinel .serverAuthorizationDenied)
      let db ← resolveDeclared now db
        { environmentID := environmentID
          jobID := jobID
          attemptID := attemptID
          slotCurrentAttemptID := slot.currentAttemptID
          outcome := outcome
          authorize := fun _ => pure ()
          outcomeDigest := none
          plainAttemptRefusal := fun a => require (¬ (a.state = .leased ∧ a.closedAt = none))
            (.detail (.sentinel .corruptState) ("attempt " ++ toString attemptID ++
              " is still leased with no unresolved activation at environment " ++ environmentID))
          clearPlain := fun db => clearPlainReconciliation now db p environmentID jobID attemptID auditReason
          audit := fun db =>
            insertServerAuditEvent db ⟨p.userID, .environmentMarkReconciled, none, auditReason⟩ }
      pure (db, ())

def reconcileActivation (now : Nat) (db : DB) (serverID : String) (presented : Digest) (environmentID : String)
    (attemptID fence : Nat) (outcome : ActivationOutcome) (outcomeDigest : Digest) :
    Except Error (DB × Unit) := do
  require (validOpaqueID serverID ∧ validOpaqueID environmentID ∧ 0 < attemptID ∧ 0 < fence)
    (.sentinel .invalidInput)
  let _ ← lockActiveServerCredential db serverID presented
  let slot ← found (db.slots.get? environmentID) (.sentinel .serverAuthorizationDenied)
  let authorize (a : Attempt) : Except Error Unit :=
    require (a.serverID = serverID ∧ a.environmentID = environmentID ∧ a.fence = fence)
      (.sentinel .serverAuthorizationDenied)
  if slot.reconciliationAttemptID ≠ some attemptID then do
    -- the slot no longer names the attempt: answer from its events and its operation
    let attempt ← found (db.attempts.get? attemptID) (.sentinel .serverAuthorizationDenied)
    authorize attempt
    require (attempt.state ≠ .leased ∧ attempt.closedAt.isSome) (.sentinel .serverAuthorizationDenied)
    require (reconciledEvent db attempt.jobID attemptID) (.sentinel .serverAuthorizationDenied)
    agreeResolvedOutcome db attemptID outcome (some outcomeDigest)
    pure (db, ())
  else do
    let peek ← found (db.attempts.get? attemptID)
      (.wrap "locate agent lease reconciliation attempt job" (.db .noRows))
    authorize peek
    let db ← resolveDeclared now db
      { environmentID := environmentID
        jobID := peek.jobID
        attemptID := attemptID
        slotCurrentAttemptID := slot.currentAttemptID
        outcome := outcome
        authorize := authorize
        outcomeDigest := some outcomeDigest
        plainAttemptRefusal := fun a => require (a.state ≠ .leased ∧ a.closedAt.isSome)
          (.sentinel .serverAuthorizationDenied)
        clearPlain := fun db => clearSlotFlag now db environmentID peek.jobID attemptID
        audit := id }
    pure (db, ())

end AutoDeploy.Store
