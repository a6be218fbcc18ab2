import AutoDeploy.Lib.Utf8
import AutoDeploy.Store.Lease

namespace AutoDeploy.Store

open Lib Lib.Result Queue

def maxActivationFailureSummaryBytes : Nat := 512

def sanitizeBoundedText (summary : Bytes) (maxBytes : Nat) : Bytes :=
  let text := (Utf8.toValid '?' summary).map fun c => if Utf8.isControl c then ' ' else c
  Utf8.truncateOnRuneBoundary (Utf8.encode (Utf8.trimSpace text)) maxBytes

-- Bytes that start with a visible ASCII character are not sanitized away.
theorem sanitizeBoundedText_ne_nil {b : UInt8} {rest : Bytes} {maxBytes : Nat} (hascii : b < 0x80)
    (hencode : String.utf8EncodeChar (Char.ofNat b.toNat) = [b])
    (hcontrol : Utf8.isControl (Char.ofNat b.toNat) = false) (hspace : Utf8.isSpace (Char.ofNat b.toNat) = false)
    (hmax : 0 < maxBytes) : sanitizeBoundedText (b :: rest) maxBytes ≠ [] := by
  obtain ⟨text, htext⟩ := Utf8.toValid_ascii '?' hascii rest
  simp only [sanitizeBoundedText, htext, List.map_cons, hcontrol, Bool.false_eq_true, if_false]
  obtain ⟨trimmed, htrimmed⟩ := Utf8.trimSpace_cons hspace (text.map fun c => if Utf8.isControl c = true then ' ' else c)
  rw [htrimmed, Utf8.encode, List.flatMap_cons, hencode]
  exact Utf8.truncate_ne_nil hmax

def sanitizeOutcomeSummary (summary : Bytes) : Bytes :=
  sanitizeBoundedText summary maxActivationFailureSummaryBytes

def emptyFailureSummary : Bytes := Bytes.ofString "activation failure reported without detail"

def failureOutcomeSummary (raw : Bytes) : Bytes :=
  let summary := sanitizeOutcomeSummary raw
  if summary = [] then emptyFailureSummary else summary

theorem failureOutcomeSummary_ne_nil (raw : Bytes) : failureOutcomeSummary raw ≠ [] := by
  unfold failureOutcomeSummary
  simp only
  split
  · decide
  · assumption

-- The route document an activation authorizes.
def activationRoute (environmentID hostname : String) (routeRevision attemptID fence : Nat)
    (releaseID : String) (execution : ExecutionSnapshot) : Traefik.EnvironmentRoute :=
  { environmentID := environmentID
    routeRevision := routeRevision
    hostname := hostname
    entrypointName := Traefik.defaultEntrypointName
    certResolverName := Traefik.defaultCertResolverName
    backendRuntimeInstanceID := Dockerid.attemptRuntimeInstanceID attemptID
    backendPort := execution.containerPort
    backendScheme := execution.containerScheme
    releaseID := releaseID
    fenceID := toString fence }

-- The digest of that document, as it is stored.
def renderRouteDigest (route : Traefik.EnvironmentRoute) : Except Error (String × Digest) := do
  let (_, text) ← (Traefik.render route).mapError fun _ =>
    Error.wrap "render activation route document" (.plain "traefik: environment route is invalid")
  let digest ← found (Traefik.decodeDigest text) (.plain "decode rendered route digest")
  pure (text, digest)

def activationResult (operationID routeRevision attemptID : Nat) (hostname routeDigest : String) :
    ActivationResult :=
  { operationID := toString operationID
    routeRevision := routeRevision
    hostname := hostname
    entrypointName := Traefik.defaultEntrypointName
    certResolverName := Traefik.defaultCertResolverName
    backendRuntimeInstanceID := Dockerid.attemptRuntimeInstanceID attemptID
    routeDigest := routeDigest }

-- A second call for the same attempt and fence: only an open authorization is replayed, with the
-- stored digest and revision and the hostname the route head has now.
def activateReplay (db : DB) (environmentID : String) (attemptID : Nat) (imageDigest : Digest)
    (operationID : Nat) (op : Operation) : Except Error ActivationResult := do
  if op.state ≠ .switchAuthorized then
    if unresolvedActivation op.state then .error (.sentinel .environmentBlocked)
    else .error (.sentinel .leaseStale)
  else
    require (op.digest = imageDigest) (.sentinel .integrityConflict)
    let head ← found (db.routeHeads.get? environmentID)
      (.wrap "lock route head for activate replay" (.db .noRows))
    pure (activationResult operationID (op.expectedRouteRevision + 1) attemptID head.hostname
      (Traefik.digestText op.routeDigest))

-- The candidate becomes ready with its image digest, once.
def readyCandidate (now : Nat) (db : DB) (releaseID : String) (release : Release) (imageDigest : Digest) :
    Except Error DB :=
  match release.state with
  | .candidate => do
      let (db, _) ← during "transition candidate release to ready" <|
        updateRelease db releaseID (fun _ => true) fun r =>
          { r with imageDigest := some imageDigest, state := .ready, updatedAt := now }
      pure db
  | .ready => do
      require (release.imageDigest = some imageDigest) (.sentinel .integrityConflict)
      pure db
  | _ => .error (.sentinel .candidateNotReady)

def isUniqueViolationOf (constraint : String) : DbError → Bool
  | .pg e => e.code == "23505" && e.constraintName == constraint
  | _ => false

-- A first authorization.
def authorizeActivation (now : Nat) (db : DB) (l : Lease) (attemptID fence : Nat) (imageDigest : Digest) :
    Except Error (DB × ActivationResult) := do
  let environmentID := l.attempt.environmentID
  require (db.operations.any (fun _ op =>
      op.environmentID == environmentID && unresolvedActivation op.state) = false)
    (.sentinel .environmentBlocked)
  let db ← transitionDeployment db l.job.deploymentID .activating now
  let head ← found (db.routeHeads.get? environmentID) (.sentinel .noRouteHead)
  require (head.reconciliationRequired = false) (.sentinel .leaseStale)
  let (releaseID, release) ← found (db.releases.find? fun _ r => r.deploymentID == l.job.deploymentID)
    (.detail (.sentinel .corruptState) ("deployment " ++ l.job.deploymentID ++ " has no release row"))
  let db ← readyCandidate now db releaseID release imageDigest
  let execution ← found (db.executions.get? attemptID)
    (.wrap "load frozen execution config for activate" (.db .noRows))
  let (routeDigestText, routeDigest) ← renderRouteDigest
    (activationRoute environmentID head.hostname (head.routeRevision + 1) attemptID fence releaseID execution)
  let (db, operationID) ← (insertOperation db
      { releaseID := releaseID, jobID := l.attempt.jobID, attemptID := attemptID, fence := fence,
        digest := imageDigest, state := .switchAuthorized, outcomeSummary := [], createdAt := now,
        closedAt := none, environmentID := environmentID,
        expectedActiveReleaseID := head.activeReleaseID.filter (fun id => id != ""),
        expectedRouteRevision := head.routeRevision, routeDigest := routeDigest }).mapError fun e =>
    if isUniqueViolationOf "release_operations_environment_open_activation_idx" e
    then .sentinel .environmentBlocked
    else .wrap "insert activation operation" (.db e)
  let db := appendAgentJobEvent db l.attempt.jobID (some attemptID) .activationAuthorized
  during "commit agent lease activate" (validateReleaseNotReferencedUnlessActive db releaseID)
  pure (db, activationResult operationID (head.routeRevision + 1) attemptID head.hostname routeDigestText)

def activate (now : Nat) (db : DB) (serverID : String) (presented : Digest) (attemptID fence : Nat)
    (imageDigest : Digest) : Except Error (DB × ActivationResult) := do
  require (validOpaqueID serverID ∧ 0 < attemptID ∧ 0 < fence) (.sentinel .invalidInput)
  let l ← lockLease db "activate" serverID presented attemptID
  require (l.live now attemptID fence) (.sentinel .leaseStale)
  require (l.job.cancelRequestedAt = none) (.sentinel .leaseStale)
  match db.operations.find? fun _ op => op.attemptID == attemptID && op.fence == fence with
  | some (operationID, op) => do
      let result ← activateReplay db l.attempt.environmentID attemptID imageDigest operationID op
      pure (db, result)
  | none => authorizeActivation now db l attemptID fence imageDigest

def flagRouteHead (now : Nat) (db : DB) (environmentID : String) : Except Error DB := do
  let (db, n) ← during "flag route head for reconciliation" <|
    updateRouteHead db environmentID (fun h => !h.reconciliationRequired) fun h =>
      { h with reconciliationRequired := true, updatedAt := max h.updatedAt now }
  require (n = 1) (.detail (.sentinel .corruptState)
    ("route head for environment " ++ environmentID ++ " vanished during activation reconciliation"))
  pure db

-- The block: the operation, the two flags and one event. The occupant, the attempt, the job and
-- the deployment stay exactly as they are.
def blockActivationForReconciliation (now : Nat) (db : DB) (jobID attemptID operationID : Nat)
    (environmentID : String) (summary : Bytes) : Except Error DB := do
  let head := db.routeHeads.get? environmentID
  let (db, n) ← during "close activation operation for reconciliation" <|
    updateOperation db operationID (fun op => op.state == .switchAuthorized) fun op =>
      { op with state := .reconciliationRequired, closedAt := some now, outcomeSummary := summary }
  require (n = 1) (.sentinel .leaseStale)
  let db ← (if head.any (fun h => !h.reconciliationRequired) then flagRouteHead now db environmentID else pure db)
  let (db, n) ← during "flag environment slot for reconciliation" <|
    updateSlot db environmentID (fun _ => true) fun s =>
      { s with reconciliationAttemptID := some attemptID, updatedAt := now }
  require (n = 1) (.detail (.sentinel .corruptState)
    ("environment slot " ++ environmentID ++ " vanished during activation reconciliation"))
  pure (appendAgentJobEvent db jobID (some attemptID) .activationReconciliationRequired)

structure FinalizeInput where
  jobID : Nat
  attemptID : Nat
  operationID : Nat
  environmentID : String
  deploymentID : String
  candidateReleaseID : String
  expectedRouteRevision : Nat
  expectedActiveReleaseID : Option String
  resultDigest : Digest
  summary : Bytes
  fromState : OperationState

def validateFinalizeFromState (s : OperationState) : Except Error Unit :=
  require (s = .switchAuthorized ∨ s = .reconciliationRequired)
    (.plain ("finalizeActivationSucceeded: programming error: fromState \"" ++ s.text ++
      "\" must be switch_authorized or reconciliation_required"))

def releaseStateText (db : DB) (id : String) : String :=
  ((db.releases.get? id).map fun r => r.state.text).getD ""

-- The predecessor leaves `active` before the candidate enters it.
def retainPredecessor (now : Nat) (db : DB) : Option String → Except Error DB
  | none => pure db
  | some id => do
      require ((db.releases.get? id).any fun r => r.state == .active)
        (.detail (.sentinel .corruptState)
          ("predecessor release " ++ id ++ " is \"" ++ releaseStateText db id ++ "\" at activation result"))
      let (db, _) ← during "retain predecessor release" <|
        updateRelease db id (fun r => r.state == .active) fun r =>
          { r with state := .retained, updatedAt := now }
      pure db

-- The route head moves to the candidate, the operation closes, and the attempt, slot and job
-- complete, in one transaction.
def finalizeActivationSucceeded (now : Nat) (db : DB) (i : FinalizeInput) : Except Error DB := do
  validateFinalizeFromState i.fromState
  let db ← transitionDeployment db i.deploymentID .healthy now
  let head ← found (db.routeHeads.get? i.environmentID)
    (.detail (.sentinel .corruptState)
      ("environment " ++ i.environmentID ++ " has no route head at activation result"))
  require (head.routeRevision = i.expectedRouteRevision ∧ head.activeReleaseID = i.expectedActiveReleaseID)
    (.sentinel .routeMoved)
  require (¬ (head.reconciliationRequired ∧ i.fromState = .switchAuthorized))
    (.detail (.sentinel .corruptState)
      ("route head of environment " ++ i.environmentID ++ " is flagged while operation " ++
        toString i.operationID ++ " is switch_authorized at activation result"))
  require ((db.releases.get? i.candidateReleaseID).any fun r => r.state == .ready)
    (.detail (.sentinel .corruptState) ("candidate release " ++ i.candidateReleaseID ++ " is \"" ++
      releaseStateText db i.candidateReleaseID ++ "\" at activation result"))
  let db ← retainPredecessor now db i.expectedActiveReleaseID
  let (db, _) ← during "activate candidate release" <|
    updateRelease db i.candidateReleaseID (fun r => r.state == .ready) fun r =>
      { r with state := .active, updatedAt := now }
  let (db, n) ← during "advance route head" <|
    updateRouteHead db i.environmentID (fun h => h.routeRevision == i.expectedRouteRevision) fun h =>
      { h with
        activeReleaseID := some i.candidateReleaseID
        routeRevision := h.routeRevision + 1
        reconciliationRequired := false
        updatedAt := max h.updatedAt now }
  require (n = 1) (.sentinel .routeMoved)
  let db := insertRouteEvent db
    ⟨i.environmentID, .activated, i.expectedRouteRevision + 1, none, some i.candidateReleaseID⟩
  let (db, n) ← during "close activation operation" <|
    updateOperation db i.operationID (fun op => op.state == i.fromState) fun op =>
      { op with state := .succeeded, closedAt := some (op.closedAt.getD now), outcomeSummary := i.summary }
  require (n = 1) (.sentinel .leaseStale)
  let (db, n) ← during "close agent job attempt" <|
    updateAttempt db i.attemptID (fun a => a.state == .leased) fun a =>
      { a with state := .succeeded, closedAt := some now, failureClass := none,
               result := some (toString i.operationID, i.resultDigest) }
  require (n = 1) (.detail (.sentinel .corruptState)
    ("attempt " ++ toString i.attemptID ++ " is not leased at activation finalize"))
  let (db, n) ← during "free environment slot" <|
    updateSlot db i.environmentID (fun s => s.currentAttemptID == some i.attemptID &&
        (s.reconciliationAttemptID.isNone || s.reconciliationAttemptID == some i.attemptID)) fun s =>
      { s with currentAttemptID := none, reconciliationAttemptID := none, updatedAt := now }
  require (n = 1) (.detail (.sentinel .corruptState)
    ("slot " ++ i.environmentID ++ " is not held by attempt " ++ toString i.attemptID ++
      ", or is flagged by another attempt, at activation finalize"))
  let (db, n) ← during "close agent job" <|
    updateJob db i.jobID (fun j => j.state == .leased) fun j => { j with state := .succeeded, updatedAt := now }
  require (n = 1) (.detail (.sentinel .corruptState)
    ("job " ++ toString i.jobID ++ " is not leased at activation finalize"))
  let db := appendAgentJobEvent db i.jobID (some i.attemptID) .activated
  pure (appendAgentJobEvent db i.jobID (some i.attemptID) .succeeded)

-- The deferred constraint triggers of a finalizing transaction, at its COMMIT.
def finalizeCommit (db : DB) (i : FinalizeInput) : Except DbError Unit := do
  validateRouteHeadActiveRelease db i.environmentID
  validateReleaseNotReferencedUnlessActive db i.candidateReleaseID
  match i.expectedActiveReleaseID with
  | none => pure ()
  | some id => validateReleaseNotReferencedUnlessActive db id

end AutoDeploy.Store
