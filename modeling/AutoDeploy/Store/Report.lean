import AutoDeploy.Store.Resolution

namespace AutoDeploy.Store

open Lib Lib.Result Queue

-- Classification of failures.

def retryableActivationPgCode (code : String) : Bool :=
  ["XX000", "40001", "40P01", "40003", "57014", "57P01", "57P02", "57P03", "57P05", "55P03", "25006",
    "25P03", "25P04", "58030", "26000"].contains code ||
    code.toList.take 2 == ['0', '8'] || code.toList.take 2 == ['5', '3']

def retryableActivationPgError (e : PgError) : Bool :=
  retryableActivationPgCode e.code || (e.code == "0A000" && e.routine == "RevalidateCachedQuery")

def connectionFailure : DbError → Bool
  | .contextCanceled | .deadlineExceeded | .eof | .unexpectedEOF | .connClosed => true
  | _ => false

def networkFailure : DbError → Bool
  | .net _ => true
  | _ => false

def isTransientActivationFailure (e : Error) : Bool :=
  e.hasDb connectionFailure ||
    match e.asPg with
    | some pg => retryableActivationPgError pg
    | none => e.hasDb networkFailure

-- Every error not known to be transient is deterministic.
def isDeterministicActivationFailure (e : Error) : Bool := !isTransientActivationFailure e

def isDeploymentDomainError (e : Error) : Bool :=
  e.hasDomain || e.is .revisionConflict || e.is .notFound || e.is .revisionOverflow

def classifyActivationResultError (e : Error) : Error :=
  if e.is .blockUnrecorded then e
  else
    match e.asPg with
    | some pg =>
        if retryableActivationPgError pg then
          if isDeploymentDomainError e then .both (.sentinel .corruptState) e else e
        else
          .both (.detail (.sentinel .constraintViolation)
            ("sqlstate " ++ pg.code ++ " constraint \"" ++ pg.constraintName ++ "\"")) e
    | none => if isDeploymentDomainError e then .both (.sentinel .corruptState) e else e

def blockUnrecorded (e : Error) : Error := .both (.sentinel .blockUnrecorded) e

-- How the agent's HTTP handler answers: the code of a refusal, and whether a client repeats the call.
inductive Answer where
  | retry
  | refuse (code : String)
deriving DecidableEq, Repr

def mapError (e : Error) : Answer :=
  if e.is .blockUnrecorded then .retry
  else if e.is .serverAuthorizationDenied then .refuse "unauthorized"
  else if e.is .leaseStale then .refuse "stale_lease"
  else if e.is .integrityConflict then .refuse "integrity_conflict"
  else if e.is .candidateNotReady then .refuse "candidate_not_ready"
  else if e.is .noRouteHead then .refuse "no_route_head"
  else if e.is .activationOpen then .refuse "activation_open"
  else if e.is .environmentBlocked then .refuse "environment_activation_blocked"
  else if e.is .lateReportRecorded then .refuse "late_report_recorded"
  else if e.is .routeMoved then .refuse "route_moved"
  else if e.is .outcomeMismatch then .refuse "outcome_mismatch"
  else if e.is .activationUnresolved then .refuse "activation_unresolved"
  else if e.is .corruptState then .refuse "corrupt_state"
  else if e.is .constraintViolation then .refuse "constraint_violation"
  else if e.is .invalidInput then .refuse "invalid_request"
  else .retry

-- Late evidence.

structure ActivationReport where
  succeeded : Bool
  digestMatches : Bool
  observedRouteDigest : Digest
  failureSummary : Bytes
deriving DecidableEq

def lateReportMarkerStart : Bytes := Bytes.ofString "late report #"

def lateSuccessReserve : Nat := 512

def hexBytes (bytes : Bytes) : Bytes := Bytes.ofString (String.ofList (Bytes.toHex bytes))

def lateReportFingerprint (r : ActivationReport) : Bytes :=
  let content :=
    if r.succeeded then Bytes.ofString "success\x00" ++ r.observedRouteDigest.bytes
    else Bytes.ofString "failure\x00" ++ r.failureSummary
  hexBytes ((Sha256.sum content).bytes.take 8)

def lateReportMarker (fingerprint : Bytes) : Bytes :=
  lateReportMarkerStart ++ fingerprint ++ Bytes.ofString ":"

-- A repeat of the failure report that created the block.
def isOriginalBlockReplay (existing failureSummary : Bytes) : Bool :=
  existing == failureSummary ||
    (failureSummary ++ lateReportSeparator ++ lateReportMarkerStart).isPrefixOf existing

def lateSuccessBody (observedRouteDigest : Digest) (digestMatches : Bool) : Bytes :=
  Bytes.ofString ("agent reported success after the activation was blocked; matches authorized digest: " ++
    toString digestMatches ++ "; observed route digest " ++ Traefik.digestText observedRouteDigest)

def lateFailureBody (failureSummary : Bytes) : Bytes :=
  Bytes.ofString "agent reported failure after the activation was blocked: " ++ failureSummary

-- The summary with the report's entry, or `none` when it is already there or does not fit. The last
-- part of the column is kept for success entries.
def appendLateEvidence (existing fingerprint body : Bytes) (success : Bool) : Option Bytes :=
  let marker := lateReportMarker fingerprint
  let used := existing.length + lateReportSeparator.length + (if success then 0 else lateSuccessReserve)
  let room := maxOutcomeSummaryBytes - used
  if Utf8.contains existing marker then none
  else if room < marker.length then none
  else
    let text := sanitizeBoundedText body maxOutcomeSummaryBytes
    let entry := if text = [] then marker else marker ++ Bytes.ofString " " ++ text
    some (existing ++ lateReportSeparator ++ Utf8.truncateOnRuneBoundary entry room)

def lateEvidence (existing : Bytes) (r : ActivationReport) : Option Bytes :=
  let body :=
    if r.succeeded then lateSuccessBody r.observedRouteDigest r.digestMatches
    else lateFailureBody r.failureSummary
  appendLateEvidence existing (lateReportFingerprint r) body r.succeeded

-- The parts of a report's transactions. A transaction goes through each of them once at most.
inductive Part where
  | locks
  | recheck
  | finalize
  | rollback
  | block
  | lateReport
  | declared
deriving DecidableEq, Repr

-- Which statements of one transaction fail, by the part they stand in and their place there (the same text can
-- stand in several places), and how its COMMIT fails: the flag says whether the server had applied the transaction
-- all the same.
structure Faults where
  statement : Part → Nat → Option DbError
  commit : Option (DbError × Bool)

def Faults.none : Faults := ⟨fun _ _ => .none, .none⟩

def Faults.run (f : Faults) (part : Part) (place : Nat) (statement : String) : Except Error Unit :=
  match f.statement part place with
  | some e => .error (.wrap statement (.db e))
  | .none => .ok ()

def Faults.runAll (f : Faults) (part : Part) (place : Nat) : List String → Except Error Unit
  | [] => .ok ()
  | s :: rest => do
      f.run part place s
      f.runAll part (place + 1) rest

-- COMMIT: the deferred checks decide, unless the call itself fails.
def Faults.commitTx (f : Faults) (before after : DB) (deferred : Except DbError Unit) :
    DB × Except DbError Unit :=
  match f.commit, deferred with
  | .none, .ok () => (after, .ok ())
  | .none, .error e => (before, .error e)
  | some (e, true), .ok () => (after, .error e)
  | some (e, _), _ => (before, .error e)

def eventStatements : List String := ["compute agent job event sequence", "append agent job event"]

def blockStatements : List String :=
  ["lock route head for activation reconciliation", "agent lease activation block canonical time",
    "close activation operation for reconciliation", "flag route head for reconciliation",
    "flag environment slot for reconciliation"] ++ eventStatements

def snapshotStatements (context deploymentID : String) : List String :=
  [context ++ "load deployment " ++ deploymentID, context ++ "load deployment events " ++ deploymentID,
    context ++ "scan deployment event " ++ deploymentID, context ++ "load deployment events " ++ deploymentID]

def finalizeStatements (deploymentID : String) : List String :=
  snapshotStatements "load deployment for transition: " deploymentID ++ ["lock deployment " ++ deploymentID] ++
    snapshotStatements "" deploymentID ++
    ["update deployment", "count deployment events", "append deployment event",
      "lock route head for activation result", "lock releases for activation result",
      "scan release for activation result", "lock releases for activation result", "retain predecessor release",
      "activate candidate release", "advance route head", "insert route event", "close activation operation",
      "close agent job attempt", "free environment slot", "close agent job"] ++
    eventStatements ++ eventStatements

def blockWithFaults (f : Faults) (now : Nat) (db : DB) (jobID attemptID operationID : Nat)
    (environmentID : String) (summary : Bytes) : Except Error DB := do
  f.runAll .block 0 blockStatements
  blockActivationForReconciliation now db jobID attemptID operationID environmentID summary

-- Append the report's entry and its event; `none` when nothing is written.
def writeLateEvidence (f : Faults) (db : DB) (jobID attemptID operationID : Nat) (existing : Bytes)
    (r : ActivationReport) : Except Error (Option DB) :=
  match lateEvidence existing r with
  | .none => pure .none
  | some updated => do
      f.run .lateReport 0 "record late activation report"
      let (db, n) ← during "record late activation report" <|
        updateOperation db operationID (fun op => op.state == .reconciliationRequired) fun op =>
          { op with outcomeSummary := updated }
      require (n = 1) (.plain ("record late activation report: operation " ++ toString operationID ++
        " not updated (rows=" ++ toString n ++ ")"))
      f.runAll .lateReport 1 eventStatements
      pure (some (appendAgentJobEvent db jobID (some attemptID) .activationLateReport))

structure ReportRequest where
  serverID : String
  presented : Digest
  attemptID : Nat
  fence : Nat
  operationID : String
  succeeded : Bool
  observedRouteDigest : Digest
  failureSummary : Bytes

-- A positive decimal that fits a signed 64-bit integer, with an optional sign.
def parseOperationID (s : String) : Option Nat :=
  let digits := match s.toList with
    | '+' :: rest => rest
    | cs => cs
  if digits = [] ∨ digits.all Text.isDigit = false then none
  else
    let n := digits.foldl (fun n c => n * 10 + (c.toNat - 48)) 0
    if 0 < n ∧ n < 2 ^ 63 then some n else none

structure ReportContext where
  lease : Lease
  operationID : Nat
  operation : Operation
  report : ActivationReport

def ReportContext.environmentID (c : ReportContext) : String := c.lease.attempt.environmentID

def ReportContext.jobID (c : ReportContext) : Nat := c.lease.attempt.jobID

-- Everything a report reads and locks before the state of its operation decides.
def lockReport (f : Faults) (db : DB) (q : ReportRequest) : Except Error ReportContext := do
  require (validOpaqueID q.serverID ∧ 0 < q.attemptID ∧ 0 < q.fence ∧ validOperationID q.operationID)
    (.sentinel .invalidInput)
  let parsed ← found (parseOperationID q.operationID) (.sentinel .invalidInput)
  f.runAll .locks 0 ["begin agent lease activation result", "lock active server for credential check",
    "lock active server credential", "locate agent job attempt",
    "lock environment slot for activation result", "lock agent job for activation result",
    "lock agent job attempt for activation result"]
  let l ← lockLease db "activation result" q.serverID q.presented q.attemptID
  require (l.attempt.fence = q.fence) (.sentinel .leaseStale)
  f.run .locks 7 "lock activation operation"
  let (id, op) ← found
    (db.operations.find? fun _ op => op.attemptID == q.attemptID && op.fence == q.fence) (.sentinel .leaseStale)
  require (id = parsed) (.sentinel .integrityConflict)
  pure
    { lease := l
      operationID := id
      operation := op
      report := ⟨q.succeeded, op.routeDigest == q.observedRouteDigest, q.observedRouteDigest,
        failureOutcomeSummary q.failureSummary⟩ }

inductive BlockOutcome where
  | recorded
  | noopSucceeded
  | noopOther
  | lateRecorded
  | stale
deriving DecidableEq, Repr

def lateOutcomeError : BlockOutcome → Option Error
  | .lateRecorded => some (.sentinel .lateReportRecorded)
  | .stale => some (.sentinel .leaseStale)
  | _ => none

def recordBlockLocks : List String :=
  ["begin activation reconciliation block", "locate attempt for activation reconciliation block",
    "lock environment slot for activation reconciliation block",
    "lock agent job for activation reconciliation block",
    "lock agent job attempt for activation reconciliation block",
    "lock activation operation for reconciliation block"]

structure BlockRequest where
  serverID : String
  attemptID : Nat
  fence : Nat
  operationID : Nat
  evidence : Bytes
  report : ActivationReport

-- The rows the fresh transaction locks, without revalidating the credential.
def lockBlock (f : Faults) (db : DB) (q : BlockRequest) : Except Error (Lease × Operation) := do
  f.runAll .locks 0 recordBlockLocks
  let attempt ← found ((db.attempts.get? q.attemptID).filter fun a => a.serverID == q.serverID)
    (.wrap "locate attempt for activation reconciliation block" (.db .noRows))
  let slot ← found (db.slots.get? attempt.environmentID)
    (.wrap "lock environment slot for activation reconciliation block" (.db .noRows))
  let job ← found (db.jobs.get? attempt.jobID)
    (.wrap "lock agent job for activation reconciliation block" (.db .noRows))
  let op ← found ((db.operations.get? q.operationID).filter fun op =>
      op.attemptID == q.attemptID && op.fence == q.fence)
    (.wrap "lock activation operation for reconciliation block" (.db .noRows))
  pure (⟨attempt, slot, job⟩, op)

def commitBlock (f : Faults) (before after : DB) (message : String) (outcome : BlockOutcome) :
    DB × Except Error BlockOutcome :=
  match f.commitTx before after (.ok ()) with
  | (db, .ok ()) => (db, .ok outcome)
  | (db, .error e) => (db, .error (blockUnrecorded (.wrap message (.db e))))

-- The block written in a transaction of its own; every failure of it is retryable.
def recordBlockInFreshTransaction (f : Faults) (now : Nat) (db : DB) (q : BlockRequest) :
    DB × Except Error BlockOutcome :=
  match lockBlock f db q with
  | .error e => (db, .error (blockUnrecorded e))
  | .ok (l, op) =>
      let occupant : Bool := decide (l.occupies q.attemptID q.fence)
      if op.state = .succeeded then (db, .ok .noopSucceeded)
      else if op.state = .reconciliationRequired then
        if !q.report.succeeded && isOriginalBlockReplay op.outcomeSummary q.report.failureSummary then
          (db, .ok .recorded)
        else if !occupant then (db, .ok .stale)
        else
          match writeLateEvidence f db l.attempt.jobID q.attemptID q.operationID op.outcomeSummary q.report with
          | .error e => (db, .error (blockUnrecorded e))
          | .ok none => (db, .ok .lateRecorded)
          | .ok (some after) => commitBlock f db after "commit late activation report" .lateRecorded
      else if op.state ≠ .switchAuthorized ∨ !occupant then (db, .ok .noopOther)
      else
        match blockWithFaults f now db l.attempt.jobID q.attemptID q.operationID l.attempt.environmentID
            q.evidence with
        | .error e => (db, .error (blockUnrecorded e))
        | .ok after => commitBlock f db after "commit activation reconciliation block" .recorded

-- How the first transaction of a report ends: with an answer, or with the block still to be written
-- in a fresh transaction whose outcome becomes the answer.
inductive ReportNext where
  | answer (r : Except Error Unit)
  | fresh (evidence : Bytes) (conclude : Except Error BlockOutcome → Except Error Unit)

structure ReportStep where
  db : DB
  occupantChecked : Bool
  next : ReportNext

def unchecked (db : DB) (r : Except Error Unit) : ReportStep := ⟨db, false, .answer r⟩

def checked (db : DB) (r : Except Error Unit) : ReportStep := ⟨db, true, .answer r⟩

-- A plain commit of the first transaction.
def commitUnchecked (f : Faults) (before after : DB) (message : String) (r : Except Error Unit) : ReportStep :=
  match f.commitTx before after (.ok ()) with
  | (db, .ok ()) => unchecked db r
  | (db, .error e) => unchecked db (.error (.wrap message (.db e)))

-- A report that contradicts a declared outcome leaves one event behind.
def traceDeclaredContradiction (f : Faults) (db : DB) (jobID attemptID : Nat) : ReportStep :=
  let of (t : JobEventType) := db.jobEvents.filter fun e =>
    e.jobID == jobID && e.attemptID == some attemptID && e.eventType == t
  let latest := ((of .reconciled).map JobEvent.sequence).foldr max 0
  let declared := !(of .reconciled).isEmpty
  let traced := declared && (of .activationLateReport).any fun e => decide (latest < e.sequence)
  match f.run .declared 0 "look up declared reconciliation events" with
  | .error e => unchecked db (.error e)
  | .ok () =>
      if !declared || traced then unchecked db (.error (.sentinel .integrityConflict))
      else
        match f.runAll .declared 1 eventStatements with
        | .error e => unchecked db (.error e)
        | .ok () =>
            commitUnchecked f db (appendAgentJobEvent db jobID (some attemptID) .activationLateReport)
              "commit declared-outcome late report" (.error (.sentinel .integrityConflict))

def recordLateReport (f : Faults) (db : DB) (q : ReportRequest) (c : ReportContext) : ReportStep :=
  if c.lease.occupies q.attemptID q.fence then
    match writeLateEvidence f db c.jobID q.attemptID c.operationID c.operation.outcomeSummary c.report with
    | .error e => unchecked db (.error e)
    | .ok none => unchecked db (.error (.sentinel .lateReportRecorded))
    | .ok (some after) =>
        commitUnchecked f db after "commit late activation report" (.error (.sentinel .lateReportRecorded))
  else unchecked db (.error (.sentinel .leaseStale))

-- The answer after the block went to a fresh transaction because of `cause`.
def concludeAborted (cause : Error) : Except Error BlockOutcome → Except Error Unit
  | .error e => .error (.after e cause.text)
  | .ok .noopSucceeded => .ok ()
  | .ok outcome => .error ((lateOutcomeError outcome).getD cause)

def blockAfterAbortedTransaction (db : DB) (evidenceStart : String) (cause : Error) : ReportStep :=
  ⟨db, true, .fresh (sanitizeOutcomeSummary (Bytes.ofString (evidenceStart ++ cause.text)))
    (concludeAborted cause)⟩

-- A failure before the savepoint exists.
def abortAndBlock (db : DB) (cause : Error) : ReportStep :=
  if isDeterministicActivationFailure cause then
    blockAfterAbortedTransaction db "activation finalize failed: " cause
  else checked db (.error cause)

-- A success report that disagrees with what was authorized: block, then refuse.
def refuseAmbiguous (f : Faults) (now : Nat) (db : DB) (q : ReportRequest) (c : ReportContext)
    (evidence : String) (refusal : Error) : ReportStep :=
  let evidence := sanitizeOutcomeSummary (Bytes.ofString evidence)
  match blockWithFaults f now db c.jobID q.attemptID c.operationID c.environmentID evidence with
  | .error e => checked db (.error (blockUnrecorded e))
  | .ok after =>
      match f.commitTx db after (.ok ()) with
      | (db, .ok ()) => checked db (.error refusal)
      | (db, .error e) =>
          let commitErr : Error := .wrap "commit agent lease activation ambiguity block" (.db e)
          if isDeterministicActivationFailure (.db e) then
            ⟨db, true, .fresh evidence fun outcome =>
              match outcome with
              | .error freshErr => .error (.after freshErr commitErr.text)
              | .ok outcome => .error ((lateOutcomeError outcome).getD refusal)⟩
          else checked db (.error commitErr)

-- A failure report: the block itself is the answer.
def reportFailure (f : Faults) (now : Nat) (db : DB) (q : ReportRequest) (c : ReportContext) : ReportStep :=
  match blockWithFaults f now db c.jobID q.attemptID c.operationID c.environmentID c.report.failureSummary with
  | .error e => checked db (.error (blockUnrecorded e))
  | .ok after =>
      match f.commitTx db after (.ok ()) with
      | (db, .ok ()) => checked db (.ok ())
      | (db, .error e) =>
          let commitErr : Error := .wrap "commit agent lease activation result" (.db e)
          if isDeterministicActivationFailure (.db e) then
            ⟨db, true, .fresh c.report.failureSummary fun outcome =>
              match outcome with
              | .error freshErr => .error (.after freshErr commitErr.text)
              | .ok .recorded => .ok ()
              | .ok .noopSucceeded => .error (.sentinel .integrityConflict)
              | .ok .lateRecorded => .error (.sentinel .lateReportRecorded)
              | .ok _ => .error (.sentinel .leaseStale)⟩
          else checked db (.error commitErr)

-- A failure inside the savepoint: roll back to it and commit the block instead.
def blockAfterFinalizeFailure (f : Faults) (now : Nat) (db : DB) (q : ReportRequest) (c : ReportContext)
    (cause : Error) : ReportStep :=
  if isDeterministicActivationFailure cause = false then checked db (.error cause)
  else
    match f.run .rollback 0 "rollback to savepoint for reconciliation block failed" with
    | .error e => checked db (.error (blockUnrecorded (.after e cause.text)))
    | .ok () =>
        let evidence := sanitizeOutcomeSummary (Bytes.ofString ("activation finalize failed: " ++ cause.text))
        match blockWithFaults f now db c.jobID q.attemptID c.operationID c.environmentID evidence with
        | .error e =>
            checked db (.error (blockUnrecorded
              (.wrap ("record activation reconciliation block after " ++ cause.text) e)))
        | .ok after =>
            match f.commitTx db after (.ok ()) with
            | (db, .ok ()) => checked db (.error cause)
            | (db, .error e) =>
                if isDeterministicActivationFailure (.db e) then
                  blockAfterAbortedTransaction db "activation finalize failed: " cause
                else
                  checked db (.error (blockUnrecorded
                    (.wrap ("commit activation reconciliation block after " ++ cause.text) (.db e))))

def reportFinalizeInput (q : ReportRequest) (c : ReportContext) : FinalizeInput :=
  { jobID := c.jobID
    attemptID := q.attemptID
    operationID := c.operationID
    environmentID := c.environmentID
    deploymentID := c.lease.job.deploymentID
    candidateReleaseID := c.operation.releaseID
    expectedRouteRevision := c.operation.expectedRouteRevision
    expectedActiveReleaseID := c.operation.expectedActiveReleaseID
    resultDigest := q.observedRouteDigest
    summary := Bytes.ofString ("activated route_digest=" ++ Traefik.digestText q.observedRouteDigest)
    fromState := .switchAuthorized }

-- Finalize inside the savepoint, then COMMIT.
def reportFinalize (f : Faults) (now : Nat) (db : DB) (q : ReportRequest) (c : ReportContext) : ReportStep :=
  let input := reportFinalizeInput q c
  match f.run .finalize 0 "agent lease activation result canonical time" with
  | .error e => blockAfterFinalizeFailure f now db q c e
  | .ok () =>
      match (do
          f.runAll .finalize 1 (finalizeStatements input.deploymentID)
          finalizeActivationSucceeded now db input : Except Error DB) with
      | .error e => blockAfterFinalizeFailure f now db q c e
      | .ok after =>
          match f.commitTx db after (finalizeCommit after input) with
          | (db, .ok ()) => checked db (.ok ())
          | (db, .error e) =>
              let commitErr : Error := .wrap "commit agent lease activation result" (.db e)
              if isDeterministicActivationFailure (.db e) then
                blockAfterAbortedTransaction db "activation finalize failed at commit: " commitErr
              else checked db (.error commitErr)

def optionalStringForSummary (v : Option String) : String := v.getD "<none>"

-- A success report with the authorized digest: recheck the route head, then finalize.
def reportSuccess (f : Faults) (now : Nat) (db : DB) (q : ReportRequest) (c : ReportContext) : ReportStep :=
  let op := c.operation
  match f.run .recheck 0 "lock deployment for activation result" with
  | .error e => abortAndBlock db e
  | .ok () =>
      match f.run .recheck 1 "lock route head for activation result" with
      | .error e => abortAndBlock db e
      | .ok () =>
          match db.routeHeads.get? c.environmentID with
          | none =>
              let missing := "environment " ++ c.environmentID ++ " has no route head at activation result"
              refuseAmbiguous f now db q c missing (.detail (.sentinel .corruptState) missing)
          | some head =>
              if head.activeReleaseID ≠ op.expectedActiveReleaseID ∨
                  head.routeRevision ≠ op.expectedRouteRevision then
                refuseAmbiguous f now db q c
                  ("route head moved since authorization: expected revision " ++
                    toString op.expectedRouteRevision ++ " active " ++
                    optionalStringForSummary op.expectedActiveReleaseID ++ ", found revision " ++
                    toString head.routeRevision ++ " active " ++ optionalStringForSummary head.activeReleaseID)
                  (.sentinel .routeMoved)
              else
                match f.run .recheck 2 "savepoint for activation finalize" with
                | .error e => abortAndBlock db e
                | .ok () => reportFinalize f now db q c

-- An open operation whose attempt is still the leased occupant. Authority expiry is not consulted.
def reportOpen (f : Faults) (now : Nat) (db : DB) (q : ReportRequest) (c : ReportContext) : ReportStep :=
  if c.report.succeeded = false then reportFailure f now db q c
  else if c.report.digestMatches = false then
    refuseAmbiguous f now db q c
      ("route digest mismatch: expected " ++ Traefik.digestText c.operation.routeDigest ++ " observed " ++
        Traefik.digestText q.observedRouteDigest) (.sentinel .integrityConflict)
  else reportSuccess f now db q c

-- The first transaction of a report.
def reportTx (f : Faults) (now : Nat) (db : DB) (q : ReportRequest) : ReportStep :=
  match lockReport f db q with
  | .error e => unchecked db (.error e)
  | .ok c =>
      match c.operation.state with
      | .succeeded =>
          if c.report.succeeded ∧ c.report.digestMatches then
            commitUnchecked f db db "commit agent lease activation result replay" (.ok ())
          else traceDeclaredContradiction f db c.jobID q.attemptID
      | .failed =>
          if c.report.succeeded then traceDeclaredContradiction f db c.jobID q.attemptID
          else unchecked db (.error (.sentinel .integrityConflict))
      | .reconciliationRequired =>
          if c.report.succeeded = false ∧
              isOriginalBlockReplay c.operation.outcomeSummary c.report.failureSummary then
            commitUnchecked f db db "commit agent lease activation result failure replay" (.ok ())
          else recordLateReport f db q c
      | .started =>
          unchecked db (.error (.detail (.sentinel .corruptState)
            ("activation operation " ++ toString c.operationID ++ " in state \"started\"")))
      | .switchAuthorized =>
          if c.lease.occupies q.attemptID q.fence then reportOpen f now db q c
          else unchecked db (.error (.sentinel .leaseStale))

-- The block the fresh transaction is asked to write.
def freshBlock (q : ReportRequest) (c : ReportContext) (evidence : Bytes) : BlockRequest :=
  ⟨q.serverID, q.attemptID, q.fence, c.operationID, evidence, c.report⟩

-- The whole call: its first transaction, what others commit meanwhile, and the fresh transaction when
-- one is needed. Only errors after the occupant check are classified.
def reportActivationResult (f : Faults) (now : Nat) (between : DB → DB) (f' : Faults) (now' : Nat)
    (db : DB) (q : ReportRequest) : DB × Except Error Unit :=
  let step := reportTx f now db q
  let classify (r : Except Error Unit) : Except Error Unit :=
    if step.occupantChecked then r.mapError classifyActivationResultError else r
  match step.next with
  | .answer r => (step.db, classify r)
  | .fresh evidence conclude =>
      match lockReport f db q with
      | .error e => (step.db, .error e)
      | .ok c =>
          let (db, outcome) := recordBlockInFreshTransaction f' now' (between step.db) (freshBlock q c evidence)
          (db, classify (conclude outcome))

end AutoDeploy.Store
