import AutoDeploy.Lib.Table
import AutoDeploy.Queue
import AutoDeploy.Traefik
import AutoDeploy.Errors

namespace AutoDeploy.Store

open Lib Queue

-- agent_jobs. The schema version, job kind, idempotency key and payload digest are written at
-- enqueue and read by nothing below.
structure Job where
  ownerID : String
  projectID : String
  environmentID : String
  serverID : String
  deploymentID : String
  repositoryID : Nat
  fullRef : String
  commitSHA : String
  priority : Int
  availableAt : Nat
  createdAt : Nat
  state : JobState
  attemptCount : Nat
  cancelRequestedAt : Option Nat
  updatedAt : Nat
deriving DecidableEq, Repr

-- environment_slots. The schema ties `reconciliation_required` to the presence of
-- `reconciliation_attempt_id`, so one optional field stands for both columns.
structure Slot where
  fence : Nat
  currentAttemptID : Option Nat
  reconciliationAttemptID : Option Nat
  updatedAt : Nat
deriving DecidableEq, Repr

def Slot.reconciliationRequired (s : Slot) : Bool := s.reconciliationAttemptID.isSome

-- agent_job_attempts. The result operation id and digest are present together or not at all.
structure Attempt where
  jobID : Nat
  attemptNumber : Nat
  serverID : String
  environmentID : String
  fence : Nat
  state : AttemptState
  renewalSequence : Nat
  leaseExpiresAt : Nat
  authorityExpiresAt : Nat
  cancelDeadlineAt : Option Nat
  failureClass : Option FailureClass
  result : Option (String × Digest)
  closedAt : Option Nat
  createdAt : Nat
deriving DecidableEq

inductive ReleaseStrategy where
  | blueGreen
  | stopThenStart
deriving DecidableEq, Repr

def ReleaseStrategy.text : ReleaseStrategy → String
  | .blueGreen => "blue_green"
  | .stopThenStart => "stop_then_start"

inductive RestartPolicy where
  | unlessStopped
  | onFailure
deriving DecidableEq, Repr

def RestartPolicy.text : RestartPolicy → String
  | .unlessStopped => "unless-stopped"
  | .onFailure => "on-failure"

inductive DeliveryScope where
  | build
  | runtime
deriving DecidableEq, Repr

def DeliveryScope.text : DeliveryScope → String
  | .build => "build"
  | .runtime => "runtime"

-- environment_runtime_configs and its frozen copy agent_job_attempt_execution: the same
-- settings, with the revision of the configuration they were read from.
structure ExecutionSnapshot where
  containerPort : Nat
  containerScheme : Traefik.Scheme
  releaseStrategy : ReleaseStrategy
  drainSeconds : Nat
  healthPolicyRevision : Nat
  cpuMillis : Nat
  memoryBytes : Nat
  restartPolicy : RestartPolicy
  healthGatePath : String
  healthGateHost : String
  configRevision : Nat
deriving DecidableEq, Repr

structure FrozenBinding where
  variableName : String
  deliveryScope : DeliveryScope
  secretVersionID : String
deriving DecidableEq, Repr

structure FrozenLiteral where
  variableName : String
  deliveryScope : DeliveryScope
  literalValue : String
deriving DecidableEq, Repr

inductive ReleaseState where
  | candidate
  | ready
  | failed
  | removing
  | removed
  | active
  | retained
deriving DecidableEq, Repr

def ReleaseState.text : ReleaseState → String
  | .candidate => "candidate"
  | .ready => "ready"
  | .failed => "failed"
  | .removing => "removing"
  | .removed => "removed"
  | .active => "active"
  | .retained => "retained"

structure Release where
  deploymentID : String
  environmentID : String
  imageDigest : Option Digest
  configDigest : Digest
  commitSHA : String
  strategy : ReleaseStrategy
  state : ReleaseState
  createdAt : Nat
  updatedAt : Nat
deriving DecidableEq

inductive OperationState where
  | started
  | switchAuthorized
  | succeeded
  | failed
  | reconciliationRequired
deriving DecidableEq, Repr

def OperationState.text : OperationState → String
  | .started => "started"
  | .switchAuthorized => "switch_authorized"
  | .succeeded => "succeeded"
  | .failed => "failed"
  | .reconciliationRequired => "reconciliation_required"

-- The single rule for "the host may have switched, or may still switch".
def unresolvedActivation (s : OperationState) : Bool := s != .succeeded && s != .failed

-- release_operations. Only operations of kind `activate` are ever written, so the kind column
-- is left out and the columns that kind requires are not optional.
structure Operation where
  releaseID : String
  jobID : Nat
  attemptID : Nat
  fence : Nat
  digest : Digest
  state : OperationState
  outcomeSummary : Bytes
  createdAt : Nat
  closedAt : Option Nat
  environmentID : String
  expectedActiveReleaseID : Option String
  expectedRouteRevision : Nat
  routeDigest : Digest
deriving DecidableEq

structure RouteHead where
  hostname : String
  routeRevision : Nat
  activeReleaseID : Option String
  reconciliationRequired : Bool
  createdAt : Nat
  updatedAt : Nat
deriving DecidableEq, Repr

inductive JobEventType where
  | enqueued
  | claimed
  | cancelRequested
  | cancelled
  | expired
  | retryScheduled
  | succeeded
  | failed
  | dead
  | reconciled
  | activationAuthorized
  | activated
  | activationReconciliationRequired
  | activationNotActivated
  | activationLateReport
deriving DecidableEq, Repr

-- agent_job_events: append-only, numbered for each job.
structure JobEvent where
  jobID : Nat
  sequence : Nat
  eventType : JobEventType
  attemptID : Option Nat
deriving DecidableEq, Repr

inductive RouteEventKind where
  | hostnameAssigned
  | activated
deriving DecidableEq, Repr

structure RouteEvent where
  environmentID : String
  kind : RouteEventKind
  routeRevision : Nat
  hostname : Option String
  activeReleaseID : Option String
deriving DecidableEq, Repr

inductive AuditResult where
  | success
  | failure
deriving DecidableEq, Repr

structure RouteHeadAuditEvent where
  actorID : String
  ownerID : String
  environmentID : String
  hostname : String
  resultingRevision : Option Nat
  result : AuditResult
deriving DecidableEq, Repr

inductive ServerAuditAction where
  | serverRevoked
  | environmentMarkReconciled
deriving DecidableEq, Repr

structure ServerAuditEvent where
  actorID : String
  action : ServerAuditAction
  serverID : Option String
  reason : String
deriving DecidableEq, Repr

inductive ServerStatus where
  | active
  | revoked
deriving DecidableEq, Repr

structure Server where
  ownerID : String
  status : ServerStatus
  createdAt : Nat
  revokedAt : Option Nat
deriving DecidableEq, Repr

structure Credential where
  serverID : String
  digest : Digest
  status : ServerStatus
  issuedAt : Nat
  revokedAt : Option Nat
deriving DecidableEq

structure User where
  ownerID : String
  authRevision : Nat
  active : Bool
deriving DecidableEq, Repr

structure AdminSession where
  userID : String
  ownerID : String
  authRevision : Nat
  idleExpiresAt : Nat
  absoluteExpiresAt : Nat
  revoked : Bool
deriving DecidableEq, Repr

inductive BindingSource where
  | secret (headID : String)
  | literal (value : String)
deriving DecidableEq, Repr

-- environment_runtime_bindings, keyed by environment and variable name.
structure Binding where
  deliveryScope : DeliveryScope
  source : BindingSource
deriving DecidableEq, Repr

inductive SecretPurpose where
  | build
  | runtime
  | provider
deriving DecidableEq, Repr

structure SecretHead where
  currentVersionID : Option String
  purpose : SecretPurpose
  deliveryScope : DeliveryScope
deriving DecidableEq, Repr

inductive SecretVersionState where
  | active
  | superseded
  | revoked
deriving DecidableEq, Repr

structure SecretVersion where
  secretID : String
  ownerID : String
  projectID : String
  environmentID : String
  state : SecretVersionState
deriving DecidableEq, Repr

-- The tables that other parts of the product write: administrators and their sessions, the
-- environments' runtime configuration and bindings, and the secrets these bind.
structure Administration where
  users : Table String User
  sessions : Table String AdminSession
  runtimeConfigs : Table String ExecutionSnapshot
  bindings : Table (String × String) Binding
  secretHeads : Table String SecretHead
  secretVersions : Table String SecretVersion

structure DB where
  administration : Administration
  servers : Table String Server
  credentials : Table Nat Credential
  deployments : Table String Deployment.Snapshot
  jobs : Table Nat Job
  slots : Table String Slot
  attempts : Table Nat Attempt
  executions : Table Nat ExecutionSnapshot
  frozenBindings : Table Nat (List FrozenBinding)
  frozenLiterals : Table Nat (List FrozenLiteral)
  releases : Table String Release
  operations : Table Nat Operation
  routeHeads : Table String RouteHead
  jobEvents : List JobEvent
  routeEvents : List RouteEvent
  routeHeadAuditEvents : List RouteHeadAuditEvent
  serverAuditEvents : List ServerAuditEvent

end AutoDeploy.Store
