import AutoDeploy.Store.Access
import Mathlib.Data.Char
import Mathlib.Data.List.Lex
import Mathlib.Data.List.Sort

namespace AutoDeploy.Store

open Lib Lib.Result Queue

def leaseDuration : Nat := 90 * second

def claimDiscoveryPerJob : Nat := 5

def claimDiscoveryMax : Nat := 200

structure ClaimedLease where
  jobID : Nat
  attemptID : Nat
  attemptNumber : Nat
  fence : Nat
  ownerID : String
  projectID : String
  environmentID : String
  deploymentID : String
  repositoryID : Nat
  ref : String
  commitSHA : String
  leaseExpiresAt : Nat
  authorityExpiresAt : Nat
  execution : ExecutionSnapshot
  releaseID : String
  secretBindings : List FrozenBinding
  literalBindings : List FrozenLiteral
deriving DecidableEq

def orderByVariable {α : Type} (name : α → String) (rows : List α) : List α :=
  rows.insertionSort fun x y => (name x).toList ≤ (name y).toList

-- The active version a secret head currently names.
def activeVersion (db : DB) (headID : String) : Option String := do
  let head ← db.administration.secretHeads.get? headID
  let versionID ← head.currentVersionID
  let version ← db.administration.secretVersions.get? versionID
  if version.state = .active then some versionID else none

def secretBindings (db : DB) (environmentID : String) : List (String × DeliveryScope × String) :=
  (db.administration.bindings.select fun k _ => k.1 == environmentID).filterMap fun row =>
    match row.2.source with
    | .secret headID => some (row.1.2, row.2.deliveryScope, headID)
    | .literal _ => none

-- All secret bindings of the environment, or nothing when one has no active version.
def resolveRuntimeSecretBindings (db : DB) (environmentID : String) : Option (List FrozenBinding) :=
  let bound := secretBindings db environmentID
  let resolved := bound.filterMap fun b =>
    (activeVersion db b.2.2).map fun v => (⟨b.1, b.2.1, v⟩ : FrozenBinding)
  if resolved.length = bound.length then some (orderByVariable FrozenBinding.variableName resolved) else none

def resolveRuntimeLiteralBindings (db : DB) (environmentID : String) : List FrozenLiteral :=
  orderByVariable FrozenLiteral.variableName <|
    (db.administration.bindings.select fun k _ => k.1 == environmentID).filterMap fun row =>
      match row.2.source with
      | .secret _ => none
      | .literal value => some ⟨row.1.2, row.2.deliveryScope, value⟩

def lengthPrefixed (part : String) : Bytes :=
  Bytes.ofString (toString part.utf8ByteSize) ++ Bytes.ofString ":" ++ Bytes.ofString part

-- The digest of the frozen inputs, over a length-prefixed encoding of every setting and binding.
def computeConfigDigest (cfg : ExecutionSnapshot) (bindings : List FrozenBinding)
    (literals : List FrozenLiteral) : Digest :=
  let sorted := orderByVariable FrozenBinding.variableName bindings
  let sortedLiterals := orderByVariable FrozenLiteral.variableName literals
  let parts :=
    ["3", toString cfg.containerPort, cfg.containerScheme.text, cfg.releaseStrategy.text,
      toString cfg.drainSeconds, toString cfg.healthPolicyRevision, toString cfg.cpuMillis,
      toString cfg.memoryBytes, cfg.restartPolicy.text, cfg.healthGatePath, cfg.healthGateHost,
      toString cfg.configRevision, toString sorted.length] ++
    sorted.flatMap (fun b => [b.variableName, b.deliveryScope.text, b.secretVersionID]) ++
    [toString sortedLiterals.length] ++
    sortedLiterals.flatMap (fun l => [l.variableName, l.deliveryScope.text, l.literalValue])
  Sha256.sum (parts.flatMap lengthPrefixed)

-- One release for each deployment, under the deployment's id.
def ensureRelease (now : Nat) (db : DB) (deploymentID environmentID commitSHA : String)
    (strategy : ReleaseStrategy) (configDigest : Digest) : Except Error DB :=
  match db.releases.find? fun _ r => r.deploymentID == deploymentID with
  | none =>
      during "insert release" <| insertRelease db deploymentID
        ⟨deploymentID, environmentID, none, configDigest, commitSHA, strategy, .candidate, now, now⟩
  | some (_, existing) => do
      require (existing.configDigest = configDigest)
        (.detail (.sentinel .corruptState)
          ("release " ++ deploymentID ++ " config_digest disagrees with its own frozen inputs"))
      pure db

-- What an attempt will run: resolved now for the first attempt, copied from the previous attempt
-- for a retry.
inductive FreezePlan where
  | fresh (execution : ExecutionSnapshot) (bindings : List FrozenBinding) (literals : List FrozenLiteral)
  | copy (previousAttemptID : Nat)

-- `none` is a candidate that cannot be claimed now.
def planFreeze (db : DB) (config : ExecutionSnapshot) (jobID : Nat) (job : Job) :
    Except Error (Option FreezePlan) :=
  if job.attemptCount = 0 then
    pure ((resolveRuntimeSecretBindings db job.environmentID).map fun bindings =>
      .fresh config bindings (resolveRuntimeLiteralBindings db job.environmentID))
  else
    match db.attempts.find? fun _ a => a.jobID == jobID && a.attemptNumber == job.attemptCount with
    | some (id, _) => pure (some (.copy id))
    | none =>
        .error (.detail (.sentinel .corruptState)
          ("job " ++ toString jobID ++ " attempt_count implies attempt " ++ toString job.attemptCount ++
            " but no such attempt row exists"))

def freeze (db : DB) (attemptID : Nat) : FreezePlan →
    Except Error (DB × ExecutionSnapshot × List FrozenBinding × List FrozenLiteral)
  | .fresh execution bindings literals =>
      pure ({ db with
        executions := db.executions.put attemptID execution
        frozenBindings := db.frozenBindings.put attemptID bindings
        frozenLiterals := db.frozenLiterals.put attemptID literals }, execution, bindings, literals)
  | .copy previousAttemptID => do
      let execution ← found (db.executions.get? previousAttemptID)
        (.wrap ("load previous attempt " ++ toString previousAttemptID ++ " execution for copy-forward")
          (.db .noRows))
      let bindings := (db.frozenBindings.get? previousAttemptID).getD []
      let literals := (db.frozenLiterals.get? previousAttemptID).getD []
      pure ({ db with
        executions := db.executions.put attemptID execution
        frozenBindings := db.frozenBindings.put attemptID bindings
        frozenLiterals := db.frozenLiterals.put attemptID literals }, execution, bindings, literals)

def isCheckViolation : DbError → Bool
  | .pg e => e.code == "23514"
  | _ => false

-- A check violation leaves the server's transaction aborted: the candidate is skipped, and the
-- claim then fails as a whole at its next statement or at commit.
def leaseJob (db : DB) (now jobID : Nat) (state : JobState) : Except Error (DB × Nat) :=
  (updateJob db jobID (fun j => j.state == state)
    (fun j => { j with state := .leased, attemptCount := j.attemptCount + 1, updatedAt := now })).mapError
    fun e =>
      if isCheckViolation e then
        .wrap "commit agent lease claim" (.db (.other "commit unexpectedly resulted in rollback"))
      else .wrap "lease agent job" (.db e)

-- The writes of a claim, in the order the attempt trigger requires.
def leaseCandidate (now : Nat) (db : DB) (serverID : String) (jobID : Nat) (job : Job) (slot : Slot)
    (plan : FreezePlan) : Except Error (DB × Option ClaimedLease) := do
  let environmentID := job.environmentID
  let leaseExpiresAt := now + leaseDuration
  let newFence := slot.fence + 1
  let (db, _) ← during "advance environment slot fence" <|
    updateSlot db environmentID (fun _ => true) fun s => { s with fence := s.fence + 1, updatedAt := now }
  let (db, leased) ← leaseJob db now jobID job.state
  if leased = 0 then pure (db, none)
  else
    let attemptNumber := job.attemptCount + 1
    let (db, attemptID) ← during "insert agent job attempt" <| insertAttempt db
      { jobID := jobID, attemptNumber := attemptNumber, serverID := serverID, environmentID := environmentID,
        fence := newFence, state := .leased, renewalSequence := 0, leaseExpiresAt := leaseExpiresAt,
        authorityExpiresAt := leaseExpiresAt, cancelDeadlineAt := none, failureClass := none, result := none,
        closedAt := none, createdAt := now }
    let (db, _) ← during "occupy environment slot" <|
      updateSlot db environmentID (fun _ => true) fun s =>
        { s with currentAttemptID := some attemptID, updatedAt := now }
    let db ← (if attemptNumber = 1 then transitionDeployment db job.deploymentID .assigned now else pure db)
    let (db, execution, bindings, literals) ← freeze db attemptID plan
    let db ← ensureRelease now db job.deploymentID environmentID job.commitSHA execution.releaseStrategy
      (computeConfigDigest execution bindings literals)
    let db := appendAgentJobEvent db jobID (some attemptID) .claimed
    pure (db, some
      { jobID := jobID, attemptID := attemptID, attemptNumber := attemptNumber, fence := newFence,
        ownerID := job.ownerID, projectID := job.projectID, environmentID := environmentID,
        deploymentID := job.deploymentID, repositoryID := job.repositoryID, ref := job.fullRef,
        commitSHA := job.commitSHA, leaseExpiresAt := leaseExpiresAt, authorityExpiresAt := leaseExpiresAt,
        execution := execution, releaseID := job.deploymentID, secretBindings := bindings,
        literalBindings := literals })

-- The revalidation of one candidate under its locks.
def claimable (db : DB) (now : Nat) (serverID : String) (jobID : Nat) (environmentID : String) :
    Option (ExecutionSnapshot × Slot × Job) := do
  let config ← db.administration.runtimeConfigs.get? environmentID
  let slot ← db.slots.get? environmentID
  let job ← db.jobs.get? jobID
  if slot.currentAttemptID = none ∧ slot.reconciliationRequired = false ∧
      job.environmentID = environmentID ∧ job.serverID = serverID ∧
      (job.state = .queued ∨ job.state = .retryWait) ∧ job.availableAt ≤ now ∧
      job.cancelRequestedAt = none then
    some (config, slot, job)
  else none

def tryClaim (now : Nat) (db : DB) (serverID : String) (jobID : Nat) (environmentID : String) :
    Except Error (DB × Option ClaimedLease) :=
  match claimable db now serverID jobID environmentID with
  | none => pure (db, none)
  | some (config, slot, job) => do
      match ← planFreeze db config jobID job with
      | none => pure (db, none)
      | some plan => leaseCandidate now db serverID jobID job slot plan

-- priority DESC, available_at, created_at, id
def runnableBefore (x y : Nat × Job) : Prop :=
  x.2.priority > y.2.priority ∨ (x.2.priority = y.2.priority ∧
    (x.2.availableAt < y.2.availableAt ∨ (x.2.availableAt = y.2.availableAt ∧
      (x.2.createdAt < y.2.createdAt ∨ (x.2.createdAt = y.2.createdAt ∧ x.1 ≤ y.1)))))

instance : DecidableRel runnableBefore := fun x y => by
  unfold runnableBefore
  infer_instance

-- The non-locking discovery read.
def discoverRunnable (db : DB) (now : Nat) (serverID : String) (limit : Nat) : List (Nat × Job) :=
  ((db.jobs.select fun _ j => j.serverID == serverID && (j.state == .queued || j.state == .retryWait) &&
    decide (j.availableAt ≤ now)).insertionSort runnableBefore).take limit

-- The candidates in order, until the limit is reached.
def claimLoop (now : Nat) (serverID : String) (limit : Nat) :
    List (Nat × String) → DB → List ClaimedLease → Except Error (DB × List ClaimedLease)
  | [], db, claimed => pure (db, claimed)
  | c :: rest, db, claimed =>
      if limit ≤ claimed.length then pure (db, claimed)
      else do
        let (db, lease) ← tryClaim now db serverID c.1 c.2
        claimLoop now serverID limit rest db (claimed ++ lease.toList)

-- The claim transaction proper, after discovery and slot creation.
def claimTx (now : Nat) (db : DB) (serverID : String) (presented : Digest) (limit : Nat)
    (candidates : List (Nat × String)) : Except Error (DB × List ClaimedLease) := do
  let _ ← lockActiveServerCredential db serverID presented
  claimLoop now serverID limit candidates db []

-- Claim: the slots of the discovered environments are created by a statement of their own, which
-- stays committed even when the claim transaction fails.
def claim (now : Nat) (db : DB) (serverID : String) (presented : Digest) (limit : Nat) :
    DB × Except Error (List ClaimedLease) :=
  if limit = 0 then (db, .ok [])
  else if validOpaqueID serverID = false then (db, .error (.sentinel .serverAuthorizationDenied))
  else
    let limit := min limit 50
    match lockActiveServerCredential db serverID presented with
    | .error _ => (db, .error (.sentinel .serverAuthorizationDenied))
    | .ok _ =>
        let candidates := (discoverRunnable db now serverID
          (min (limit * claimDiscoveryPerJob) claimDiscoveryMax)).map fun row => (row.1, row.2.environmentID)
        let opened := (candidates.map Prod.snd).foldl (ensureSlot now) db
        match claimTx now opened serverID presented limit candidates with
        | .error e => (opened, .error e)
        | .ok (db, leases) => (db, .ok leases)

end AutoDeploy.Store
