import AutoDeploy.Store.Schema

namespace AutoDeploy.Store

open Lib Lib.Result Queue

-- Row checks and triggers, and the writes that go through them. A write that a check, an index
-- or a trigger refuses is a database error; nothing is stored then.

-- The context a failing statement is reported with.
def during {α : Type} (message : String) (x : Except DbError α) : Except Error α :=
  x.mapError fun e => .wrap message (.db e)

@[simp] theorem during_eq_ok {α : Type} {message : String} {x : Except DbError α} {a : α} :
    during message x = .ok a ↔ x = .ok a := by
  simp [during]

def JobState.text : JobState → String
  | .queued => "queued"
  | .leased => "leased"
  | .retryWait => "retry_wait"
  | .succeeded => "succeeded"
  | .failed => "failed"
  | .cancelled => "cancelled"
  | .dead => "dead"

def AttemptState.text : AttemptState → String
  | .leased => "leased"
  | .succeeded => "succeeded"
  | .failed => "failed"
  | .expired => "expired"
  | .cancelled => "cancelled"

def jobTransitionAllowed : JobState → JobState → Bool
  | .queued, s => s == .leased || s == .cancelled
  | .leased, s => s != .queued
  | .retryWait, s => s == .leased || s == .cancelled || s == .dead
  | _, _ => false

-- Every column but the mutable ones is immutable for the row's lifetime.
def Job.sameIdentity (old new : Job) : Prop :=
  new = { old with
    state := new.state
    availableAt := new.availableAt
    attemptCount := new.attemptCount
    cancelRequestedAt := new.cancelRequestedAt
    updatedAt := new.updatedAt }

instance (old new : Job) : Decidable (old.sameIdentity new) := inferInstanceAs (Decidable (_ = _))

-- validate_agent_job_update, then the attempt_count check.
def validateAgentJobUpdate (old new : Job) : Except DbError Unit := do
  require (old.sameIdentity new) (.raised "agent job identity is immutable")
  require (¬ old.state.terminal) (.raised ("agent job " ++ JobState.text old.state ++ " is terminal"))
  require (jobTransitionAllowed old.state new.state)
    (.raised ("invalid agent job transition " ++ JobState.text old.state ++ " -> " ++ JobState.text new.state))
  require (old.state = .leased ∧ new.state = .leased →
      new.attemptCount = old.attemptCount ∧ new.availableAt = old.availableAt)
    (.raised "agent job leased-state update may only set cancel_requested_at")
  require (new.state = .leased ∧ old.state ≠ .leased → new.attemptCount = old.attemptCount + 1)
    (.raised "agent job attempt_count must increment by one when a new attempt is leased")
  require (¬ (new.state = .leased ∧ old.state ≠ .leased) → new.attemptCount = old.attemptCount)
    (.raised "agent job attempt_count is immutable outside a new lease")
  require (new.state = .retryWait → old.availableAt < new.availableAt)
    (.raised "agent job retry available_at must advance")
  require (new.state ≠ .retryWait → new.availableAt = old.availableAt)
    (.raised "agent job available_at may change only when entering retry_wait")
  require (old.cancelRequestedAt.isSome → new.cancelRequestedAt = old.cancelRequestedAt)
    (.raised "agent job cancel_requested_at is immutable once set")
  require (old.updatedAt ≤ new.updatedAt) (.raised "agent job updated_at must be monotonic")
  require (new.attemptCount ≤ 5) (.checkViolation "agent_jobs" "agent_jobs_attempt_count_check")

def updateJob (db : DB) (id : Nat) (condition : Job → Bool) (set : Job → Job) :
    Except DbError (DB × Nat) := do
  let (jobs, n) ← db.jobs.update id condition set validateAgentJobUpdate
  pure ({ db with jobs := jobs }, n)

-- The table checks of agent_job_attempts.
def Attempt.shapeAllowed (a : Attempt) : Bool :=
  match a.state with
  | .leased => a.failureClass.isNone && a.result.isNone
  | .succeeded => a.failureClass.isNone && a.result.isSome
  | .failed => a.failureClass.isSome && a.result.isSome
  | .expired => a.failureClass.isNone && a.result.isNone
  | .cancelled => a.failureClass.isNone

def checkAttempt (a : Attempt) : Except DbError Unit := do
  require (1 ≤ a.attemptNumber ∧ a.attemptNumber ≤ 5)
    (.checkViolation "agent_job_attempts" "agent_job_attempts_attempt_number_check")
  require (0 < a.fence) (.checkViolation "agent_job_attempts" "agent_job_attempts_fence_check")
  require (a.authorityExpiresAt ≤ a.leaseExpiresAt)
    (.checkViolation "agent_job_attempts" "agent_job_attempts_check")
  require ((a.state ≠ .leased) ↔ a.closedAt.isSome)
    (.checkViolation "agent_job_attempts" "agent_job_attempts_check2")
  require a.shapeAllowed (.checkViolation "agent_job_attempts" "agent_job_attempts_check3")
  require (∀ deadline ∈ a.cancelDeadlineAt, a.authorityExpiresAt ≤ deadline)
    (.checkViolation "agent_job_attempts" "agent_job_attempts_check4")

def Attempt.sameIdentity (old new : Attempt) : Prop :=
  new = { old with
    state := new.state
    renewalSequence := new.renewalSequence
    leaseExpiresAt := new.leaseExpiresAt
    authorityExpiresAt := new.authorityExpiresAt
    cancelDeadlineAt := new.cancelDeadlineAt
    failureClass := new.failureClass
    result := new.result
    closedAt := new.closedAt }

instance (old new : Attempt) : Decidable (old.sameIdentity new) := inferInstanceAs (Decidable (_ = _))

-- validate_agent_job_attempt_update, then the table checks.
def validateAgentJobAttemptUpdate (db : DB) (old new : Attempt) : Except DbError Unit := do
  require (old.sameIdentity new) (.raised "agent job attempt identity is immutable")
  require (old.state = .leased)
    (.raised ("agent job attempt " ++ AttemptState.text old.state ++ " is closed"))
  require (old.renewalSequence ≤ new.renewalSequence)
    (.raised "agent job attempt renewal_sequence must be monotonic")
  require (old.result.isSome → new.result = old.result)
    (.raised "agent job attempt result is immutable once recorded")
  require (old.failureClass.isSome → new.failureClass = old.failureClass)
    (.raised "agent job attempt failure_class is immutable once recorded")
  require (old.cancelDeadlineAt.isSome → new.cancelDeadlineAt = old.cancelDeadlineAt)
    (.raised "agent job attempt cancel_deadline_at is immutable once set")
  require (old.cancelDeadlineAt = none ∧ new.cancelDeadlineAt.isSome →
      (db.jobs.get? new.jobID).any (fun j => j.cancelRequestedAt.isSome))
    (.raised "agent job attempt cancel_deadline_at requires job cancel_requested_at")
  checkAttempt new

def updateAttempt (db : DB) (id : Nat) (condition : Attempt → Bool) (set : Attempt → Attempt) :
    Except DbError (DB × Nat) := do
  let (attempts, n) ← db.attempts.update id condition set (validateAgentJobAttemptUpdate db)
  pure ({ db with attempts := attempts }, n)

-- validate_agent_job_attempt_insert, the table checks, and the unique indexes.
def validateAgentJobAttemptInsert (db : DB) (a : Attempt) : Except DbError Unit := do
  let slot ← found (db.slots.get? a.environmentID)
    (.raised ("agent job attempt environment slot " ++ a.environmentID ++ " does not exist"))
  require (a.fence = slot.fence)
    (.raised ("agent job attempt fence " ++ toString a.fence ++ " does not match environment slot fence " ++
      toString slot.fence))
  let job ← found (db.jobs.get? a.jobID)
    (.raised ("agent job attempt job " ++ toString a.jobID ++ " does not exist"))
  require (job.serverID = a.serverID ∧ job.environmentID = a.environmentID)
    (.raised ("agent job attempt server/environment must match job " ++ toString a.jobID))
  require (a.attemptNumber = job.attemptCount)
    (.raised ("agent job attempt_number " ++ toString a.attemptNumber ++ " must equal job attempt_count " ++
      toString job.attemptCount))
  checkAttempt a
  require (db.attempts.any (fun _ b => b.jobID == a.jobID && b.attemptNumber == a.attemptNumber) = false)
    (.uniqueViolation "agent_job_attempts_job_id_attempt_number_key")
  require (db.attempts.any (fun _ b => b.jobID == a.jobID && b.state == .leased) = false)
    (.uniqueViolation "agent_job_attempts_one_leased_uq")
  require (db.servers.contains a.serverID)
    (.foreignKeyViolation "agent_job_attempts" "agent_job_attempts_server_id_fkey")

def insertAttempt (db : DB) (a : Attempt) : Except DbError (DB × Nat) := do
  validateAgentJobAttemptInsert db a
  let id := db.attempts.nextKey
  pure ({ db with attempts := db.attempts.put id a }, id)

-- validate_environment_slot_update, and the references to attempts.
def validateEnvironmentSlotUpdate (db : DB) (old new : Slot) : Except DbError Unit := do
  require (old.fence ≤ new.fence) (.raised "environment slot fence must not decrease")
  require (old.updatedAt ≤ new.updatedAt) (.raised "environment slot updated_at must be monotonic")
  require (∀ id ∈ new.currentAttemptID, db.attempts.contains id)
    (.foreignKeyViolation "environment_slots" "environment_slots_current_attempt_id_fkey")
  require (∀ id ∈ new.reconciliationAttemptID, db.attempts.contains id)
    (.foreignKeyViolation "environment_slots" "environment_slots_reconciliation_attempt_id_fkey")

def updateSlot (db : DB) (environmentID : String) (condition : Slot → Bool) (set : Slot → Slot) :
    Except DbError (DB × Nat) := do
  let (slots, n) ← db.slots.update environmentID condition set (validateEnvironmentSlotUpdate db)
  pure ({ db with slots := slots }, n)

-- INSERT ... ON CONFLICT DO NOTHING of an empty slot.
def ensureSlot (now : Nat) (db : DB) (environmentID : String) : DB :=
  if db.slots.contains environmentID then db
  else { db with slots := db.slots.put environmentID ⟨0, none, none, now⟩ }

def releaseTransitionAllowed : ReleaseState → ReleaseState → Bool
  | .candidate, s => s == .ready || s == .failed || s == .removing
  | .ready, s => s == .failed || s == .removing || s == .active
  | .removing, s => s == .removed
  | .active, s => s == .retained
  | .retained, s => s == .active
  | _, _ => false

def Release.sameIdentity (old new : Release) : Prop :=
  new = { old with imageDigest := new.imageDigest, state := new.state, updatedAt := new.updatedAt }

instance (old new : Release) : Decidable (old.sameIdentity new) := inferInstanceAs (Decidable (_ = _))

-- validate_release_update, the table checks, and the index of active releases.
def validateReleaseUpdate (db : DB) (id : String) (old new : Release) : Except DbError Unit := do
  require (old.sameIdentity new) (.raised "release identity is immutable")
  require (old.imageDigest.isSome → new.imageDigest = old.imageDigest)
    (.raised "release image digest is write-once")
  require (new.state = .ready → new.imageDigest.isSome)
    (.raised "release cannot become ready without an image digest")
  require (old.state ≠ .failed ∧ old.state ≠ .removed)
    (.raised ("release is terminal in state " ++ old.state.text))
  require (new.state ≠ old.state → releaseTransitionAllowed old.state new.state)
    (.raised ("invalid release transition " ++ old.state.text ++ " -> " ++ new.state.text))
  require (old.updatedAt ≤ new.updatedAt) (.raised "release updated_at must be monotonic")
  require (new.createdAt ≤ new.updatedAt) (.checkViolation "releases" "releases_check")
  require (new.state = .active →
      db.releases.any (fun k r => k != id && r.environmentID == new.environmentID && r.state == .active) = false)
    (.uniqueViolation "releases_environment_active_idx")

def updateRelease (db : DB) (id : String) (condition : Release → Bool) (set : Release → Release) :
    Except DbError (DB × Nat) := do
  let (releases, n) ← db.releases.update id condition set (validateReleaseUpdate db id)
  pure ({ db with releases := releases }, n)

def insertRelease (db : DB) (id : String) (r : Release) : Except DbError DB := do
  require (db.releases.contains id = false) (.uniqueViolation "releases_pkey")
  require (db.releases.any (fun _ x => x.deploymentID == r.deploymentID) = false)
    (.uniqueViolation "releases_deployment_id_key")
  require (db.deployments.contains r.deploymentID)
    (.foreignKeyViolation "releases" "releases_deployment_id_fkey")
  pure { db with releases := db.releases.put id r }

-- `[\x00-\x1f\x7f]`
def controlByte (b : UInt8) : Bool := decide (b < 0x20) || b == 0x7f

def maxOutcomeSummaryBytes : Nat := 2048

-- The table checks of release_operations, and the index of unresolved activations.
def checkOperation (db : DB) (id : Nat) (op : Operation) : Except DbError Unit := do
  require (op.outcomeSummary.length ≤ maxOutcomeSummaryBytes ∧ op.outcomeSummary.any controlByte = false)
    (.checkViolation "release_operations" "release_operations_outcome_summary_check")
  require (∀ t ∈ op.closedAt, op.createdAt ≤ t) (.checkViolation "release_operations" "release_operations_check")
  require ((op.state = .started ∨ op.state = .switchAuthorized) ↔ op.closedAt = none)
    (.checkViolation "release_operations" "release_operations_check1")
  require (unresolvedActivation op.state → db.operations.any (fun k o =>
      k != id && o.environmentID == op.environmentID && unresolvedActivation o.state) = false)
    (.uniqueViolation "release_operations_environment_open_activation_idx")

def Operation.sameIdentity (old new : Operation) : Prop :=
  new = { old with state := new.state, outcomeSummary := new.outcomeSummary, closedAt := new.closedAt }

instance (old new : Operation) : Decidable (old.sameIdentity new) := inferInstanceAs (Decidable (_ = _))

-- validate_release_operation_update: how an activation may close.
def validateReleaseOperationUpdate (db : DB) (id : Nat) (old new : Operation) : Except DbError Unit := do
  require (old.sameIdentity new) (.raised "release operation identity is immutable")
  if old.state = .reconciliationRequired then
    require (new.state = .succeeded ∨ new.state = .failed ∨ new.state = .reconciliationRequired)
      (.raised "reconciliation_required activate release operation may only move to succeeded, failed or stay reconciliation_required")
    require (new.closedAt = old.closedAt)
      (.raised "activate release operation closed_at is immutable once set")
  else
    require (old.state = .switchAuthorized) (.raised ("release operation " ++ old.state.text ++ " is closed"))
    require (new.state = .succeeded ∨ new.state = .reconciliationRequired)
      (.raised "activate release operation must close to succeeded or reconciliation_required")
  checkOperation db id new

def updateOperation (db : DB) (id : Nat) (condition : Operation → Bool) (set : Operation → Operation) :
    Except DbError (DB × Nat) := do
  let (operations, n) ← db.operations.update id condition set (validateReleaseOperationUpdate db id)
  pure ({ db with operations := operations }, n)

-- validate_release_operation_insert, then the table checks.
def insertOperation (db : DB) (op : Operation) : Except DbError (DB × Nat) := do
  let id := db.operations.nextKey
  let attempt ← found (db.attempts.get? op.attemptID)
    (.raised ("release operation attempt " ++ toString op.attemptID ++ " does not exist"))
  require (op.fence = attempt.fence)
    (.raised ("release operation fence " ++ toString op.fence ++ " does not match attempt " ++
      toString op.attemptID ++ " fence " ++ toString attempt.fence))
  require (op.jobID = attempt.jobID)
    (.raised ("release operation job_id " ++ toString op.jobID ++ " does not match attempt " ++
      toString op.attemptID ++ " job_id " ++ toString attempt.jobID))
  require ((db.releases.get? op.releaseID).any fun r => r.environmentID == op.environmentID)
    (.raised ("release operation environment_id " ++ op.environmentID ++ " does not match release " ++
      op.releaseID ++ " environment"))
  require (0 < op.fence) (.checkViolation "release_operations" "release_operations_fence_check")
  checkOperation db id op
  require (∀ r ∈ op.expectedActiveReleaseID, db.releases.contains r)
    (.foreignKeyViolation "release_operations" "release_operations_expected_active_release_id_fkey")
  pure ({ db with operations := db.operations.put id op }, id)

-- validate_route_head_update: the revision advances by one unless only the flag changes.
def validateRouteHeadUpdate (db : DB) (environmentID : String) (old new : RouteHead) :
    Except DbError Unit := do
  let expected := " expected " ++ toString (old.routeRevision + 1) ++ " got " ++ toString new.routeRevision
  if new.routeRevision = old.routeRevision then
    require (new.reconciliationRequired ≠ old.reconciliationRequired ∧ new.hostname = old.hostname ∧
        new.activeReleaseID = old.activeReleaseID ∧ new.createdAt = old.createdAt)
      (.raised ("route head revision must advance by exactly one unless only reconciliation_required changes;" ++
        expected))
  else
    require (new.routeRevision = old.routeRevision + 1)
      (.raised ("route head revision must advance by exactly one;" ++ expected))
  require (old.updatedAt ≤ new.updatedAt) (.raised "route head updated_at must be monotonic")
  require (old.activeReleaseID.isSome → new.hostname = old.hostname)
    (.raised "route head hostname cannot change while a release is active")
  require (new.createdAt ≤ new.updatedAt) (.checkViolation "route_heads" "route_heads_check")
  require (db.routeHeads.any (fun k h => k != environmentID && h.hostname == new.hostname) = false)
    (.uniqueViolation "route_heads_hostname_key")
  require (∀ id ∈ new.activeReleaseID, (db.releases.get? id).any fun r => r.environmentID == environmentID)
    (.foreignKeyViolation "route_heads" "route_heads_active_release_env_fk")

def updateRouteHead (db : DB) (environmentID : String) (condition : RouteHead → Bool)
    (set : RouteHead → RouteHead) : Except DbError (DB × Nat) := do
  let (routeHeads, n) ← db.routeHeads.update environmentID condition set
    (validateRouteHeadUpdate db environmentID)
  pure ({ db with routeHeads := routeHeads }, n)

def insertRouteHead (db : DB) (environmentID : String) (h : RouteHead) : Except DbError DB := do
  require (db.routeHeads.contains environmentID = false) (.uniqueViolation "route_heads_pkey")
  require (db.routeHeads.any (fun _ x => x.hostname == h.hostname) = false)
    (.uniqueViolation "route_heads_hostname_key")
  pure { db with routeHeads := db.routeHeads.put environmentID h }

-- The two constraint triggers deferred to COMMIT: what a route head points at is active, and a
-- release a route head points at stays active.
def validateRouteHeadActiveRelease (db : DB) (environmentID : String) : Except DbError Unit :=
  match (db.routeHeads.get? environmentID).bind RouteHead.activeReleaseID with
  | none => .ok ()
  | some id =>
      require ((db.releases.get? id).any fun r => r.state == .active)
        (.raised ("route head active_release_id " ++ id ++ " does not reference an active release"))

def validateReleaseNotReferencedUnlessActive (db : DB) (id : String) : Except DbError Unit :=
  require ((db.releases.get? id).any (fun r => r.state == .active) ∨
      db.routeHeads.any (fun _ h => h.activeReleaseID == some id) = false)
    (.raised ("release " ++ id ++ " is referenced by a route head but is not active"))

-- Append the next numbered event of a job.
def nextSequence (db : DB) (jobID : Nat) : Nat :=
  ((db.jobEvents.filter fun e => e.jobID == jobID).map JobEvent.sequence).foldr max 0 + 1

def appendAgentJobEvent (db : DB) (jobID : Nat) (attemptID : Option Nat) (eventType : JobEventType) : DB :=
  { db with jobEvents := db.jobEvents ++ [⟨jobID, nextSequence db jobID, eventType, attemptID⟩] }

def insertRouteEvent (db : DB) (e : RouteEvent) : DB := { db with routeEvents := db.routeEvents ++ [e] }

def insertServerAuditEvent (db : DB) (e : ServerAuditEvent) : DB :=
  { db with serverAuditEvents := db.serverAuditEvents ++ [e] }

def insertRouteHeadAuditEvent (db : DB) (e : RouteHeadAuditEvent) : DB :=
  { db with routeHeadAuditEvents := db.routeHeadAuditEvents ++ [e] }

end AutoDeploy.Store
