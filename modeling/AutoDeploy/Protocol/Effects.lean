import AutoDeploy.Lib.Rows
import AutoDeploy.Lib.Runs
import AutoDeploy.Store.Report
import AutoDeploy.Store.RouteHeads

namespace AutoDeploy.Protocol

open Function Lib Queue Store Deployment

-- The rows the lease protocol is about, each table seen as a function of its key.
structure View where
  jobs : Nat → Option Job
  slots : String → Option Slot
  attempts : Nat → Option Attempt
  deployments : String → Option Snapshot
  executions : Nat → Option ExecutionSnapshot
  frozenBindings : Nat → Option (List FrozenBinding)
  frozenLiterals : Nat → Option (List FrozenLiteral)
  releases : String → Option Release
  operations : Nat → Option Operation
  routeHeads : String → Option RouteHead
  jobEvents : List JobEvent

def view (db : DB) : View :=
  { jobs := db.jobs.get?
    slots := db.slots.get?
    attempts := db.attempts.get?
    deployments := db.deployments.get?
    executions := db.executions.get?
    frozenBindings := db.frozenBindings.get?
    frozenLiterals := db.frozenLiterals.get?
    releases := db.releases.get?
    operations := db.operations.get?
    routeHeads := db.routeHeads.get?
    jobEvents := db.jobEvents }

-- What an attempt runs: its frozen settings, secret versions and literals.
def View.inputs (v : View) (attemptID : Nat) :
    Option ExecutionSnapshot × List FrozenBinding × List FrozenLiteral :=
  (v.executions attemptID, (v.frozenBindings attemptID).getD [], (v.frozenLiterals attemptID).getD [])

-- A deployment asked to be in `target` is there already, or takes one allowed step.
inductive Moves (now : Nat) (target : Status) (s : Snapshot) : Snapshot → Prop
  | same (hstatus : s.status = target) : Moves now target s s
  | step (hstep : canTransition s.status target = true) (hzero : now ≠ 0) (hlate : s.updatedAt ≤ now) :
      Moves now target s (advanceSnapshot s target now)

-- What the end of a job's attempt asks of its deployment.
inductive Ends (now : Nat) (s : Snapshot) : JobState → Snapshot → Prop
  | kept {state : JobState} (hstate : state = .succeeded ∨ state = .retryWait) : Ends now s state s
  | failed {state : JobState} {s' : Snapshot} (hstate : state = .failed ∨ state = .dead)
      (hmove : Moves now .failed s s') : Ends now s state s'
  | cancelled {s' : Snapshot} (hmove : Moves now .cancelled s s') : Ends now s .cancelled s'

-- How an attempt ends without an activation, and what becomes of its job. The mark is that of the job.
inductive Verdict (attemptNumber : Nat) (mark : Option Nat) : AttemptState → Option FailureClass → JobState → Prop
  | succeeded : Verdict attemptNumber mark .succeeded none .succeeded
  | failed {c : FailureClass} (hclass : c ≠ .transient) : Verdict attemptNumber mark .failed (some c) .failed
  | retried (hnumber : attemptNumber < maxAttempts) : Verdict attemptNumber mark .failed (some .transient) .retryWait
  | exhausted (hnumber : maxAttempts ≤ attemptNumber) : Verdict attemptNumber mark .failed (some .transient) .dead
  | cancelled (hmark : mark.isSome) : Verdict attemptNumber mark .cancelled none .cancelled
  | expired (hmark : mark = none) (hnumber : attemptNumber < maxAttempts) :
      Verdict attemptNumber mark .expired none .retryWait
  | died (hmark : mark = none) (hnumber : maxAttempts ≤ attemptNumber) : Verdict attemptNumber mark .expired none .dead

-- How a closing attempt leaves its slot: free, or retired with a higher fence and flagged.
inductive Vacates (now attemptID : Nat) (slot : Slot) : Slot → Prop
  | free : Vacates now attemptID slot { slot with currentAttemptID := none, updatedAt := now }
  | retire : Vacates now attemptID slot
      { slot with
        fence := slot.fence + 1
        currentAttemptID := none
        reconciliationAttemptID := some attemptID
        updatedAt := now }

-- The attempt is the leased occupant of its slot.
structure Holds (v : View) (attemptID : Nat) (attempt : Attempt) (slot : Slot) (job : Job) : Prop where
  attemptRow : v.attempts attemptID = some attempt
  slotRow : v.slots attempt.environmentID = some slot
  jobRow : v.jobs attempt.jobID = some job
  leased : attempt.state = .leased
  occupies : slot.currentAttemptID = some attemptID

def Unresolved (v : View) (environmentID : String) : Prop :=
  ∃ id op, v.operations id = some op ∧ op.environmentID = environmentID ∧ unresolvedActivation op.state = true

def AttemptUnresolved (v : View) (attemptID : Nat) : Prop :=
  ∃ id op, v.operations id = some op ∧ op.attemptID = attemptID ∧ unresolvedActivation op.state = true

-- New events are about one attempt of one job.
def Concerns (jobID attemptID : Nat) (events : List JobEvent) : Prop :=
  ∀ e ∈ events, e.jobID = jobID ∧ e.attemptID = some attemptID

theorem concerns_nil (jobID attemptID : Nat) : Concerns jobID attemptID [] := by
  intro e he
  cases he

theorem Concerns.one (jobID attemptID sequence : Nat) (eventType : JobEventType) :
    Concerns jobID attemptID [⟨jobID, sequence, eventType, some attemptID⟩] := by
  intro e he
  obtain rfl := List.mem_singleton.1 he
  exact ⟨rfl, rfl⟩

theorem Concerns.append {jobID attemptID : Nat} {events extra : List JobEvent} (h : Concerns jobID attemptID events)
    (hextra : Concerns jobID attemptID extra) : Concerns jobID attemptID (events ++ extra) := by
  intro e he
  rcases List.mem_append.1 he with he | he
  · exact h e he
  · exact hextra e he

def Unreconciled (events : List JobEvent) : Prop := ∀ e ∈ events, e.eventType ≠ .reconciled

-- The rows every closing of an attempt writes.
def View.close (v : View) (attemptID : Nat) (attempt : Attempt) (slot : Slot) (job : Job) (s : Snapshot)
    (events : List JobEvent) : View :=
  { v with
    attempts := update v.attempts attemptID (some attempt)
    slots := update v.slots attempt.environmentID (some slot)
    jobs := update v.jobs attempt.jobID (some job)
    deployments := update v.deployments job.deploymentID (some s)
    jobEvents := v.jobEvents ++ events }

def leasedAttempt (now jobID : Nat) (job : Job) (slot : Slot) : Attempt :=
  { jobID := jobID
    attemptNumber := job.attemptCount + 1
    serverID := job.serverID
    environmentID := job.environmentID
    fence := slot.fence + 1
    state := .leased
    renewalSequence := 0
    leaseExpiresAt := now + leaseDuration
    authorityExpiresAt := now + leaseDuration
    cancelDeadlineAt := none
    failureClass := none
    result := none
    closedAt := none
    createdAt := now }

-- The release and the operation of a new activation.
def readied (now : Nat) (image : Digest) (release : Release) : Release :=
  if release.state = .candidate then
    { release with imageDigest := some image, state := .ready, updatedAt := now }
  else release

def authorizedOperation (now attemptID : Nat) (attempt : Attempt) (job : Job) (head : RouteHead)
    (image digest : Digest) : Operation :=
  { releaseID := job.deploymentID
    jobID := attempt.jobID
    attemptID := attemptID
    fence := attempt.fence
    digest := image
    state := .switchAuthorized
    outcomeSummary := []
    createdAt := now
    closedAt := none
    environmentID := attempt.environmentID
    expectedActiveReleaseID := head.activeReleaseID.filter (fun id => id != "")
    expectedRouteRevision := head.routeRevision
    routeDigest := digest }

def flagged (now : Nat) (head : RouteHead) : RouteHead :=
  if head.reconciliationRequired then head
  else { head with reconciliationRequired := true, updatedAt := max head.updatedAt now }

def unflagged (now : Nat) (head : RouteHead) : RouteHead :=
  if head.reconciliationRequired then
    { head with reconciliationRequired := false, updatedAt := max head.updatedAt now }
  else head

-- The predecessor of an activation becomes retained.
def retain (now : Nat) (releases : String → Option Release) (predecessor : Option String) :
    String → Option Release :=
  fun id =>
    if predecessor = some id then
      (releases id).map fun r => { r with state := .retained, updatedAt := now }
    else releases id

-- The row checks a stored operation meets, and the evidence a block leaves in it.
structure OperationChecked (op : Operation) : Prop where
  summary : op.outcomeSummary.length ≤ maxOutcomeSummaryBytes ∧ op.outcomeSummary.any controlByte = false
  closedAfter : ∀ t ∈ op.closedAt, op.createdAt ≤ t
  closed : (op.state = .started ∨ op.state = .switchAuthorized) ↔ op.closedAt = none
  evidence : op.state = .reconciliationRequired ∨ op.state = .failed → op.outcomeSummary ≠ []

-- The kinds of effect a statement about runs may single out: one that puts a job marked for
-- cancellation back to waiting, a change of hostname, the two that give an attempt time, and a new activation.
inductive Kind where
  | revives
  | renames
  | leases
  | renews
  | authorizes
  | other
deriving DecidableEq, Repr

-- One indivisible change of the protocol's rows, with everything the code has checked before it.
inductive Effect (now : Nat) (v : View) : Kind → View → Prop
  | openSlot {environmentID : String} (hnone : v.slots environmentID = none) :
      Effect now v .other { v with slots := update v.slots environmentID (some ⟨0, none, none, now⟩) }
  | freeze {attemptID : Nat} {execution : ExecutionSnapshot} {bindings : List FrozenBinding}
      {literals : List FrozenLiteral} (hnone : v.attempts attemptID = none) :
      Effect now v .other
        { v with
          executions := update v.executions attemptID (some execution)
          frozenBindings := update v.frozenBindings attemptID (some bindings)
          frozenLiterals := update v.frozenLiterals attemptID (some literals) }
  | candidate {id : String} {release : Release} (hnone : v.releases id = none)
      (hstate : release.state = .candidate) (hkey : release.deploymentID = id)
      (hdeployment : v.deployments id ≠ none)
      (hcreated : release.createdAt = now) (hupdated : release.updatedAt = now)
      (hdigest : ∃ attemptID attempt job execution, v.attempts attemptID = some attempt ∧
        v.jobs attempt.jobID = some job ∧ job.deploymentID = id ∧ v.executions attemptID = some execution ∧
        release.configDigest = computeConfigDigest execution (v.inputs attemptID).2.1 (v.inputs attemptID).2.2) :
      Effect now v .other { v with releases := update v.releases id (some release) }
  | lease {jobID attemptID : Nat} {job : Job} {slot : Slot} {s s' : Snapshot} {events : List JobEvent}
      (hjob : v.jobs jobID = some job) (hslot : v.slots job.environmentID = some slot)
      (hfree : slot.currentAttemptID = none) (hunflagged : slot.reconciliationAttemptID = none)
      (hstate : job.state = .queued ∨ job.state = .retryWait) (hcancel : job.cancelRequestedAt = none)
      (havailable : job.availableAt ≤ now) (hcount : job.attemptCount < maxAttempts)
      (hfresh : ∀ {id att}, v.attempts id = some att → id < attemptID)
      (hdeployment : v.deployments job.deploymentID = some s)
      (hassigned : (job.attemptCount = 0 ∧ Moves now .assigned s s') ∨ (job.attemptCount ≠ 0 ∧ s' = s))
      (hevents : Concerns jobID attemptID events) (hplain : Unreconciled events)
      (hfrozen : v.executions attemptID ≠ none)
      (hcopied : job.attemptCount ≠ 0 → ∃ previous p, v.attempts previous = some p ∧ p.jobID = jobID ∧
        p.attemptNumber = job.attemptCount ∧ v.inputs attemptID = v.inputs previous) :
      Effect now v .leases
        { v with
          slots := update v.slots job.environmentID (some { slot with
            fence := slot.fence + 1, currentAttemptID := some attemptID, updatedAt := now })
          jobs := update v.jobs jobID (some { job with
            state := .leased, attemptCount := job.attemptCount + 1, updatedAt := now })
          attempts := update v.attempts attemptID (some (leasedAttempt now jobID job slot))
          deployments := update v.deployments job.deploymentID (some s')
          jobEvents := v.jobEvents ++ events }
  | renew {attemptID : Nat} {attempt : Attempt} {slot : Slot} {job : Job}
      (hholds : Holds v attemptID attempt slot job) (hlive : now < attempt.authorityExpiresAt) :
      Effect now v .renews
        { v with attempts := update v.attempts attemptID (some { attempt with
            renewalSequence := attempt.renewalSequence + 1
            leaseExpiresAt := renewedExpiry now attempt
            authorityExpiresAt := renewedExpiry now attempt }) }
  | close {kind : Kind} {attemptID availableAt : Nat} {attempt : Attempt} {slot slot' : Slot} {job : Job}
      {s s' : Snapshot} {attemptState : AttemptState} {failureClass : Option FailureClass}
      {result : Option (String × Digest)} {jobState : JobState} {events : List JobEvent}
      (hholds : Holds v attemptID attempt slot job) (hresolved : ¬ AttemptUnresolved v attemptID)
      (hclosed : attemptState ≠ .leased)
      (hchecked : checkAttempt { attempt with
        state := attemptState, closedAt := some now, failureClass := failureClass, result := result } = .ok ())
      (hslot : Vacates now attemptID slot slot')
      (havailable : if jobState = .retryWait then job.availableAt < availableAt
        else availableAt = job.availableAt)
      (hdeployment : v.deployments job.deploymentID = some s) (hends : Ends now s jobState s')
      (hkind : kind ≠ .revives → job.cancelRequestedAt.isSome → jobState ≠ .retryWait)
      (hevents : Concerns attempt.jobID attemptID events) (hplain : Unreconciled events)
      (hverdict : Verdict attempt.attemptNumber job.cancelRequestedAt attemptState failureClass jobState) :
      Effect now v kind
        (v.close attemptID
          { attempt with
            state := attemptState, closedAt := some now, failureClass := failureClass, result := result }
          slot' { job with state := jobState, availableAt := availableAt, updatedAt := now } s' events)
  | cancel {jobID : Nat} {job : Job} {s s' : Snapshot} {events : List JobEvent}
      (hjob : v.jobs jobID = some job) (hstate : job.state = .queued ∨ job.state = .retryWait)
      (hmark : ∀ t ∈ job.cancelRequestedAt, t = now)
      (hdeployment : v.deployments job.deploymentID = some s) (hmove : Moves now .cancelled s s')
      (hevents : ∀ e ∈ events, e.attemptID = none) :
      Effect now v .other
        { v with
          jobs := update v.jobs jobID (some { job with
            state := .cancelled, cancelRequestedAt := some now, updatedAt := now })
          deployments := update v.deployments job.deploymentID (some s')
          jobEvents := v.jobEvents ++ events }
  | mark {jobID attemptID : Nat} {job : Job} {attempt : Attempt} {s : Snapshot} {events : List JobEvent}
      (hjob : v.jobs jobID = some job) (hstate : job.state = .leased) (hcancel : job.cancelRequestedAt = none)
      (hattempt : v.attempts attemptID = some attempt) (hleased : attempt.state = .leased)
      (hof : attempt.jobID = jobID) (hdeployment : v.deployments job.deploymentID = some s)
      (hquiet : s.status ≠ .activating)
      (hevents : Concerns jobID attemptID events) (hplain : Unreconciled events) :
      Effect now v .other
        { v with
          jobs := update v.jobs jobID (some { job with cancelRequestedAt := some now, updatedAt := now })
          attempts := update v.attempts attemptID (some { attempt with
            cancelDeadlineAt := some (now + cancellationGrace)
            leaseExpiresAt := min attempt.leaseExpiresAt (now + cancellationGrace)
            authorityExpiresAt := min attempt.authorityExpiresAt (now + cancellationGrace) })
          jobEvents := v.jobEvents ++ events }
  | progress {attemptID : Nat} {attempt : Attempt} {slot : Slot} {job : Job} {s s' : Snapshot} {phase : Status}
      (hholds : Holds v attemptID attempt slot job) (hphase : agentReportablePhase phase = true)
      (hdeployment : v.deployments job.deploymentID = some s) (hmove : Moves now phase s s') :
      Effect now v .other { v with deployments := update v.deployments job.deploymentID (some s') }
  | authorize {attemptID operationID : Nat} {attempt : Attempt} {slot : Slot} {job : Job} {s s' : Snapshot}
      {head : RouteHead} {release : Release} {execution : ExecutionSnapshot} {image digest : Digest}
      {text : String} {events : List JobEvent}
      (hholds : Holds v attemptID attempt slot job) (hlive : now < attempt.authorityExpiresAt)
      (hcancel : job.cancelRequestedAt = none) (hresolved : ¬ Unresolved v attempt.environmentID)
      (hfirst : ∀ id op, v.operations id = some op → op.attemptID ≠ attemptID)
      (hfresh : v.operations operationID = none)
      (hdeployment : v.deployments job.deploymentID = some s) (hmove : Moves now .activating s s')
      (hhead : v.routeHeads attempt.environmentID = some head) (hclear : head.reconciliationRequired = false)
      (hrelease : v.releases job.deploymentID = some release)
      (hready : release.state = .candidate ∨ release.state = .ready)
      (henvironment : release.environmentID = attempt.environmentID)
      (hexecution : v.executions attemptID = some execution)
      (hrender : renderRouteDigest (activationRoute attempt.environmentID head.hostname
        (head.routeRevision + 1) attemptID attempt.fence job.deploymentID execution) = .ok (text, digest))
      (hevents : Concerns attempt.jobID attemptID events) (hplain : Unreconciled events) :
      Effect now v .authorizes
        { v with
          deployments := update v.deployments job.deploymentID (some s')
          releases := update v.releases job.deploymentID (some (readied now image release))
          operations := update v.operations operationID
            (some (authorizedOperation now attemptID attempt job head image digest))
          jobEvents := v.jobEvents ++ events }
  | block {attemptID operationID : Nat} {attempt : Attempt} {slot : Slot} {job : Job} {op : Operation}
      {head : RouteHead} {summary : Bytes} {events : List JobEvent}
      (hholds : Holds v attemptID attempt slot job) (hoperation : v.operations operationID = some op)
      (hof : op.attemptID = attemptID) (hstate : op.state = .switchAuthorized)
      (hhead : v.routeHeads attempt.environmentID = some head)
      (hchecked : OperationChecked { op with
        state := .reconciliationRequired, closedAt := some now, outcomeSummary := summary })
      (hevents : Concerns attempt.jobID attemptID events) (hplain : Unreconciled events) :
      Effect now v .other
        { v with
          operations := update v.operations operationID (some { op with
            state := .reconciliationRequired, closedAt := some now, outcomeSummary := summary })
          routeHeads := update v.routeHeads attempt.environmentID (some (flagged now head))
          slots := update v.slots attempt.environmentID (some { slot with
            reconciliationAttemptID := some attemptID, updatedAt := now })
          jobEvents := v.jobEvents ++ events }
  | evidence {jobID attemptID operationID : Nat} {op : Operation} {summary : Bytes} {events : List JobEvent}
      (hoperation : v.operations operationID = some op) (hstate : op.state = .reconciliationRequired)
      (hchecked : OperationChecked { op with outcomeSummary := summary })
      (hevents : Concerns jobID attemptID events) (hplain : Unreconciled events)
      (hkept : op.outcomeSummary <+: summary) :
      Effect now v .other
        { v with
          operations := update v.operations operationID (some { op with outcomeSummary := summary })
          jobEvents := v.jobEvents ++ events }
  | trace {jobID attemptID : Nat} {events : List JobEvent} (hevents : Concerns jobID attemptID events)
      (hplain : Unreconciled events) :
      Effect now v .other { v with jobEvents := v.jobEvents ++ events }
  | activate {attemptID operationID : Nat} {attempt : Attempt} {slot : Slot} {job : Job} {s s' : Snapshot}
      {op : Operation} {head : RouteHead} {release : Release} {result : String × Digest} {summary : Bytes}
      {events : List JobEvent}
      (hholds : Holds v attemptID attempt slot job) (hoperation : v.operations operationID = some op)
      (hof : op.attemptID = attemptID) (hstate : unresolvedActivation op.state = true)
      (hdeployment : v.deployments job.deploymentID = some s) (hmove : Moves now .healthy s s')
      (hhead : v.routeHeads attempt.environmentID = some head)
      (hrevision : head.routeRevision = op.expectedRouteRevision)
      (hactive : head.activeReleaseID = op.expectedActiveReleaseID)
      (hrelease : v.releases op.releaseID = some release) (hready : release.state = .ready)
      (hpredecessor : ∀ id ∈ op.expectedActiveReleaseID, ∃ r, v.releases id = some r ∧ r.state = .active)
      (hchecked : OperationChecked { op with
        state := .succeeded, closedAt := some (op.closedAt.getD now), outcomeSummary := summary })
      (hattempt : checkAttempt { attempt with
        state := .succeeded, closedAt := some now, failureClass := none, result := some result } = .ok ())
      (hevents : Concerns attempt.jobID attemptID events) :
      Effect now v .other
        { v.close attemptID
            { attempt with
              state := .succeeded, closedAt := some now, failureClass := none, result := some result }
            { slot with currentAttemptID := none, reconciliationAttemptID := none, updatedAt := now }
            { job with state := .succeeded, updatedAt := now } s' events with
          operations := update v.operations operationID (some { op with
            state := .succeeded, closedAt := some (op.closedAt.getD now), outcomeSummary := summary })
          releases := update (retain now v.releases op.expectedActiveReleaseID) op.releaseID
            (some { release with state := .active, updatedAt := now })
          routeHeads := update v.routeHeads attempt.environmentID (some { head with
            activeReleaseID := some op.releaseID
            routeRevision := head.routeRevision + 1
            reconciliationRequired := false
            updatedAt := max head.updatedAt now }) }
  | abandon {attemptID operationID : Nat} {attempt : Attempt} {slot : Slot} {job : Job} {s s' : Snapshot}
      {op : Operation} {head : RouteHead} {summary : Bytes} {events : List JobEvent}
      (hholds : Holds v attemptID attempt slot job) (hoperation : v.operations operationID = some op)
      (hof : op.attemptID = attemptID) (hstate : op.state = .reconciliationRequired)
      (hdeployment : v.deployments job.deploymentID = some s) (hmove : Moves now .failed s s')
      (hhead : v.routeHeads attempt.environmentID = some head)
      (hchecked : OperationChecked { op with
        state := .failed, closedAt := some (op.closedAt.getD now), outcomeSummary := summary })
      (hattempt : checkAttempt { attempt with state := .expired, closedAt := some now } = .ok ())
      (hevents : Concerns attempt.jobID attemptID events) (hkept : op.outcomeSummary <+: summary) :
      Effect now v .other
        { v.close attemptID { attempt with state := .expired, closedAt := some now }
            { slot with currentAttemptID := none, reconciliationAttemptID := none, updatedAt := now }
            { job with state := .failed, updatedAt := now } s' events with
          operations := update v.operations operationID (some { op with
            state := .failed, closedAt := some (op.closedAt.getD now), outcomeSummary := summary })
          routeHeads := update v.routeHeads attempt.environmentID (some (unflagged now head)) }
  | clear {environmentID : String} {attemptID : Nat} {attempt : Attempt} {slot : Slot} {events : List JobEvent}
      (hslot : v.slots environmentID = some slot) (hflag : slot.reconciliationAttemptID = some attemptID)
      (hresolved : ¬ Unresolved v environmentID) (hattempt : v.attempts attemptID = some attempt)
      (hevents : Concerns attempt.jobID attemptID events) :
      Effect now v .other
        { v with
          slots := update v.slots environmentID (some { slot with
            reconciliationAttemptID := none, updatedAt := now })
          jobEvents := v.jobEvents ++ events }
  | createHead {environmentID hostname : String} (hnone : v.routeHeads environmentID = none)
      (hunique : ∀ id head, v.routeHeads id = some head → head.hostname ≠ hostname) :
      Effect now v .other
        { v with routeHeads := update v.routeHeads environmentID (some ⟨hostname, 0, none, false, now, now⟩) }
  | rename {environmentID hostname : String} {head : RouteHead}
      (hhead : v.routeHeads environmentID = some head) (hinactive : head.activeReleaseID = none)
      (hunique : ∀ id h, v.routeHeads id = some h → id ≠ environmentID → h.hostname ≠ hostname)
      (hupdated : head.updatedAt ≤ now) (hcreated : head.createdAt ≤ now) :
      Effect now v .renames
        { v with routeHeads := update v.routeHeads environmentID (some { head with
            hostname := hostname, routeRevision := head.routeRevision + 1, updatedAt := now }) }

-- What a whole transaction does: effects at one clock reading, of permitted kinds only.
def Effects (now : Nat) (permitted : Kind → Prop) : View → View → Prop :=
  Relation.ReflTransGen fun v v' => ∃ kind, permitted kind ∧ Effect now v kind v'

end AutoDeploy.Protocol
