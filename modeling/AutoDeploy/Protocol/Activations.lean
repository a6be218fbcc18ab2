import AutoDeploy.Protocol.Occupancy

namespace AutoDeploy.Protocol

open Function Lib Lib.Result Queue Store Deployment

-- A deployment whose job is running or waiting to run again.
def running : Status → Bool
  | .assigned | .fetching | .building | .starting | .healthChecking | .activating => true
  | _ => false

structure FitsDeployment (job : Job) (s : Snapshot) : Prop where
  queued : job.state = .queued → s.status = .queued ∧ job.attemptCount = 0
  running : job.state = .leased ∨ job.state = .retryWait → running s.status = true

-- Every job drives one deployment of its own.
structure Pipeline (v : View) : Prop where
  stored : Every v.deployments DeploymentStored
  fitsDeployment : Every v.jobs fun _ job => At v.deployments job.deploymentID (FitsDeployment job)
  separate : Every v.jobs fun id job => Every v.jobs fun other job' =>
    job.deploymentID = job'.deploymentID → id = other

-- The document an activation authorized, were this the hostname.
def Authorizes (executions : Nat → Option ExecutionSnapshot) (op : Operation) (hostname : String) : Prop :=
  At executions op.attemptID fun execution => ∃ text, renderRouteDigest (activationRoute op.environmentID hostname
    (op.expectedRouteRevision + 1) op.attemptID op.fence op.releaseID execution) = .ok (text, op.routeDigest)

-- How an activation agrees with the rows it names. The last part of each is about an activation that
-- is not resolved: nothing it relies on has been taken away.
structure OfAttempt (op : Operation) (attempt : Attempt) : Prop where
  fence : op.fence = attempt.fence
  job : op.jobID = attempt.jobID
  environment : op.environmentID = attempt.environmentID
  leased : unresolvedActivation op.state = true → attempt.state = .leased

structure OfJob (op : Operation) (job : Job) : Prop where
  release : op.releaseID = job.deploymentID
  unmarked : unresolvedActivation op.state = true → job.cancelRequestedAt = none

structure OfRelease (op : Operation) (release : Release) : Prop where
  environment : release.environmentID = op.environmentID
  ready : unresolvedActivation op.state = true → release.state = .ready
  live : op.state = .succeeded → release.state = .active ∨ release.state = .retained

structure OfHead (executions : Nat → Option ExecutionSnapshot) (op : Operation) (head : RouteHead) : Prop where
  flagged : op.state = .reconciliationRequired → head.reconciliationRequired = true
  revision : unresolvedActivation op.state = true → op.expectedRouteRevision ≤ head.routeRevision
  active : unresolvedActivation op.state = true → op.expectedRouteRevision = head.routeRevision →
    op.expectedActiveReleaseID = head.activeReleaseID
  document : unresolvedActivation op.state = true → op.expectedRouteRevision = head.routeRevision →
    Authorizes executions op head.hostname

structure Activations (v : View) : Prop where
  checked : Every v.operations fun _ op => OperationChecked op ∧ op.state ≠ .started
  ofAttempt : Every v.operations fun _ op => At v.attempts op.attemptID (OfAttempt op)
  ofJob : Every v.operations fun _ op => At v.jobs op.jobID (OfJob op)
  ofRelease : Every v.operations fun _ op => At v.releases op.releaseID (OfRelease op)
  ofHead : Every v.operations fun _ op => At v.routeHeads op.environmentID (OfHead v.executions op)
  ofDeployment : Every v.operations fun _ op => unresolvedActivation op.state = true →
    At v.deployments op.releaseID fun s => s.status = .activating
  ofSlot : Every v.operations fun _ op => op.state = .reconciliationRequired →
    At v.slots op.environmentID fun slot => slot.reconciliationAttemptID = some op.attemptID
  unique : Every v.operations fun id op => Every v.operations fun other op' =>
    op.attemptID = op'.attemptID → id = other
  activating : Every v.deployments fun id s => s.status = .activating →
    ∃ operationID op, v.operations operationID = some op ∧ op.releaseID = id ∧
      unresolvedActivation op.state = true
  flagHeld : Every v.slots fun _ slot => ∀ id, slot.reconciliationAttemptID = some id →
    slot.currentAttemptID = some id → AttemptUnresolved v id

section

variable {now : Nat} {v v' : View} {attemptID operationID : Nat} {attempt : Attempt} {slot : Slot} {job : Job}
  {op : Operation} {s s' : Snapshot}

@[simp] theorem unresolved_switchAuthorized : unresolvedActivation .switchAuthorized = true := rfl

@[simp] theorem unresolved_reconciliationRequired : unresolvedActivation .reconciliationRequired = true := rfl

@[simp] theorem unresolved_succeeded : unresolvedActivation .succeeded = false := rfl

@[simp] theorem unresolved_failed : unresolvedActivation .failed = false := rfl

-- An unresolved activation belongs to the holder of its environment's slot.
theorem Activations.holds (ho : Occupancy v) (ha : Activations v) (hrow : v.operations operationID = some op)
    (hopen : unresolvedActivation op.state = true) :
    ∃ attempt slot job, Holds v op.attemptID attempt slot job ∧ OfAttempt op attempt ∧ OfJob op job := by
  obtain ⟨attempt, hattempt, hof⟩ := ha.ofAttempt operationID op hrow
  obtain ⟨slot, job, hh⟩ := ho.holds hattempt (hof.leased hopen)
  exact ⟨attempt, slot, job, hh, hof, (ha.ofJob operationID op hrow).of_row (hof.job ▸ hh.jobRow)⟩

-- So the holder of an environment is the only one that can have one there, ...
theorem Activations.of_environment (ho : Occupancy v) (ha : Activations v)
    (hh : Holds v attemptID attempt slot job) (hrow : v.operations operationID = some op)
    (hopen : unresolvedActivation op.state = true) (hsame : op.environmentID = attempt.environmentID) :
    op.attemptID = attemptID := by
  obtain ⟨attempt', slot', job', hh', hof, -⟩ := ha.holds ho hrow hopen
  exact ho.leased_unique hh hh'.attemptRow hh'.leased (.inl (hof.environment ▸ hsame))

-- ... and the holder of a job is the only one that can have one for the job's deployment.
theorem Activations.of_deployment (ho : Occupancy v) (hp : Pipeline v) (ha : Activations v)
    (hh : Holds v attemptID attempt slot job) (hrow : v.operations operationID = some op)
    (hopen : unresolvedActivation op.state = true) (hsame : op.releaseID = job.deploymentID) :
    op.attemptID = attemptID := by
  obtain ⟨attempt', slot', job', hh', hof, hjob⟩ := ha.holds ho hrow hopen
  have hjobs := hp.separate _ job' hh'.jobRow _ job hh.jobRow (hjob.release ▸ hsame)
  exact ho.leased_unique hh hh'.attemptRow hh'.leased (.inr hjobs)

theorem Activations.unresolved_unique (ho : Occupancy v) (ha : Activations v) {other : Nat} {op' : Operation}
    (hrow : v.operations operationID = some op) (hopen : unresolvedActivation op.state = true)
    (hrow' : v.operations other = some op') (hopen' : unresolvedActivation op'.state = true)
    (hsame : op'.environmentID = op.environmentID) : other = operationID := by
  obtain ⟨attempt, slot, job, hh, hof, -⟩ := ha.holds ho hrow hopen
  have hattempt := ha.of_environment ho hh hrow' hopen' (hof.environment ▸ hsame)
  exact ha.unique other op' hrow' operationID op hrow hattempt

theorem Moves.status {target : Status} (h : Moves now target s s') : s'.status = target := by
  cases h with
  | same hstatus => exact hstatus
  | step _ _ _ => rfl

theorem Moves.stored {target : Status} {id : String} (h : Moves now target s s') (hs : DeploymentStored id s) :
    DeploymentStored id s' := by
  cases h with
  | same _ => exact hs
  | step hstep hzero hlate => exact hs.advance hstep hzero hlate

theorem Ends.stored {state : JobState} {id : String} (h : Ends now s state s') (hs : DeploymentStored id s) :
    DeploymentStored id s' := by
  cases h with
  | kept _ => exact hs
  | failed _ hmove => exact hmove.stored hs
  | cancelled hmove => exact hmove.stored hs

theorem Pipeline.congr (hp : Pipeline v) (hjobs : v'.jobs = v.jobs) (hdeployments : v'.deployments = v.deployments) :
    Pipeline v' := by
  obtain ⟨h₁, h₂, h₃⟩ := hp
  constructor <;> simpa only [hjobs, hdeployments]

-- A job and its deployment may change together; no other job shares the deployment.
theorem Pipeline.write {jobID : Nat} {job' : Job} (hp : Pipeline v) (hjob : v.jobs jobID = some job)
    (hjobs : v'.jobs = update v.jobs jobID (some job'))
    (hdeployments : v'.deployments = update v.deployments job.deploymentID (some s'))
    (hsame : job'.deploymentID = job.deploymentID) (hstored : DeploymentStored job.deploymentID s')
    (hfits : FitsDeployment job' s') : Pipeline v' := by
  refine ⟨?stored, ?fitsDeployment, ?separate⟩
  case stored =>
    rw [hdeployments]
    exact Every.write (fun id s _ hrow => hp.stored id s hrow) hstored
  case fitsDeployment =>
    rw [hjobs, hdeployments]
    refine Every.write (fun id j hne hrow => ?_) (hsame ▸ At.write_self hfits)
    refine (hp.fitsDeployment id j hrow).write_of_ne fun heq => ?_
    exact hne (hp.separate id j hrow jobID job hjob heq)
  case separate =>
    rw [hjobs]
    refine Every.write (fun id j _ hrow => ?_) ?_
    · refine Every.write (fun other j' _ hrow' => hp.separate id j hrow other j' hrow') fun heq => ?_
      exact hp.separate id j hrow jobID job hjob (heq.trans hsame)
    · refine Every.write (fun other j' _ hrow' heq => ?_) fun _ => rfl
      exact hp.separate jobID job hjob other j' hrow' (hsame ▸ heq)

theorem Pipeline.fits {jobID : Nat} (hp : Pipeline v) (hjob : v.jobs jobID = some job)
    (hdeployment : v.deployments job.deploymentID = some s) : FitsDeployment job s :=
  (hp.fitsDeployment jobID job hjob).of_row hdeployment

theorem FitsDeployment.of_closed (hclosed : job.state.terminal = true) : FitsDeployment job s where
  queued := fun hs => by simp [hs, JobState.terminal] at hclosed
  running := fun hs => by rcases hs with hs | hs <;> simp [hs, JobState.terminal] at hclosed

theorem FitsDeployment.of_running (hstate : job.state ≠ .queued) (hrunning : Protocol.running s.status = true) :
    FitsDeployment job s where
  queued := fun hs => absurd hs hstate
  running := fun _ => hrunning

theorem running_of_agentReportablePhase {phase : Status} (h : agentReportablePhase phase = true) :
    running phase = true := by
  cases phase <;> simp_all [agentReportablePhase, running]

theorem Pipeline.lease {jobID : Nat} (hp : Pipeline v) (hjob : v.jobs jobID = some job)
    (hstate : job.state = .queued ∨ job.state = .retryWait)
    (hdeployment : v.deployments job.deploymentID = some s)
    (hassigned : (job.attemptCount = 0 ∧ Moves now .assigned s s') ∨ (job.attemptCount ≠ 0 ∧ s' = s)) :
    DeploymentStored job.deploymentID s' ∧ running s'.status = true := by
  have hfits := hp.fits hjob hdeployment
  have hstored := hp.stored _ s hdeployment
  rcases hassigned with ⟨-, hmove⟩ | ⟨hcount, rfl⟩
  · exact ⟨hmove.stored hstored, by simp [hmove.status, running]⟩
  · refine ⟨hstored, hfits.running (.inr ?_)⟩
    rcases hstate with hqueued | hwaiting
    · exact absurd (hfits.queued hqueued).2 hcount
    · exact hwaiting

theorem Ends.fits {state : JobState} {availableAt : Nat} (hends : Ends now s state s')
    (hfits : FitsDeployment job s) (hleased : job.state = .leased) :
    FitsDeployment { job with state := state, availableAt := availableAt, updatedAt := now } s' := by
  cases hends with
  | kept hstate =>
      rcases hstate with rfl | rfl
      · exact FitsDeployment.of_closed rfl
      · exact FitsDeployment.of_running (by simp) (hfits.running (.inl hleased))
  | failed hstate _ =>
      rcases hstate with rfl | rfl
      · exact FitsDeployment.of_closed rfl
      · exact FitsDeployment.of_closed rfl
  | cancelled _ => exact FitsDeployment.of_closed rfl

theorem Pipeline.effect {kind : Kind} (ho : Occupancy v) (hp : Pipeline v) (he : Effect now v kind v') :
    Pipeline v' := by
  cases he with
  | openSlot _ => exact hp.congr rfl rfl
  | freeze _ => exact hp.congr rfl rfl
  | candidate _ _ _ _ _ _ _ => exact hp.congr rfl rfl
  | lease hjob _ _ _ hstate _ _ _ _ hdeployment hassigned _ _ _ _ =>
      obtain ⟨hstored, hrunning⟩ := hp.lease hjob hstate hdeployment hassigned
      exact hp.write hjob rfl rfl rfl hstored (FitsDeployment.of_running (by simp) hrunning)
  | renew _ _ => exact hp.congr rfl rfl
  | close hholds _ _ _ _ _ hdeployment hends _ _ _ _ =>
      have hleased := ((ho.holds_fitsJob hholds).leased hholds.leased).1
      exact hp.write hholds.jobRow rfl rfl rfl (hends.stored (hp.stored _ _ hdeployment))
        (hends.fits (hp.fits hholds.jobRow hdeployment) hleased)
  | cancel hjob _ _ hdeployment hmove _ =>
      exact hp.write hjob rfl rfl rfl (hmove.stored (hp.stored _ _ hdeployment)) (FitsDeployment.of_closed rfl)
  | mark hjob _ _ _ _ _ hdeployment _ _ _ =>
      have hfits := hp.fits hjob hdeployment
      exact hp.write hjob rfl (update_row hdeployment).symm rfl (hp.stored _ _ hdeployment)
        ⟨hfits.queued, hfits.running⟩
  | progress hholds hphase hdeployment hmove =>
      have hleased := ((ho.holds_fitsJob hholds).leased hholds.leased).1
      refine hp.write hholds.jobRow (update_row hholds.jobRow).symm rfl rfl
        (hmove.stored (hp.stored _ _ hdeployment)) ?_
      exact FitsDeployment.of_running (by simp [hleased])
        (by rw [hmove.status]; exact running_of_agentReportablePhase hphase)
  | authorize hholds _ _ _ _ _ hdeployment hmove _ _ _ _ _ _ _ _ _ =>
      have hleased := ((ho.holds_fitsJob hholds).leased hholds.leased).1
      exact hp.write hholds.jobRow (update_row hholds.jobRow).symm rfl rfl
        (hmove.stored (hp.stored _ _ hdeployment))
        (FitsDeployment.of_running (by simp [hleased]) (by simp [hmove.status, running]))
  | block _ _ _ _ _ _ _ _ => exact hp.congr rfl rfl
  | evidence _ _ _ _ _ => exact hp.congr rfl rfl
  | trace _ _ => exact hp.congr rfl rfl
  | activate hholds _ _ _ hdeployment hmove _ _ _ _ _ _ _ _ _ =>
      exact hp.write hholds.jobRow rfl rfl rfl (hmove.stored (hp.stored _ _ hdeployment))
        (FitsDeployment.of_closed rfl)
  | abandon hholds _ _ _ hdeployment hmove _ _ _ _ =>
      exact hp.write hholds.jobRow rfl rfl rfl (hmove.stored (hp.stored _ _ hdeployment))
        (FitsDeployment.of_closed rfl)
  | clear _ _ _ _ _ => exact hp.congr rfl rfl
  | createHead _ _ => exact hp.congr rfl rfl
  | rename _ _ _ _ _ => exact hp.congr rfl rfl

-- A write to a deployment that no unresolved activation is about.
theorem Activations.write_deployment (ha : Activations v) (id : String) (s' : Snapshot)
    (hfree : Every v.operations fun _ op => unresolvedActivation op.state = true → op.releaseID ≠ id)
    (hquiet : s'.status = .activating → v.deployments id = some s') :
    Activations { v with deployments := update v.deployments id (some s') } where
  checked := ha.checked
  ofAttempt := ha.ofAttempt
  ofJob := ha.ofJob
  ofRelease := ha.ofRelease
  ofHead := ha.ofHead
  ofDeployment o op hrow hopen := (ha.ofDeployment o op hrow hopen).write_of_ne (hfree o op hrow hopen)
  ofSlot := ha.ofSlot
  unique := ha.unique
  activating := Every.write (fun d s _ hrow => ha.activating d s hrow)
    fun hstatus => ha.activating id s' (hquiet hstatus) hstatus
  flagHeld := ha.flagHeld

-- Writes to attempts, jobs and slots that leave what unresolved activations need of them.
theorem Activations.write_attempt (ha : Activations v) (attempt' : Attempt)
    (hattempt : v.attempts attemptID = some attempt)
    (hkeep : ∀ op, OfAttempt op attempt → OfAttempt op attempt') :
    Activations { v with attempts := update v.attempts attemptID (some attempt') } where
  checked := ha.checked
  ofAttempt o op hrow := (ha.ofAttempt o op hrow).write hattempt fun _ => hkeep op
  ofJob := ha.ofJob
  ofRelease := ha.ofRelease
  ofHead := ha.ofHead
  ofDeployment := ha.ofDeployment
  ofSlot := ha.ofSlot
  unique := ha.unique
  activating := ha.activating
  flagHeld := ha.flagHeld

theorem Activations.write_job {jobID : Nat} (ha : Activations v) (job' : Job) (hjob : v.jobs jobID = some job)
    (hsame : job'.deploymentID = job.deploymentID)
    (hmark : job'.cancelRequestedAt = job.cancelRequestedAt ∨
      Every v.operations fun _ op => unresolvedActivation op.state = true → op.jobID ≠ jobID) :
    Activations { v with jobs := update v.jobs jobID (some job') } where
  checked := ha.checked
  ofAttempt := ha.ofAttempt
  ofJob o op hrow := by
    refine (ha.ofJob o op hrow).write hjob fun heq hof => ⟨hof.release.trans hsame.symm, fun hopen => ?_⟩
    rcases hmark with hold | hfree
    · rw [hold]
      exact hof.unmarked hopen
    · exact absurd heq (hfree o op hrow hopen)
  ofRelease := ha.ofRelease
  ofHead := ha.ofHead
  ofDeployment := ha.ofDeployment
  ofSlot := ha.ofSlot
  unique := ha.unique
  activating := ha.activating
  flagHeld := ha.flagHeld

theorem Activations.write_slot (ha : Activations v) (environmentID : String) (slot' : Slot)
    (hkeep : Every v.operations fun _ op => op.state = .reconciliationRequired →
      op.environmentID = environmentID → slot'.reconciliationAttemptID = some op.attemptID)
    (hheld : ∀ id, slot'.reconciliationAttemptID = some id → slot'.currentAttemptID = some id →
      AttemptUnresolved v id) :
    Activations { v with slots := update v.slots environmentID (some slot') } where
  checked := ha.checked
  ofAttempt := ha.ofAttempt
  ofJob := ha.ofJob
  ofRelease := ha.ofRelease
  ofHead := ha.ofHead
  ofDeployment := ha.ofDeployment
  ofSlot o op hrow hstate := by
    by_cases henv : op.environmentID = environmentID
    · exact henv ▸ At.write_self (hkeep o op hrow hstate henv)
    · exact (ha.ofSlot o op hrow hstate).write_of_ne henv
  unique := ha.unique
  activating := ha.activating
  flagHeld := Every.write (fun env slot _ hrow => ha.flagHeld env slot hrow) hheld

theorem Activations.write_head (ha : Activations v) (environmentID : String) (head' : RouteHead)
    (hkeep : Every v.operations fun _ op => op.environmentID = environmentID → OfHead v.executions op head') :
    Activations { v with routeHeads := update v.routeHeads environmentID (some head') } where
  checked := ha.checked
  ofAttempt := ha.ofAttempt
  ofJob := ha.ofJob
  ofRelease := ha.ofRelease
  ofHead o op hrow := by
    by_cases henv : op.environmentID = environmentID
    · exact henv ▸ At.write_self (hkeep o op hrow henv)
    · exact (ha.ofHead o op hrow).write_of_ne henv
  ofDeployment := ha.ofDeployment
  ofSlot := ha.ofSlot
  unique := ha.unique
  activating := ha.activating
  flagHeld := ha.flagHeld

theorem Activations.write_releases (ha : Activations v) (releases : String → Option Release)
    (hkeep : Every v.operations fun _ op => At releases op.releaseID (OfRelease op)) :
    Activations { v with releases := releases } where
  checked := ha.checked
  ofAttempt := ha.ofAttempt
  ofJob := ha.ofJob
  ofRelease := hkeep
  ofHead := ha.ofHead
  ofDeployment := ha.ofDeployment
  ofSlot := ha.ofSlot
  unique := ha.unique
  activating := ha.activating
  flagHeld := ha.flagHeld

theorem Activations.insert_attempt (ha : Activations v) (attempt' : Attempt) (hnone : v.attempts attemptID = none) :
    Activations { v with attempts := update v.attempts attemptID (some attempt') } where
  checked := ha.checked
  ofAttempt o op hrow := (ha.ofAttempt o op hrow).insert hnone
  ofJob := ha.ofJob
  ofRelease := ha.ofRelease
  ofHead := ha.ofHead
  ofDeployment := ha.ofDeployment
  ofSlot := ha.ofSlot
  unique := ha.unique
  activating := ha.activating
  flagHeld := ha.flagHeld

theorem OfHead.congr {executions executions' : Nat → Option ExecutionSnapshot} {head : RouteHead}
    (h : OfHead executions op head)
    (hkeep : ∀ hostname, Authorizes executions op hostname → Authorizes executions' op hostname) :
    OfHead executions' op head :=
  ⟨h.flagged, h.revision, h.active, fun hopen hrev => hkeep _ (h.document hopen hrev)⟩

-- An attempt that does not exist yet has no activation.
theorem Activations.freeze {execution : ExecutionSnapshot} {bindings : Nat → Option (List FrozenBinding)}
    {literals : Nat → Option (List FrozenLiteral)} (ha : Activations v) (hnone : v.attempts attemptID = none) :
    Activations { v with
      executions := update v.executions attemptID (some execution)
      frozenBindings := bindings
      frozenLiterals := literals } where
  checked := ha.checked
  ofAttempt := ha.ofAttempt
  ofJob := ha.ofJob
  ofRelease := ha.ofRelease
  ofHead o op hrow := by
    refine (ha.ofHead o op hrow).imp fun head hof => hof.congr fun hostname hdoc => hdoc.write_of_ne fun heq => ?_
    obtain ⟨attempt, hattempt, -⟩ := ha.ofAttempt o op hrow
    rw [heq, hnone] at hattempt
    cases hattempt
  ofDeployment := ha.ofDeployment
  ofSlot := ha.ofSlot
  unique := ha.unique
  activating := ha.activating
  flagHeld := ha.flagHeld

-- An activation that stays unresolved: only its state, its closing time and its summary may change.
theorem Activations.write_operation (ha : Activations v) (op' : Operation)
    (hrow : v.operations operationID = some op) (hid : op.sameIdentity op')
    (hchecked : OperationChecked op') (hopen : unresolvedActivation op.state = true)
    (hopen' : op'.state = .reconciliationRequired)
    (hhead : At v.routeHeads op.environmentID fun head => head.reconciliationRequired = true)
    (hslot : At v.slots op.environmentID fun slot => slot.reconciliationAttemptID = some op.attemptID) :
    Activations { v with operations := update v.operations operationID (some op') } := by
  have hrelease : op'.releaseID = op.releaseID := by rw [hid]
  have hattempt : op'.attemptID = op.attemptID := by rw [hid]
  have hjob : op'.jobID = op.jobID := by rw [hid]
  have hfence : op'.fence = op.fence := by rw [hid]
  have henv : op'.environmentID = op.environmentID := by rw [hid]
  have hdoc : ∀ hostname, Authorizes v.executions op hostname → Authorizes v.executions op' hostname := by
    intro hostname hold
    rw [hid]
    exact hold
  have hopen'' : unresolvedActivation op'.state = true := by rw [hopen']; rfl
  refine ⟨?checked, ?ofAttempt, ?ofJob, ?ofRelease, ?ofHead, ?ofDeployment, ?ofSlot, ?unique, ?activating, ?flagHeld⟩
  case checked => exact Every.write (fun o x _ hx => ha.checked o x hx) ⟨hchecked, by simp [hopen']⟩
  case ofAttempt =>
    refine Every.write (fun o x _ hx => ha.ofAttempt o x hx) ?_
    rw [hattempt]
    exact (ha.ofAttempt _ op hrow).imp fun a hof => ⟨hfence.trans hof.fence, hjob.trans hof.job,
      henv.trans hof.environment, fun _ => hof.leased hopen⟩
  case ofJob =>
    refine Every.write (fun o x _ hx => ha.ofJob o x hx) ?_
    rw [hjob]
    exact (ha.ofJob _ op hrow).imp fun j hof => ⟨hrelease.trans hof.release, fun _ => hof.unmarked hopen⟩
  case ofRelease =>
    refine Every.write (fun o x _ hx => ha.ofRelease o x hx) ?_
    rw [hrelease]
    exact (ha.ofRelease _ op hrow).imp fun r hof => ⟨hof.environment.trans henv.symm, fun _ => hof.ready hopen,
      fun hs => by simp [hopen'] at hs⟩
  case ofHead =>
    refine Every.write (fun o x _ hx => ha.ofHead o x hx) ?_
    obtain ⟨head, hheadRow, hof⟩ := ha.ofHead _ op hrow
    have hrev : op'.expectedRouteRevision = op.expectedRouteRevision := by rw [hid]
    have hact : op'.expectedActiveReleaseID = op.expectedActiveReleaseID := by rw [hid]
    rw [henv]
    refine At.intro hheadRow ⟨fun _ => hhead.of_row hheadRow, fun _ => ?_, fun _ heq => ?_, fun _ heq => ?_⟩
    · exact hrev ▸ hof.revision hopen
    · exact hact.trans (hof.active hopen (hrev ▸ heq))
    · exact hdoc _ (hof.document hopen (hrev ▸ heq))
  case ofDeployment =>
    refine Every.write (fun o x _ hx => ha.ofDeployment o x hx) fun _ => ?_
    rw [hrelease]
    exact ha.ofDeployment _ op hrow hopen
  case ofSlot =>
    refine Every.write (fun o x _ hx => ha.ofSlot o x hx) fun _ => ?_
    rw [henv, hattempt]
    exact hslot
  case unique =>
    refine Every.write (fun o x _ hx => ?_) ?_
    · refine Every.write (fun o' x' _ hx' => ha.unique o x hx o' x' hx') fun heq => ?_
      exact ha.unique o x hx _ op hrow (heq.trans hattempt)
    · refine Every.write (fun o' x' _ hx' heq => ?_) fun _ => rfl
      exact ha.unique _ op hrow o' x' hx' (hattempt ▸ heq)
  case activating =>
    intro d s hs hstatus
    obtain ⟨o, x, hx, hd, hxopen⟩ := ha.activating d s hs hstatus
    by_cases ho : o = operationID
    · subst ho
      rw [hrow] at hx
      cases hx
      exact ⟨o, op', by simp, hrelease.trans hd, hopen''⟩
    · exact ⟨o, x, by simpa [ho] using hx, hd, hxopen⟩
  case flagHeld =>
    intro env slot hs a hflag hcurrent
    obtain ⟨o, x, hx, hd, hxopen⟩ := ha.flagHeld env slot hs a hflag hcurrent
    by_cases ho : o = operationID
    · subst ho
      rw [hrow] at hx
      cases hx
      exact ⟨o, op', by simp, hattempt.trans hd, hopen''⟩
    · exact ⟨o, x, by simpa [ho] using hx, hd, hxopen⟩

-- An activation is resolved: its deployment leaves `activating` and its slot is vacated with it.
theorem Activations.resolve {op' : Operation} {slot' : Slot} {releases : String → Option Release}
    (ho : Occupancy v) (hp : Pipeline v) (ha : Activations v) (hh : Holds v attemptID attempt slot job)
    (hrow : v.operations operationID = some op) (hof : op.attemptID = attemptID) (hid : op.sameIdentity op')
    (hchecked : OperationChecked op') (hresolved : unresolvedActivation op'.state = false)
    (hreleases : Every (update v.operations operationID (some op')) fun _ x => At releases x.releaseID (OfRelease x))
    (hfree : slot'.currentAttemptID = none) (hstatus : s'.status ≠ .activating) :
    Activations { v with
      releases := releases
      operations := update v.operations operationID (some op')
      deployments := update v.deployments job.deploymentID (some s')
      slots := update v.slots attempt.environmentID (some slot') } := by
  have hrelease : op'.releaseID = op.releaseID := by rw [hid]
  have hattempt : op'.attemptID = op.attemptID := by rw [hid]
  have hjob : op'.jobID = op.jobID := by rw [hid]
  have hfence : op'.fence = op.fence := by rw [hid]
  have henv : op'.environmentID = op.environmentID := by rw [hid]
  have hopAttempt := (ha.ofAttempt _ op hrow).of_row (hof ▸ hh.attemptRow)
  have hopJob := (ha.ofJob _ op hrow).of_row (hopAttempt.job ▸ hh.jobRow)
  -- no other activation is unresolved for this environment or this deployment
  have hother : ∀ o x, o ≠ operationID → v.operations o = some x → unresolvedActivation x.state = true →
      x.environmentID ≠ attempt.environmentID ∧ x.releaseID ≠ job.deploymentID := by
    intro o x hne hx hxopen
    refine ⟨fun heq => hne ?_, fun heq => hne ?_⟩
    · exact ha.unique o x hx _ op hrow ((ha.of_environment ho hh hx hxopen heq).trans hof.symm)
    · exact ha.unique o x hx _ op hrow ((ha.of_deployment ho hp hh hx hxopen heq).trans hof.symm)
  refine ⟨?checked, ?ofAttempt, ?ofJob, ?ofRelease, ?ofHead, ?ofDeployment, ?ofSlot, ?unique, ?activating, ?flagHeld⟩
  case checked =>
    refine Every.write (fun o x _ hx => ha.checked o x hx) ⟨hchecked, fun hs => ?_⟩
    simp [hs, unresolvedActivation] at hresolved
  case ofAttempt =>
    refine Every.write (fun o x _ hx => ha.ofAttempt o x hx) ?_
    rw [hattempt]
    exact (ha.ofAttempt _ op hrow).imp fun a hof => ⟨hfence.trans hof.fence, hjob.trans hof.job,
      henv.trans hof.environment, fun hx => by simp [hresolved] at hx⟩
  case ofJob =>
    refine Every.write (fun o x _ hx => ha.ofJob o x hx) ?_
    rw [hjob]
    exact (ha.ofJob _ op hrow).imp fun j hof => ⟨hrelease.trans hof.release, fun hx => by simp [hresolved] at hx⟩
  case ofRelease => exact hreleases
  case ofHead =>
    refine Every.write (fun o x _ hx => ha.ofHead o x hx) ?_
    rw [henv]
    refine (ha.ofHead _ op hrow).imp fun head _ => ⟨fun hs => ?_, fun hx => ?_, fun hx => ?_, fun hx => ?_⟩
    · simp [hs] at hresolved
    · simp [hresolved] at hx
    · simp [hresolved] at hx
    · simp [hresolved] at hx
  case ofDeployment =>
    refine Every.write (fun o x hne hx hxopen => ?_) fun hx => by simp [hresolved] at hx
    exact (ha.ofDeployment o x hx hxopen).write_of_ne (hother o x hne hx hxopen).2
  case ofSlot =>
    refine Every.write (fun o x hne hx hstate => ?_) fun hs => by simp [hs] at hresolved
    exact (ha.ofSlot o x hx hstate).write_of_ne (hother o x hne hx (by simp [hstate])).1
  case unique =>
    refine Every.write (fun o x _ hx => ?_) ?_
    · refine Every.write (fun o' x' _ hx' => ha.unique o x hx o' x' hx') fun heq => ?_
      exact ha.unique o x hx _ op hrow (heq.trans hattempt)
    · refine Every.write (fun o' x' _ hx' heq => ?_) fun _ => rfl
      exact ha.unique _ op hrow o' x' hx' (hattempt ▸ heq)
  case activating =>
    refine Every.write (fun d s hd hs hact => ?_) fun hact => absurd hact hstatus
    obtain ⟨o, x, hx, hxd, hxopen⟩ := ha.activating d s hs hact
    refine ⟨o, x, (update_of_ne ?_ _ _).trans hx, hxd, hxopen⟩
    rintro rfl
    rw [hrow] at hx
    cases hx
    exact hd (hxd.symm.trans hopJob.release)
  case flagHeld =>
    refine Every.write (fun env slot₀ hne hs a hflag hcurrent => ?_) fun a _ hcurrent => by simp [hfree] at hcurrent
    obtain ⟨o, x, hx, hxa, hxopen⟩ := ha.flagHeld env slot₀ hs a hflag hcurrent
    refine ⟨o, x, (update_of_ne ?_ _ _).trans hx, hxa, hxopen⟩
    rintro rfl
    rw [hrow] at hx
    cases hx
    have hsame := (ho.occupant env slot₀ hs a hcurrent).of_row (hxa ▸ hof ▸ hh.attemptRow)
    exact hne hsame.1.symm

-- A new activation of a holder that has none, in an environment that has none.
theorem Activations.authorize (ha : Activations v) (op : Operation) (s' : Snapshot)
    (hh : Holds v attemptID attempt slot job) (hnone : v.operations operationID = none)
    (hfirst : ∀ id x, v.operations id = some x → x.attemptID ≠ attemptID)
    (hchecked : OperationChecked op) (hstate : op.state = .switchAuthorized) (hof : op.attemptID = attemptID)
    (hattempt : OfAttempt op attempt) (hjob : OfJob op job) (hrelease : At v.releases op.releaseID (OfRelease op))
    (hhead : At v.routeHeads op.environmentID (OfHead v.executions op)) (hstatus : s'.status = .activating) :
    Activations { v with
      operations := update v.operations operationID (some op)
      deployments := update v.deployments job.deploymentID (some s') } := by
  have hkept : ∀ {o x}, v.operations o = some x → update v.operations operationID (some op) o = some x := by
    intro o x hx
    refine (update_of_ne ?_ _ _).trans hx
    rintro rfl
    rw [hnone] at hx
    cases hx
  refine ⟨?checked, ?ofAttempt, ?ofJob, ?ofRelease, ?ofHead, ?ofDeployment, ?ofSlot, ?unique, ?activating, ?flagHeld⟩
  case checked => exact Every.write (fun o x _ hx => ha.checked o x hx) ⟨hchecked, by simp [hstate]⟩
  case ofAttempt =>
    exact Every.write (fun o x _ hx => ha.ofAttempt o x hx) (At.intro (hof ▸ hh.attemptRow) hattempt)
  case ofJob =>
    exact Every.write (fun o x _ hx => ha.ofJob o x hx) (At.intro (hattempt.job ▸ hh.jobRow) hjob)
  case ofRelease => exact Every.write (fun o x _ hx => ha.ofRelease o x hx) hrelease
  case ofHead => exact Every.write (fun o x _ hx => ha.ofHead o x hx) hhead
  case ofDeployment =>
    refine Every.write (fun o x _ hx hxopen => ?_) fun _ => ?_
    · by_cases hd : x.releaseID = job.deploymentID
      · exact hd ▸ At.write_self hstatus
      · exact (ha.ofDeployment o x hx hxopen).write_of_ne hd
    · rw [hjob.release]
      exact At.write_self hstatus
  case ofSlot => exact Every.write (fun o x _ hx => ha.ofSlot o x hx) fun hs => by simp [hstate] at hs
  case unique =>
    refine Every.write (fun o x _ hx => ?_) ?_
    · refine Every.write (fun o' x' _ hx' => ha.unique o x hx o' x' hx') fun heq => ?_
      exact absurd (heq.trans hof) (hfirst o x hx)
    · refine Every.write (fun o' x' _ hx' heq => ?_) fun _ => rfl
      exact absurd (heq.symm.trans hof) (hfirst o' x' hx')
  case activating =>
    refine Every.write (fun d s _ hs hact => ?_) fun _ => ⟨operationID, op, by simp, hjob.release, by simp [hstate]⟩
    obtain ⟨o, x, hx, hxd, hxopen⟩ := ha.activating d s hs hact
    exact ⟨o, x, hkept hx, hxd, hxopen⟩
  case flagHeld =>
    intro env slot hs a hflag hcurrent
    obtain ⟨o, x, hx, hxa, hxopen⟩ := ha.flagHeld env slot hs a hflag hcurrent
    exact ⟨o, x, hkept hx, hxa, hxopen⟩

theorem Activations.not_environment (ho : Occupancy v) (ha : Activations v)
    (hh : Holds v attemptID attempt slot job) (hnone : ¬ AttemptUnresolved v attemptID) :
    Every v.operations fun _ x => unresolvedActivation x.state = true →
      x.environmentID ≠ attempt.environmentID :=
  fun o x hx hopen heq => hnone ⟨o, x, hx, ha.of_environment ho hh hx hopen heq, hopen⟩

theorem Activations.not_deployment (ho : Occupancy v) (hp : Pipeline v) (ha : Activations v)
    (hh : Holds v attemptID attempt slot job) (hnone : ¬ AttemptUnresolved v attemptID) :
    Every v.operations fun _ x => unresolvedActivation x.state = true → x.releaseID ≠ job.deploymentID :=
  fun o x hx hopen heq => hnone ⟨o, x, hx, ha.of_deployment ho hp hh hx hopen heq, hopen⟩

-- A job that is not running has no unresolved activation, nor has its deployment.
theorem Activations.not_idle {jobID : Nat} (ho : Occupancy v) (hp : Pipeline v) (ha : Activations v)
    (hjob : v.jobs jobID = some job) (hidle : job.state ≠ .leased) :
    Every v.operations fun _ x => unresolvedActivation x.state = true →
      x.jobID ≠ jobID ∧ x.releaseID ≠ job.deploymentID := by
  intro o x hx hopen
  obtain ⟨attempt, slot, job', hh, hof, hofJob⟩ := ha.holds ho hx hopen
  have hleased := ((ho.holds_fitsJob hh).leased hh.leased).1
  have hne : x.jobID ≠ jobID := by
    rintro rfl
    rw [hof.job, hh.jobRow] at hjob
    cases hjob
    exact hidle hleased
  refine ⟨hne, fun heq => hne ?_⟩
  rw [hof.job]
  exact hp.separate _ job' hh.jobRow jobID job hjob (hofJob.release ▸ heq)

theorem Moves.not_activating {target : Status} (h : Moves now target s s') (htarget : target ≠ .activating) :
    s'.status ≠ .activating := by
  rw [h.status]
  exact htarget

theorem Ends.quiet {state : JobState} (h : Ends now s state s') : s'.status = .activating → s' = s := by
  intro hstatus
  cases h with
  | kept _ => rfl
  | failed _ hmove => exact absurd hstatus (hmove.not_activating (by simp))
  | cancelled hmove => exact absurd hstatus (hmove.not_activating (by simp))

-- The events are not part of it.
theorem Activations.events {events : List JobEvent} (ha : Activations v) :
    Activations { v with jobEvents := events } :=
  ⟨ha.checked, ha.ofAttempt, ha.ofJob, ha.ofRelease, ha.ofHead, ha.ofDeployment, ha.ofSlot, ha.unique,
    ha.activating, ha.flagHeld⟩

theorem OfAttempt.close {attemptState : AttemptState} {failureClass : Option FailureClass}
    {result : Option (String × Digest)} (h : OfAttempt op attempt)
    (hnone : unresolvedActivation op.state = false) :
    OfAttempt op { attempt with
      state := attemptState, closedAt := some now, failureClass := failureClass, result := result } :=
  ⟨h.fence, h.job, h.environment, fun hopen => by simp [hnone] at hopen⟩

-- A holder without an unresolved activation is closed.
theorem Activations.close {attemptState : AttemptState} {failureClass : Option FailureClass}
    {result : Option (String × Digest)} {state : JobState} {availableAt : Nat} {slot' : Slot}
    {events : List JobEvent} (ho : Occupancy v) (hp : Pipeline v) (ha : Activations v)
    (hh : Holds v attemptID attempt slot job) (hnone : ¬ AttemptUnresolved v attemptID)
    (hfree : slot'.currentAttemptID = none) (hdeployment : v.deployments job.deploymentID = some s)
    (hquiet : s'.status = .activating → s' = s) :
    Activations (v.close attemptID
      { attempt with
        state := attemptState, closedAt := some now, failureClass := failureClass, result := result }
      slot' { job with state := state, availableAt := availableAt, updatedAt := now } s' events) := by
  have henv := ha.not_environment ho hh hnone
  have hdep := ha.not_deployment ho hp hh hnone
  have h₁ := ha.write_slot attempt.environmentID slot'
    (fun o x hx hstate heq => absurd heq (henv o x hx (by simp [hstate])))
    (fun id _ hcurrent => by simp [hfree] at hcurrent)
  have h₂ := h₁.write_deployment job.deploymentID s' hdep
    (fun hstatus => by rw [hquiet hstatus]; exact hdeployment)
  have h₃ := h₂.write_job { job with state := state, availableAt := availableAt, updatedAt := now }
    hh.jobRow rfl (.inl rfl)
  exact ⟨h₃.checked,
    fun o x hx => (ha.ofAttempt o x hx).write hh.attemptRow fun heq hof => hof.close <| by
      by_contra hopen
      exact hnone ⟨o, x, hx, heq, by simpa using hopen⟩,
    h₃.ofJob, h₃.ofRelease, h₃.ofHead, h₃.ofDeployment, h₃.ofSlot, h₃.unique, h₃.activating, h₃.flagHeld⟩

theorem OfHead.flag {executions : Nat → Option ExecutionSnapshot} {head : RouteHead}
    (h : OfHead executions op head) : OfHead executions op (Protocol.flagged now head) := by
  by_cases hflag : head.reconciliationRequired = true
  · simpa [Protocol.flagged, hflag] using h
  · simp only [Protocol.flagged, hflag]
    exact ⟨fun _ => rfl, h.revision, h.active, h.document⟩

theorem flagged_flag {head : RouteHead} : (flagged now head).reconciliationRequired = true := by
  by_cases hflag : head.reconciliationRequired = true
  · simp [flagged, hflag]
  · simp [flagged, hflag]

theorem OfHead.of_resolved {executions : Nat → Option ExecutionSnapshot} {head : RouteHead}
    (h : unresolvedActivation op.state = false) : OfHead executions op head where
  flagged := fun hs => by simp [hs] at h
  revision := fun hs => by simp [h] at hs
  active := fun hs => by simp [h] at hs
  document := fun hs => by simp [h] at hs

-- The block: flag the head and the slot, then the activation itself.
theorem Activations.block {head : RouteHead} {summary : Bytes} (ho : Occupancy v) (ha : Activations v)
    (hh : Holds v attemptID attempt slot job) (hrow : v.operations operationID = some op)
    (hof : op.attemptID = attemptID) (hstate : op.state = .switchAuthorized)
    (hhead : v.routeHeads attempt.environmentID = some head)
    (hchecked : OperationChecked { op with
      state := .reconciliationRequired, closedAt := some now, outcomeSummary := summary }) :
    Activations { v with
      operations := update v.operations operationID (some { op with
        state := .reconciliationRequired, closedAt := some now, outcomeSummary := summary })
      routeHeads := update v.routeHeads attempt.environmentID (some (flagged now head))
      slots := update v.slots attempt.environmentID (some { slot with
        reconciliationAttemptID := some attemptID, updatedAt := now }) } := by
  have hopen : unresolvedActivation op.state = true := by simp [hstate]
  have henv := ((ha.ofAttempt _ op hrow).of_row (hof ▸ hh.attemptRow)).environment
  have h₁ := ha.write_head attempt.environmentID (flagged now head)
    (fun o x hx heq => ((ha.ofHead o x hx).of_row (heq ▸ hhead)).flag)
  have h₂ := h₁.write_slot attempt.environmentID
    { slot with reconciliationAttemptID := some attemptID, updatedAt := now }
    (fun o x hx hx' heq => by rw [ha.of_environment ho hh hx (by simp [hx']) heq])
    (fun id hid _ => by
      cases hid
      exact ⟨operationID, op, hrow, hof, hopen⟩)
  exact h₂.write_operation _ hrow rfl hchecked hopen rfl (henv ▸ At.write_self flagged_flag)
    (henv ▸ At.write_self (by rw [hof]))

theorem At.retain {releases : String → Option Release} {predecessor : Option String} {id : String}
    {P : Release → Prop} (h : At releases id P)
    (hkeep : predecessor = some id → ∀ r, releases id = some r → P r →
      P { r with state := .retained, updatedAt := now }) : At (retain now releases predecessor) id P := by
  obtain ⟨r, hrow, hP⟩ := h
  by_cases hid : predecessor = some id
  · exact At.intro (by simp [Protocol.retain, hid, hrow]) (hkeep hid r hrow hP)
  · exact At.intro (by simp [Protocol.retain, hid, hrow]) hP

-- The releases after an activation succeeded.
theorem Activations.releases_of_activate {op' : Operation} {release : Release} (ho : Occupancy v)
    (hp : Pipeline v) (ha : Activations v) (hh : Holds v attemptID attempt slot job)
    (hrow : v.operations operationID = some op) (hof : op.attemptID = attemptID)
    (hid : op.sameIdentity op') (hstate : op'.state = .succeeded)
    (hrelease : v.releases op.releaseID = some release)
    (hpredecessor : ∀ id ∈ op.expectedActiveReleaseID, ∃ r, v.releases id = some r ∧ r.state = .active) :
    Every (update v.operations operationID (some op')) fun _ x =>
      At (update (retain now v.releases op.expectedActiveReleaseID) op.releaseID
        (some { release with state := .active, updatedAt := now })) x.releaseID (OfRelease x) := by
  have hopAttempt := (ha.ofAttempt _ op hrow).of_row (hof ▸ hh.attemptRow)
  have hopJob := (ha.ofJob _ op hrow).of_row (hopAttempt.job ▸ hh.jobRow)
  refine Every.write (fun o x hne hx => ?_) ?_
  · have hofx : At v.releases x.releaseID (OfRelease x) := ha.ofRelease o x hx
    by_cases hsame : x.releaseID = op.releaseID
    · rw [hsame] at hofx ⊢
      refine At.write_self ⟨(hofx.of_row hrelease).environment, fun hopen => ?_, fun _ => .inl rfl⟩
      have hattempt := ha.of_deployment ho hp hh hx hopen (hsame.trans hopJob.release)
      exact absurd (ha.unique o x hx _ op hrow (hattempt.trans hof.symm)) hne
    · refine (At.retain hofx fun hpred r hr hofr => ?_).write_of_ne hsame
      refine ⟨hofr.environment, fun hopen => ?_, fun _ => .inr rfl⟩
      obtain ⟨r', hr', hactive⟩ := hpredecessor x.releaseID hpred
      rw [hr] at hr'
      cases hr'
      simp [hofr.ready hopen] at hactive
  · have hofop := (ha.ofRelease _ op hrow).of_row hrelease
    have hrel : op'.releaseID = op.releaseID := by rw [hid]
    have henv : op'.environmentID = op.environmentID := by rw [hid]
    rw [hrel]
    exact At.write_self ⟨hofop.environment.trans henv.symm, fun hx => by simp [hstate] at hx, fun _ => .inl rfl⟩

theorem Activations.openSlot {environmentID : String} (ha : Activations v) (hnone : v.slots environmentID = none) :
    Activations { v with slots := update v.slots environmentID (some ⟨0, none, none, now⟩) } := by
  refine ha.write_slot _ _ (fun o x hx hstate heq => ?_) (by simp)
  obtain ⟨slot, hslot, -⟩ := ha.ofSlot o x hx hstate
  rw [heq, hnone] at hslot
  cases hslot

theorem Activations.lease {jobID : Nat} {events : List JobEvent} (ho : Occupancy v) (hp : Pipeline v)
    (ha : Activations v) (hjob : v.jobs jobID = some job) (hslot : v.slots job.environmentID = some slot)
    (hunflagged : slot.reconciliationAttemptID = none) (hstate : job.state = .queued ∨ job.state = .retryWait)
    (hfresh : ∀ {id att}, v.attempts id = some att → id < attemptID)
    (hdeployment : v.deployments job.deploymentID = some s)
    (hassigned : (job.attemptCount = 0 ∧ Moves now .assigned s s') ∨ (job.attemptCount ≠ 0 ∧ s' = s)) :
    Activations { v with
      slots := update v.slots job.environmentID (some { slot with
        fence := slot.fence + 1, currentAttemptID := some attemptID, updatedAt := now })
      jobs := update v.jobs jobID (some { job with
        state := .leased, attemptCount := job.attemptCount + 1, updatedAt := now })
      attempts := update v.attempts attemptID (some (leasedAttempt now jobID job slot))
      deployments := update v.deployments job.deploymentID (some s')
      jobEvents := v.jobEvents ++ events } := by
  have hidle : job.state ≠ .leased := by rcases hstate with hs | hs <;> simp [hs]
  have hquiet : s'.status = .activating → s' = s := by
    intro hstatus
    rcases hassigned with ⟨-, hmove⟩ | ⟨-, rfl⟩
    · exact absurd hstatus (hmove.not_activating (by simp))
    · rfl
  have hnew : v.attempts attemptID = none := by
    cases hrow : v.attempts attemptID with
    | none => rfl
    | some att => exact absurd (hfresh hrow) (Nat.lt_irrefl _)
  have h₁ := ha.write_slot job.environmentID
    { slot with fence := slot.fence + 1, currentAttemptID := some attemptID, updatedAt := now }
    (fun o x hx hx' heq => show slot.reconciliationAttemptID = some x.attemptID from
      (ha.ofSlot o x hx hx').of_row (heq ▸ hslot))
    (fun id hid _ => by simp [hunflagged] at hid)
  have h₂ := h₁.write_deployment job.deploymentID s'
    (fun o x hx hopen => (ha.not_idle ho hp hjob hidle o x hx hopen).2)
    (fun hstatus => by rw [hquiet hstatus]; exact hdeployment)
  have h₃ := h₂.write_job { job with
    state := .leased, attemptCount := job.attemptCount + 1, updatedAt := now } hjob rfl (.inl rfl)
  exact (h₃.insert_attempt (leasedAttempt now jobID job slot) hnew).events

theorem Activations.cancel {jobID : Nat} {events : List JobEvent} (ho : Occupancy v) (hp : Pipeline v)
    (ha : Activations v) (hjob : v.jobs jobID = some job) (hstate : job.state = .queued ∨ job.state = .retryWait)
    (hmove : Moves now .cancelled s s') :
    Activations { v with
      jobs := update v.jobs jobID (some { job with
        state := .cancelled, cancelRequestedAt := some now, updatedAt := now })
      deployments := update v.deployments job.deploymentID (some s')
      jobEvents := v.jobEvents ++ events } := by
  have hidle : job.state ≠ .leased := by rcases hstate with hs | hs <;> simp [hs]
  have hfree := ha.not_idle ho hp hjob hidle
  have h₁ := ha.write_job { job with
      state := .cancelled, cancelRequestedAt := some now, updatedAt := now } hjob rfl
    (.inr fun o x hx hopen => (hfree o x hx hopen).1)
  exact (h₁.write_deployment job.deploymentID s' (fun o x hx hopen => (hfree o x hx hopen).2)
    (fun hstatus => absurd hstatus (hmove.not_activating (by simp)))).events

-- A cancellation request is refused while the deployment is activating.
theorem Activations.mark {jobID : Nat} {events : List JobEvent} (ha : Activations v)
    (hjob : v.jobs jobID = some job) (hattempt : v.attempts attemptID = some attempt)
    (hdeployment : v.deployments job.deploymentID = some s) (hquiet : s.status ≠ .activating) :
    Activations { v with
      jobs := update v.jobs jobID (some { job with cancelRequestedAt := some now, updatedAt := now })
      attempts := update v.attempts attemptID (some { attempt with
        cancelDeadlineAt := some (now + cancellationGrace)
        leaseExpiresAt := min attempt.leaseExpiresAt (now + cancellationGrace)
        authorityExpiresAt := min attempt.authorityExpiresAt (now + cancellationGrace) })
      jobEvents := v.jobEvents ++ events } := by
  have hfree : Every v.operations fun _ x => unresolvedActivation x.state = true → x.jobID ≠ jobID := by
    intro o x hx hopen heq
    have hofJob := (ha.ofJob o x hx).of_row (heq ▸ hjob)
    have hdep := ha.ofDeployment o x hx hopen
    rw [hofJob.release] at hdep
    exact hquiet (hdep.of_row hdeployment)
  have h₁ := ha.write_job { job with cancelRequestedAt := some now, updatedAt := now } hjob rfl (.inr hfree)
  exact (h₁.write_attempt { attempt with
      cancelDeadlineAt := some (now + cancellationGrace)
      leaseExpiresAt := min attempt.leaseExpiresAt (now + cancellationGrace)
      authorityExpiresAt := min attempt.authorityExpiresAt (now + cancellationGrace) } hattempt
    fun op hof => ⟨hof.fence, hof.job, hof.environment, hof.leased⟩).events

-- A reportable phase cannot follow `activating`.
theorem Activations.progress {id : String} {phase : Status} (ha : Activations v)
    (hphase : agentReportablePhase phase = true) (hdeployment : v.deployments id = some s)
    (hmove : Moves now phase s s') :
    Activations { v with deployments := update v.deployments id (some s') } := by
  have hquiet : s.status ≠ .activating := by
    intro hstatus
    cases hmove with
    | same hsame =>
        rw [← hsame, hstatus] at hphase
        simp [agentReportablePhase] at hphase
    | step hstep _ _ =>
        rw [hstatus] at hstep
        cases phase <;> simp_all [canTransition, agentReportablePhase]
  refine ha.write_deployment _ _ (fun o x hx hopen heq => ?_) fun hstatus => ?_
  · have hdep := ha.ofDeployment o x hx hopen
    rw [heq] at hdep
    exact hquiet (hdep.of_row hdeployment)
  · rw [hmove.status] at hstatus
    simp [hstatus, agentReportablePhase] at hphase

theorem Activations.authorized {head : RouteHead} {release : Release} {execution : ExecutionSnapshot}
    {image digest : Digest} {text : String} {events : List JobEvent} (ha : Activations v)
    (hnamed : Every v.routeHeads fun _ head => head.activeReleaseID ≠ some "")
    (hh : Holds v attemptID attempt slot job) (hcancel : job.cancelRequestedAt = none)
    (hfirst : ∀ id op, v.operations id = some op → op.attemptID ≠ attemptID)
    (hfresh : v.operations operationID = none) (hmove : Moves now .activating s s')
    (hhead : v.routeHeads attempt.environmentID = some head)
    (hrelease : v.releases job.deploymentID = some release)
    (hready : release.state = .candidate ∨ release.state = .ready)
    (henvironment : release.environmentID = attempt.environmentID)
    (hexecution : v.executions attemptID = some execution)
    (hrender : renderRouteDigest (activationRoute attempt.environmentID head.hostname
      (head.routeRevision + 1) attemptID attempt.fence job.deploymentID execution) = .ok (text, digest)) :
    Activations { v with
      deployments := update v.deployments job.deploymentID (some s')
      releases := update v.releases job.deploymentID (some (readied now image release))
      operations := update v.operations operationID
        (some (authorizedOperation now attemptID attempt job head image digest))
      jobEvents := v.jobEvents ++ events } := by
  have hexpected : head.activeReleaseID.filter (fun id => id != "") = head.activeReleaseID := by
    cases hactive : head.activeReleaseID with
    | none => rfl
    | some id =>
        have hne : id ≠ "" := fun hid => hnamed _ head hhead (by rw [hactive, hid])
        simp [hne]
  have henvironment' : (readied now image release).environmentID = attempt.environmentID := by
    unfold readied
    split <;> exact henvironment
  have hready' : (readied now image release).state = .ready := by
    unfold readied
    split
    · rfl
    · rename_i hne
      exact hready.resolve_left hne
  have h₁ := ha.write_releases (update v.releases job.deploymentID (some (readied now image release)))
    fun o x hx => (ha.ofRelease o x hx).write hrelease fun _ hof => by
      refine ⟨?_, fun _ => hready', fun hs => ?_⟩
      · rw [henvironment', ← henvironment, hof.environment]
      · rcases hof.live hs with hl | hl <;> rcases hready with hr | hr <;> simp [hl] at hr
  have h₂ := h₁.authorize (authorizedOperation now attemptID attempt job head image digest) s'
    ⟨hh.attemptRow, hh.slotRow, hh.jobRow, hh.leased, hh.occupies⟩ hfresh hfirst
    { summary := by simp [authorizedOperation]
      closedAfter := by simp [authorizedOperation]
      closed := by simp [authorizedOperation]
      evidence := by simp [authorizedOperation] } rfl rfl
    ⟨rfl, rfl, rfl, fun _ => hh.leased⟩ ⟨rfl, fun _ => hcancel⟩
    (At.write_self ⟨henvironment', fun _ => hready', by simp [authorizedOperation]⟩)
    (At.intro hhead ⟨by simp [authorizedOperation], fun _ => Nat.le_refl _, fun _ _ => hexpected,
      fun _ _ => At.intro hexecution ⟨text, hrender⟩⟩)
    hmove.status
  exact h₂.events

theorem Activations.evidence {summary : Bytes} {events : List JobEvent} (ha : Activations v)
    (hrow : v.operations operationID = some op) (hstate : op.state = .reconciliationRequired)
    (hchecked : OperationChecked { op with outcomeSummary := summary }) :
    Activations { v with
      operations := update v.operations operationID (some { op with outcomeSummary := summary })
      jobEvents := v.jobEvents ++ events } :=
  (ha.write_operation { op with outcomeSummary := summary } hrow rfl hchecked (by simp [hstate]) hstate
    ((ha.ofHead _ _ hrow).imp fun _ hof => hof.flagged hstate) (ha.ofSlot _ _ hrow hstate)).events

-- The holder's activation is resolved, and the holder closed with it: from then on the environment has
-- no unresolved activation, so its route head may change freely.
theorem Activations.conclude {op' : Operation} {releases : String → Option Release} {head' : RouteHead}
    {attemptState : AttemptState} {failureClass : Option FailureClass} {result : Option (String × Digest)}
    {state : JobState} {slot' : Slot} {events : List JobEvent}
    (ho : Occupancy v) (hp : Pipeline v) (ha : Activations v) (hh : Holds v attemptID attempt slot job)
    (hrow : v.operations operationID = some op) (hof : op.attemptID = attemptID) (hid : op.sameIdentity op')
    (hchecked : OperationChecked op') (hresolved : unresolvedActivation op'.state = false)
    (hreleases : Every (update v.operations operationID (some op')) fun _ x => At releases x.releaseID (OfRelease x))
    (hfree : slot'.currentAttemptID = none) (hstatus : s'.status ≠ .activating) :
    Activations
      { v.close attemptID
          { attempt with
            state := attemptState, closedAt := some now, failureClass := failureClass, result := result }
          slot' { job with state := state, updatedAt := now } s' events with
        operations := update v.operations operationID (some op')
        releases := releases
        routeHeads := update v.routeHeads attempt.environmentID (some head') } := by
  have hattempt : op'.attemptID = attemptID := by rw [hid]; exact hof
  have hothers : Every (update v.operations operationID (some op')) fun o x =>
      unresolvedActivation x.state = true → x.attemptID ≠ attemptID ∧ x.environmentID ≠ attempt.environmentID := by
    refine Every.write (fun o x hne hx hopen => ?_) fun hopen => by simp [hresolved] at hopen
    have hne' : x.attemptID ≠ attemptID := fun heq =>
      hne (ha.unique o x hx _ op hrow (heq.trans hof.symm))
    exact ⟨hne', fun heq => hne' (ha.of_environment ho hh hx hopen heq)⟩
  have h₁ := ha.resolve ho hp hh hrow hof hid hchecked hresolved hreleases hfree hstatus
  have h₂ := h₁.write_head attempt.environmentID head' fun o x hx heq =>
    OfHead.of_resolved (by
      by_contra hopen
      exact (hothers o x hx (by simpa using hopen)).2 heq)
  have h₃ := h₂.write_job { job with state := state, updatedAt := now } hh.jobRow rfl (.inl rfl)
  refine ⟨h₃.checked, fun o x hx => ?_, h₃.ofJob, h₃.ofRelease, h₃.ofHead, h₃.ofDeployment, h₃.ofSlot, h₃.unique,
    h₃.activating, h₃.flagHeld⟩
  refine (h₃.ofAttempt o x hx).write hh.attemptRow fun heq hofx => hofx.close ?_
  by_contra hopen
  exact (hothers o x hx (by simpa using hopen)).1 heq

theorem Activations.rename {environmentID hostname : String} {head : RouteHead} (ha : Activations v)
    (hhead : v.routeHeads environmentID = some head) :
    Activations { v with routeHeads := update v.routeHeads environmentID (some { head with
      hostname := hostname, routeRevision := head.routeRevision + 1, updatedAt := now }) } := by
  refine ha.write_head _ _ fun o x hx heq => ?_
  have hof := (ha.ofHead o x hx).of_row (heq ▸ hhead)
  -- the revision has moved past what any activation expects
  have hlate : unresolvedActivation x.state = true → x.expectedRouteRevision ≠ head.routeRevision + 1 := by
    intro hopen
    have := hof.revision hopen
    omega
  exact ⟨hof.flagged, fun hopen => Nat.le_succ_of_le (hof.revision hopen),
    fun hopen hrev => absurd hrev (hlate hopen), fun hopen hrev => absurd hrev (hlate hopen)⟩

theorem Activations.effect {kind : Kind} (ho : Occupancy v) (hp : Pipeline v) (ha : Activations v)
    (hnamed : Every v.routeHeads fun _ head => head.activeReleaseID ≠ some "") (he : Effect now v kind v') :
    Activations v' := by
  cases he with
  | openSlot hnone => exact ha.openSlot hnone
  | freeze hnone => exact ha.freeze hnone
  | candidate hnone _ _ _ _ _ _ => exact ha.write_releases _ fun o x hx => (ha.ofRelease o x hx).insert hnone
  | lease hjob hslot _ hunflagged hstate _ _ _ hfresh hdeployment hassigned _ _ _ _ =>
      exact ha.lease ho hp hjob hslot hunflagged hstate hfresh hdeployment hassigned
  | renew hholds _ =>
      exact ha.write_attempt _ hholds.attemptRow fun op hof => ⟨hof.fence, hof.job, hof.environment, hof.leased⟩
  | close hholds hresolved _ _ hslot _ hdeployment hends _ _ _ _ =>
      refine ha.close ho hp hholds hresolved ?_ hdeployment hends.quiet
      cases hslot with
      | free => rfl
      | retire => rfl
  | cancel hjob hstate _ _ hmove _ => exact ha.cancel ho hp hjob hstate hmove
  | mark hjob _ _ hattempt _ _ hdeployment hquiet _ _ => exact ha.mark hjob hattempt hdeployment hquiet
  | progress _ hphase hdeployment hmove => exact ha.progress hphase hdeployment hmove
  | authorize hholds _ hcancel _ hfirst hfresh _ hmove hhead _ hrelease hready henvironment hexecution hrender _ _ =>
      exact ha.authorized hnamed hholds hcancel hfirst hfresh hmove hhead hrelease hready henvironment hexecution hrender
  | block hholds hoperation hof hstate hhead hchecked _ _ =>
      exact (ha.block ho hholds hoperation hof hstate hhead hchecked).events
  | evidence hoperation hstate hchecked _ _ => exact ha.evidence hoperation hstate hchecked
  | trace _ _ => exact ha.events
  | activate hholds hoperation hof hstate _ hmove _ _ _ hrelease _ hpredecessor hchecked _ _ =>
      exact ha.conclude ho hp hholds hoperation hof rfl hchecked rfl
        (ha.releases_of_activate ho hp hholds hoperation hof rfl rfl hrelease hpredecessor) rfl
        (hmove.not_activating (by simp))
  | abandon hholds hoperation hof hstate _ hmove _ hchecked _ _ =>
      refine ha.conclude ho hp hholds hoperation hof rfl hchecked rfl ?_ rfl (hmove.not_activating (by simp))
      refine Every.write (fun o x _ hx => ha.ofRelease o x hx) ?_
      exact (ha.ofRelease _ _ hoperation).imp fun r hof => ⟨hof.environment, by simp, by simp⟩
  | clear hslot hflag hresolved _ _ =>
      exact (ha.write_slot _ _ (fun o x hx hstate heq => absurd ⟨o, x, hx, heq, by simp [hstate]⟩ hresolved)
        (by simp)).events
  | createHead hnone _ =>
      refine ha.write_head _ _ fun o x hx heq => ?_
      obtain ⟨head, hhead, -⟩ := ha.ofHead o x hx
      rw [heq, hnone] at hhead
      cases hhead
  | rename hhead _ _ _ _ => exact ha.rename hhead

end

end AutoDeploy.Protocol
