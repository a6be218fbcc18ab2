import AutoDeploy.Protocol.Clock

namespace AutoDeploy.Protocol

open Function Lib Lib.Result Queue Store Deployment

-- The writes the triggers and row checks accept, and the calls that succeed because of it.

-- What the end of a lease needs of the reading and of the draw of the retry delay: the rows it writes carry no later
-- stamp, and a retry lies after the time the job was available. A deployment is written only when its job is over.
structure Endable (now draw : Nat) (attempt : Attempt) (slot : Slot) (job : Job) (s : Snapshot) : Prop where
  slotDated : slot.updatedAt ≤ now
  jobDated : job.updatedAt ≤ now
  retry : job.cancelRequestedAt = none → attempt.attemptNumber < maxAttempts →
    job.availableAt < now + fullJitterDelay attempt.attemptNumber draw
  deployment : job.cancelRequestedAt.isSome ∨ maxAttempts ≤ attempt.attemptNumber → s.updatedAt ≤ now

section

variable {db db' : DB} {now draw attemptID operationID : Nat} {attempt : Attempt} {slot : Slot} {job : Job} {s : Snapshot}
  {op : Operation} {head : RouteHead}

theorem accepted_endedJob {state : JobState} {availableAt : Nat} (hleased : job.state = .leased)
    (hupdated : job.updatedAt ≤ now) (hcount : job.attemptCount ≤ 5) (hstate : state ≠ .leased ∧ state ≠ .queued)
    (hwait : state = .retryWait → job.availableAt < availableAt) :
    validateAgentJobUpdate job (endedJob now job state availableAt) = .ok () := by
  rw [validateAgentJobUpdate_eq_ok]
  refine ⟨rfl, by simp [hleased, JobState.terminal], by simp [hleased, jobTransitionAllowed, endedJob, hstate.2], ?_, ?_,
    fun _ => rfl, fun hs => ?_, fun hs => ?_, fun _ => rfl, hupdated, hcount⟩
  · rintro ⟨-, hs⟩
    exact absurd hs hstate.1
  · rintro ⟨hs, -⟩
    exact absurd hs hstate.1
  · have hs : state = .retryWait := hs
    simpa [endedJob, hs] using hwait hs
  · have hs : state ≠ .retryWait := hs
    simp [endedJob, hs]

theorem checkAttempt_closed {state : AttemptState} {failureClass : Option FailureClass}
    {result : Option (String × Digest)} (hold : checkAttempt attempt = .ok ()) (hstate : state ≠ .leased)
    (hshape : Attempt.shapeAllowed { attempt with
      state := state, closedAt := some now, failureClass := failureClass, result := result } = true) :
    checkAttempt { attempt with
      state := state, closedAt := some now, failureClass := failureClass, result := result } = .ok () := by
  obtain ⟨hnumber, hfence, hexpiry, -, -, hdeadline⟩ := checkAttempt_eq_ok.1 hold
  exact checkAttempt_eq_ok.2 ⟨hnumber, hfence, hexpiry, by simp [hstate], hshape, hdeadline⟩

theorem accepted_closedAttempt {state : AttemptState} {failureClass : Option FailureClass}
    {result : Option (String × Digest)} (hold : checkAttempt attempt = .ok ()) (hleased : attempt.state = .leased)
    (hstate : state ≠ .leased)
    (hshape : Attempt.shapeAllowed { attempt with
      state := state, closedAt := some now, failureClass := failureClass, result := result } = true) :
    validateAgentJobAttemptUpdate db attempt { attempt with
      state := state, closedAt := some now, failureClass := failureClass, result := result } = .ok () := by
  have hopen := (checkAttempt_eq_ok.1 hold).2.2.2.2.1
  simp only [Attempt.shapeAllowed, hleased, Bool.and_eq_true, Option.isNone_iff_eq_none] at hopen
  simp only [validateAgentJobAttemptUpdate, bind_eq_ok, require_eq_ok, exists_const]
  refine ⟨rfl, hleased, Nat.le_refl _, by simp [hopen.2], by simp [hopen.1], by simp, ?_,
    checkAttempt_closed hold hstate hshape⟩
  rintro ⟨hnone, hsome⟩
  simp [hnone] at hsome

theorem accepted_slot {slot' : Slot} (hfence : slot.fence ≤ slot'.fence) (hupdated : slot.updatedAt ≤ slot'.updatedAt)
    (hcurrent : ∀ id ∈ slot'.currentAttemptID, db.attempts.contains id)
    (hflag : ∀ id ∈ slot'.reconciliationAttemptID, db.attempts.contains id) :
    validateEnvironmentSlotUpdate db slot slot' = .ok () := by
  simp only [validateEnvironmentSlotUpdate, bind_eq_ok, require_eq_ok, exists_const]
  exact ⟨hfence, hupdated, hcurrent, hflag⟩

theorem transitionDeployment_accepted {id : String} {target : Status} (hrow : db.deployments.get? id = some s)
    (hstored : DeploymentStored id s) (hstep : s.status = target ∨ canTransition s.status target = true)
    (hpositive : 0 < now) (hupdated : s.updatedAt ≤ now) :
    ∃ deployments, transitionDeployment db id target now = .ok (setDeployments db deployments) := by
  by_cases hsame : s.status = target
  · subst hsame
    exact ⟨db.deployments, transitionDeployment_of_same hrow hstored⟩
  · have hstep := hstep.resolve_left hsame
    exact ⟨_, transitionDeployment_of_step hrow hstored hstep (by omega) hupdated⟩

theorem transitionDeployment_succeeds {id : String} {target : Status} (hrow : db.deployments.get? id = some s)
    (hstored : DeploymentStored id s) (hstep : s.status = target ∨ canTransition s.status target = true)
    (hpositive : 0 < now) (hupdated : s.updatedAt ≤ now) : Succeeds (transitionDeployment db id target now) := by
  obtain ⟨deployments, hmove⟩ := transitionDeployment_accepted hrow hstored hstep hpositive hupdated
  exact ⟨_, hmove⟩

theorem canTransition_failed {status : Status} (h : running status = true) : canTransition status .failed = true := by
  cases status <;> simp_all [running, canTransition]

theorem canTransition_cancelled {status : Status} (h : running status = true) (hquiet : status ≠ .activating) :
    canTransition status .cancelled = true := by
  cases status <;> simp_all [running, canTransition]

-- The deployment of a running job whose attempt holds no unresolved activation is not activating.
theorem Inv.quiet (hinv : Inv (view db)) (hh : Holds (view db) attemptID attempt slot job)
    (hresolved : ¬ AttemptUnresolved (view db) attemptID) (hs : db.deployments.get? job.deploymentID = some s) :
    s.status ≠ .activating := by
  intro hactivating
  obtain ⟨operationID, op, hop, hrelease, hopen⟩ := hinv.activations.activating _ s hs hactivating
  exact hresolved ⟨operationID, op, hop,
    hinv.activations.of_deployment hinv.occupancy hinv.pipeline hh hop hopen hrelease, hopen⟩

theorem closedJobState_ne (cancelRequested : Bool) (attemptNumber : Nat) :
    closedJobState cancelRequested attemptNumber ≠ .leased ∧ closedJobState cancelRequested attemptNumber ≠ .queued := by
  rcases closedJobState_cases cancelRequested attemptNumber with ⟨-, h⟩ | ⟨-, h⟩ | ⟨-, h⟩ <;> simp [h]

-- The end of a lease that holds no unresolved activation goes through.
theorem closeAttemptOrdinary_accepted (hinv : Inv (view db)) (hpositive : 0 < now)
    (hh : Holds (view db) attemptID attempt slot job) (hs : db.deployments.get? job.deploymentID = some s)
    (hend : Endable now draw attempt slot job s) (hresolved : ¬ AttemptUnresolved (view db) attemptID) :
    Succeeds (closeAttemptOrdinary now draw db attempt.jobID attemptID attempt.environmentID attempt.attemptNumber
      job.deploymentID job.cancelRequestedAt.isSome) := by
  have hleased := ((hinv.occupancy.holds_fitsJob hh).leased hh.leased).1
  have hchecked := hinv.occupancy.checked attemptID attempt hh.attemptRow
  have hrunning := ((hinv.pipeline.fitsDeployment _ _ hh.jobRow).of_row hs).running (.inl hleased)
  have hquiet := hinv.quiet hh hresolved hs
  unfold closeAttemptOrdinary
  refine Succeeds.bind (during_eq_ok.2 ((updateAttempt_iff hh.attemptRow rfl).2 ⟨?_, rfl, rfl⟩)) ?_
  · have hshape := (checkAttempt_eq_ok.1 hchecked).2.2.2.2.1
    simp only [Attempt.shapeAllowed, hh.leased, Bool.and_eq_true] at hshape
    refine accepted_closedAttempt hchecked hh.leased (by split <;> simp) ?_
    split
    · exact hshape.1
    · simpa [Attempt.shapeAllowed] using hshape
  refine Succeeds.bind (during_eq_ok.2 ((updateSlot_iff (by exact hh.slotRow) (by rfl)).2 ⟨?_, rfl, rfl⟩)) ?_
  · exact accepted_slot (Nat.le_succ _) hend.slotDated (by simp)
      (by simp [putAttempt, Table.contains])
  refine Succeeds.bind ((endJob_iff (by exact hh.jobRow) hleased).2 ⟨?_, rfl⟩) ?_
  · refine accepted_endedJob hleased hend.jobDated (hinv.occupancy.count _ job hh.jobRow)
      (closedJobState_ne _ _) fun hwait => ?_
    have hnone : job.cancelRequestedAt = none := by
      cases hmark : job.cancelRequestedAt with
      | none => rfl
      | some t => simp [closedJobState, hmark] at hwait
    have hcount : attempt.attemptNumber < maxAttempts := by
      by_contra hlast
      simp [closedJobState, hnone, Nat.le_of_not_lt hlast] at hwait
    exact hend.retry hnone hcount
  -- the deployment ends with its job, or waits with it
  rcases closedJobState_cases job.cancelRequestedAt.isSome attempt.attemptNumber with
    ⟨hmark, hstate⟩ | ⟨hmark, hstate⟩ | ⟨-, hstate⟩
  · simp only [hstate, if_true]
    exact .bind_all (transitionDeployment_succeeds (by exact hs) (hinv.pipeline.stored _ s hs)
      (.inr (canTransition_cancelled hrunning hquiet)) hpositive (hend.deployment (.inl hmark))) fun _ _ => .pure _
  · have hlast : maxAttempts ≤ attempt.attemptNumber := by
      by_contra hmore
      simp [closedJobState, hmark, hmore] at hstate
    simp only [hstate, reduceCtorEq, if_false, if_true]
    exact .bind_all (transitionDeployment_succeeds (by exact hs) (hinv.pipeline.stored _ s hs)
      (.inr (canTransition_failed hrunning)) hpositive (hend.deployment (.inr hlast))) fun _ _ => .pure _
  · simp only [hstate, reduceCtorEq, if_false]
    exact Succeeds.bind rfl (.pure _)

theorem accepted_operation {new : Operation} (hidentity : op.sameIdentity new) (hstate : op.state = .switchAuthorized)
    (hnew : new.state = .succeeded ∨ new.state = .reconciliationRequired) (hchecked : OperationChecked new)
    (hunique : ∀ id other, db.operations.get? id = some other → unresolvedActivation other.state = true →
      other.environmentID = new.environmentID → id = operationID) :
    validateReleaseOperationUpdate db operationID op new = .ok () := by
  simp only [validateReleaseOperationUpdate, hstate, reduceCtorEq, if_false, checkOperation, bind_eq_ok, require_eq_ok,
    exists_const]
  refine ⟨hidentity, trivial, hnew, hchecked.summary, hchecked.closedAfter, hchecked.closed, fun _ => ?_⟩
  refine Table.any_eq_false_of fun id other hrow => ?_
  by_cases hid : id = operationID
  · simp [hid]
  · by_cases hopen : unresolvedActivation other.state = true
    · have henvironment : other.environmentID ≠ new.environmentID := fun hsame => hid (hunique id other hrow hopen hsame)
      simp [henvironment]
    · simp [hopen]

-- The flag of a route head can always be set.
theorem flag_accepted {environmentID : String} (hrow : db.routeHeads.get? environmentID = some head)
    (hhostname : ∀ id other, db.routeHeads.get? id = some other → other.hostname = head.hostname → id = environmentID)
    (hactive : ∀ id ∈ head.activeReleaseID, At db.releases.get? id fun release => release.environmentID = environmentID)
    (hcreated : head.createdAt ≤ max head.updatedAt now) :
    Succeeds (if (some head).any (fun h => !h.reconciliationRequired) then flagRouteHead now db environmentID
      else pure db) := by
  split
  · rename_i hclear
    simp only [Option.any_some, Bool.not_eq_true'] at hclear
    refine Succeeds.bind (during_eq_ok.2 ((updateRouteHead_iff hrow (by simp [hclear])).2 ⟨?_, rfl, rfl⟩)) ?_
    · refine validateRouteHeadUpdate_eq_ok.2 ⟨?_, Nat.le_max_left _ _, fun _ => rfl, hcreated, ?_, fun id hid => ?_⟩
      · simp [hclear]
      · refine Table.any_eq_false_of fun id other hother => ?_
        by_cases hid : id = environmentID
        · simp [hid]
        · have hhost : other.hostname ≠ head.hostname := fun hsame => hid (hhostname id other hother hsame)
          simp [hhost]
      · obtain ⟨release, hrelease, henvironment⟩ := hactive id hid
        simp [hrelease, henvironment]
    · exact Succeeds.bind (require_pos rfl) (.pure _)
  · exact .pure _

-- So the block of an open activation always goes through.
theorem block_accepted {summary : Bytes} (hinv : Inv (view db))
    (hopen : Open (view db) attemptID operationID attempt slot job op) (hstate : op.state = .switchAuthorized)
    (hhead : db.routeHeads.get? attempt.environmentID = some head) (hcreated : head.createdAt ≤ max head.updatedAt now)
    (hslot : slot.updatedAt ≤ now) (hoperation : op.createdAt ≤ now)
    (hsummary : summary ≠ [] ∧ summary.length ≤ maxOutcomeSummaryBytes ∧ summary.any controlByte = false) :
    Succeeds (blockActivationForReconciliation now db attempt.jobID attemptID operationID attempt.environmentID
      summary) := by
  have hrow : db.operations.get? operationID = some op := hopen.operationRow
  simp only [blockActivationForReconciliation, hhead]
  refine Succeeds.bind (during_eq_ok.2 ((updateOperation_iff hrow (by simp [hstate])).2 ⟨?_, rfl, rfl⟩)) ?_
  · refine accepted_operation rfl hstate (.inr rfl) ⟨hsummary.2, ?_, by simp, fun _ => hsummary.1⟩ ?_
    · simpa using hoperation
    · intro id other hother hunresolved hsame
      exact hinv.activations.unresolved_unique hinv.occupancy hrow hopen.unresolved hother hunresolved hsame
  refine Succeeds.bind (require_pos rfl) ?_
  refine .bind_all (flag_accepted (by exact hhead) ?_ ?_ hcreated) fun db₁ hflag => ?_
  · intro id other hother hsame
    exact hinv.routes.hostnames id other hother _ head hhead hsame
  · intro id hid
    exact (hinv.routes.headActive _ head hhead id hid).imp fun _ h => h.2
  obtain ⟨heads, rfl, -⟩ := flag_eq_ok hflag (by exact hhead)
  refine Succeeds.bind (during_eq_ok.2 ((updateSlot_iff (by exact hopen.holds.slotRow) (by rfl)).2 ⟨?_, rfl, rfl⟩)) ?_
  · have hcontains : db.attempts.contains attemptID = true := by
      have hattempt : db.attempts.get? attemptID = some attempt := hopen.holds.attemptRow
      simp [Table.contains, hattempt]
    refine accepted_slot (Nat.le_refl _) hslot (fun id hid => ?_) fun id hid => ?_
    · have hid : slot.currentAttemptID = some id := hid
      rw [hopen.holds.occupies] at hid
      cases hid
      exact hcontains
    · cases hid
      exact hcontains
  exact Succeeds.bind (require_pos rfl) (.pure _)

theorem authorityEndSummary_checked : activationBlockedByAuthorityEndSummary ≠ [] ∧
    activationBlockedByAuthorityEndSummary.length ≤ maxOutcomeSummaryBytes ∧
    activationBlockedByAuthorityEndSummary.any controlByte = false := by
  decide +kernel

-- What a block needs of a clock reading.
structure Blockable (now : Nat) (v : View) (attemptID : Nat) (environmentID : String) : Prop where
  operations : Every v.operations fun _ op => op.attemptID = attemptID → op.createdAt ≤ now
  head : ∀ head, v.routeHeads environmentID = some head → head.createdAt ≤ max head.updatedAt now

theorem divert_accepted (hinv : Inv (view db)) (hh : Holds (view db) attemptID attempt slot job)
    (hslot : Every (view db).operations fun _ op => op.attemptID = attemptID → op.state = .switchAuthorized →
      slot.updatedAt ≤ now)
    (hblockable : Blockable now (view db) attemptID attempt.environmentID) :
    Succeeds (divertUnresolvedActivation now db attempt.jobID attemptID attempt.environmentID) := by
  unfold divertUnresolvedActivation
  split
  · exact .pure _
  · rename_i operationID op hfind
    obtain ⟨hop, hof⟩ := Table.find?_some hfind
    simp only [Bool.and_eq_true, beq_iff_eq] at hof
    have hopen : Open (view db) attemptID operationID attempt slot job op := ⟨hh, hop, hof.1.1, hof.2⟩
    obtain ⟨head, hhead, -⟩ := hopen.head hinv
    split
    · exact .pure _
    · rename_i hstate
      simp only [ne_eq, not_not] at hstate
      refine .bind_all (block_accepted hinv hopen hstate hhead (hblockable.head head hhead)
        (hslot operationID op hop hof.1.1 hstate) ?_ authorityEndSummary_checked) fun _ _ => .pure _
      exact hblockable.operations operationID op hop hof.1.1

-- A lease whose authority has ended can be ended, one way or the other.
theorem closeExpiredOrRevokedAttempt_accepted (hinv : Inv (view db)) (hpositive : 0 < now)
    (hh : Holds (view db) attemptID attempt slot job) (hs : db.deployments.get? job.deploymentID = some s)
    (hend : ¬ AttemptUnresolved (view db) attemptID → Endable now draw attempt slot job s)
    (hslot : Every (view db).operations fun _ op => op.attemptID = attemptID → op.state = .switchAuthorized →
      slot.updatedAt ≤ now)
    (hblockable : Blockable now (view db) attemptID attempt.environmentID) :
    Succeeds (closeExpiredOrRevokedAttempt now draw db attempt.jobID attemptID attempt.environmentID
      attempt.attemptNumber job.deploymentID job.cancelRequestedAt.isSome) := by
  refine .bind_all (divert_accepted hinv hh hslot hblockable) fun ⟨db₁, diverted⟩ hdivert => ?_
  rcases divert_cases hinv hh hdivert with ⟨hnot, hsame, hresolved⟩ | ⟨hdiverted, -⟩
  · simp only [hnot, hsame, Bool.false_eq_true, if_false]
    exact .bind_all (closeAttemptOrdinary_accepted hinv hpositive hh hs (hend hresolved) hresolved) fun _ _ => .pure _
  · simp only [hdiverted, if_true]
    exact .pure _

end

end AutoDeploy.Protocol
