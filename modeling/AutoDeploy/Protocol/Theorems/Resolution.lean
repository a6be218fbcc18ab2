import AutoDeploy.Protocol.Theorems.Discovery
import AutoDeploy.Protocol.Theorems.Expiry

namespace AutoDeploy.Protocol

open Function Lib Lib.Result Queue Store Deployment

-- The owner of a blocked environment can always declare what became of its activation.

-- A blocked activation and the rows it holds.
structure BlockedRows (v : View) (operationID : Nat) (op : Operation) (attempt : Attempt) (slot : Slot) (job : Job)
    (s : Snapshot) (head : RouteHead) : Prop where
  opens : Open v op.attemptID operationID attempt slot job op
  state : op.state = .reconciliationRequired
  flags : slot.reconciliationAttemptID = some op.attemptID
  deploymentRow : v.deployments job.deploymentID = some s
  activating : s.status = .activating
  headRow : v.routeHeads attempt.environmentID = some head
  headFlagged : head.reconciliationRequired = true

section

variable {db db' : DB} {now operationID : Nat} {op : Operation} {attempt : Attempt} {slot : Slot} {job : Job} {s : Snapshot}
  {head : RouteHead} {summary : Bytes}

theorem blocked_rows (hinv : Inv (view db)) (hop : db.operations.get? operationID = some op)
    (hstate : op.state = .reconciliationRequired) :
    ∃ attempt slot job s head, BlockedRows (view db) operationID op attempt slot job s head := by
  have hunresolved : unresolvedActivation op.state = true := by simp [hstate]
  obtain ⟨attempt, slot, job, hh, hof, hjob⟩ := hinv.activations.holds hinv.occupancy hop hunresolved
  have hopen : Open (view db) op.attemptID operationID attempt slot job op := ⟨hh, hop, rfl, hunresolved⟩
  obtain ⟨head, hhead, hofHead⟩ := hopen.head hinv
  obtain ⟨s, hs, hactivating⟩ := hinv.activations.ofDeployment operationID op hop hunresolved
  refine ⟨attempt, slot, job, s, head, hopen, hstate, ?_, hjob.release ▸ hs, hactivating, hhead, hofHead.flagged hstate⟩
  exact (hinv.activations.ofSlot operationID op hop hstate).of_row (hof.environment ▸ hh.slotRow)

theorem declaredSummary_checked {existing : Bytes} (outcome : ActivationOutcome)
    (h : existing.length ≤ maxOutcomeSummaryBytes ∧ existing.any controlByte = false) :
    (declaredSummary existing outcome).length ≤ maxOutcomeSummaryBytes ∧
      (declaredSummary existing outcome).any controlByte = false := by
  have hmarker : (Bytes.ofString ("declared " ++ outcome.text)).any controlByte = false := by
    cases outcome <;> decide +kernel
  have hseparator : lateReportSeparator.any controlByte = false := by decide +kernel
  have hentry : (if existing = [] then Bytes.ofString ("declared " ++ outcome.text)
      else lateReportSeparator ++ Bytes.ofString ("declared " ++ outcome.text)).any controlByte = false := by
    split
    · exact hmarker
    · rw [List.any_append, hseparator, hmarker]
      rfl
  simp only [declaredSummary]
  by_cases hfull : maxOutcomeSummaryBytes < existing.length + (if existing = [] then
      Bytes.ofString ("declared " ++ outcome.text)
      else lateReportSeparator ++ Bytes.ofString ("declared " ++ outcome.text)).length
  · rw [if_pos hfull]
    exact h
  · rw [if_neg hfull, List.length_append, List.any_append, h.2, hentry]
    exact ⟨Nat.le_of_not_lt hfull, rfl⟩

-- A blocked operation may close either way, with its closing time unchanged.
theorem accepted_resolution {state : OperationState} (hold : OperationChecked op) (hstate : op.state = .reconciliationRequired)
    (hnew : state = .succeeded ∨ state = .failed)
    (hsummary : summary.length ≤ maxOutcomeSummaryBytes ∧ summary.any controlByte = false) :
    validateReleaseOperationUpdate db operationID op { op with
      state := state, closedAt := some (op.closedAt.getD now), outcomeSummary := summary } = .ok () := by
  have hclosed : some (op.closedAt.getD now) = op.closedAt := by
    cases hclosedAt : op.closedAt with
    | none =>
        have hopen := hold.closed.2 hclosedAt
        simp [hstate] at hopen
    | some t => rfl
  simp only [validateReleaseOperationUpdate, hstate, if_true, checkOperation, bind_eq_ok, require_eq_ok, exists_const]
  refine ⟨rfl, ?_, hclosed, hsummary, ?_, ?_, ?_⟩
  · exact hnew.imp_right .inl
  · rw [hclosed]
    exact hold.closedAfter
  · rcases hnew with h | h <;> simp [h]
  · rcases hnew with h | h <;> simp [h]

theorem unflag_accepted {environmentID : String} (hrow : db.routeHeads.get? environmentID = some head)
    (hflagged : head.reconciliationRequired = true)
    (hhostname : ∀ id other, db.routeHeads.get? id = some other → other.hostname = head.hostname → id = environmentID)
    (hactive : ∀ id ∈ head.activeReleaseID, At db.releases.get? id fun release => release.environmentID = environmentID)
    (hcreated : head.createdAt ≤ max head.updatedAt now) :
    Succeeds (unflagRouteHead now db environmentID) := by
  refine Succeeds.bind (during_eq_ok.2 ((updateRouteHead_iff hrow hflagged).2 ⟨?_, rfl, rfl⟩)) ?_
  · refine validateRouteHeadUpdate_eq_ok.2 ⟨?_, Nat.le_max_left _ _, fun _ => rfl, hcreated, ?_, fun id hid => ?_⟩
    · simp [hflagged]
    · refine Table.any_eq_false_of fun id other hother => ?_
      by_cases hid : id = environmentID
      · simp [hid]
      · have hhost : other.hostname ≠ head.hostname := fun hsame => hid (hhostname id other hother hsame)
        simp [hhost]
    · obtain ⟨release, hrelease, henvironment⟩ := hactive id hid
      simp [hrelease, henvironment]
  · exact Succeeds.bind (require_pos rfl) (.pure _)

theorem unflagRouteHead_eq_ok {environmentID : String} (h : unflagRouteHead now db environmentID = .ok db')
    (hrow : db.routeHeads.get? environmentID = some head) (hflagged : head.reconciliationRequired = true) :
    ∃ heads, db' = setRouteHeads db heads ∧
      heads.get? = update db.routeHeads.get? environmentID (some (unflagged now head)) := by
  refine unflag_eq_ok ?_ hrow
  simpa [hflagged] using h

theorem resolveNotActivated_accepted (h : Timed now db) (hb : BlockedRows (view db) operationID op attempt slot job s head)
    (hsummary : summary.length ≤ maxOutcomeSummaryBytes ∧ summary.any controlByte = false) :
    Succeeds (resolveNotActivated now db attempt.jobID op.attemptID operationID attempt.environmentID job.deploymentID
      true summary) := by
  have hinv := h.sound.inv
  have hh := hb.opens.holds
  have hhead : db.routeHeads.get? attempt.environmentID = some head := hb.headRow
  have hleased := ((hinv.occupancy.holds_fitsJob hh).leased hh.leased).1
  have hchecked := hinv.occupancy.checked op.attemptID attempt hh.attemptRow
  obtain ⟨deployments, hmove⟩ : ∃ deployments, transitionDeployment db job.deploymentID .failed now =
      .ok (setDeployments db deployments) :=
    transitionDeployment_accepted hb.deploymentRow (hinv.pipeline.stored _ s hb.deploymentRow)
      (.inr (by rw [hb.activating]; rfl)) h.positive (h.clocked.deployments _ s hb.deploymentRow)
  unfold resolveNotActivated
  refine .bind hmove ?_
  simp only [if_true]
  refine .bind_all (unflag_accepted (by exact hhead) hb.headFlagged ?_ ?_ ?_) fun db₂ hunflag => ?_
  · intro id other hother hsame
    exact hinv.routes.hostnames id other hother _ head hhead hsame
  · intro id hid
    exact (hinv.routes.headActive _ head hhead id hid).imp fun _ h => h.2
  · exact (h.clocked.routeHeads _ head hhead).1.trans (Nat.le_max_right _ _)
  obtain ⟨heads, rfl, -⟩ := unflagRouteHead_eq_ok hunflag (by exact hhead) hb.headFlagged
  refine .bind (during_eq_ok.2 ((updateOperation_iff (by exact hb.opens.operationRow) (by simp [hb.state])).2
    ⟨accepted_resolution (hinv.activations.checked operationID op hb.opens.operationRow).1 hb.state (.inr rfl) hsummary,
      rfl, rfl⟩)) ?_
  refine .bind (require_pos rfl) ?_
  refine .bind (during_eq_ok.2 ((updateAttempt_iff (by exact hh.attemptRow) (by simp [hh.leased])).2 ⟨?_, rfl, rfl⟩)) ?_
  · have hshape := (checkAttempt_eq_ok.1 hchecked).2.2.2.2.1
    simp only [Attempt.shapeAllowed, hh.leased, Bool.and_eq_true] at hshape
    exact accepted_closedAttempt hchecked hh.leased (by simp) (by simpa [Attempt.shapeAllowed] using hshape)
  refine .bind (require_pos rfl) ?_
  refine .bind (during_eq_ok.2 ((updateSlot_iff (by exact hh.slotRow) (by simp [hh.occupies, hb.flags])).2 ⟨?_, rfl, rfl⟩)) ?_
  · exact accepted_slot (Nat.le_refl _) (h.clocked.slots _ slot hh.slotRow) (by simp) (by simp)
  refine .bind (require_pos rfl) ?_
  refine .bind (during_eq_ok.2 ((updateJob_iff (by exact hh.jobRow) (by simp [hleased])).2 ⟨?_, rfl, rfl⟩)) ?_
  · show validateAgentJobUpdate job (endedJob now job .failed job.availableAt) = .ok ()
    exact accepted_endedJob hleased (h.clocked.jobs _ job hh.jobRow) (hinv.occupancy.count _ job hh.jobRow) (by simp)
      (by simp)
  exact .bind (require_pos rfl) (.pure _)

-- The release that is live hands over to the candidate.
theorem accepted_release {id : String} {release : Release} {state : ReleaseState} (hcreated : release.createdAt ≤ now)
    (hupdated : release.updatedAt ≤ now) (hallowed : releaseTransitionAllowed release.state state = true)
    (hold : release.state = .ready ∨ release.state = .active) (hnew : state ≠ .ready)
    (hfree : state = .active → ∀ k r, db.releases.get? k = some r → r.environmentID = release.environmentID →
      r.state = .active → k = id) :
    validateReleaseUpdate db id release { release with state := state, updatedAt := now } = .ok () := by
  simp only [validateReleaseUpdate, bind_eq_ok, require_eq_ok, exists_const]
  refine ⟨rfl, by simp, fun hready => absurd hready hnew, ?_, fun _ => hallowed, hupdated, hcreated, fun hactive => ?_⟩
  · rcases hold with h | h <;> simp [h]
  · refine Table.any_eq_false_of fun k r hrow => ?_
    by_cases hk : k = id
    · simp [hk]
    · by_cases hr : r.environmentID = release.environmentID ∧ r.state = .active
      · exact absurd (hfree hactive k r hrow hr.1 hr.2) hk
      · simp only [not_and] at hr
        by_cases henvironment : r.environmentID = release.environmentID
        · simp [hr henvironment]
        · simp [henvironment]

theorem retainPredecessor_accepted {predecessor : Option String} (h : ∀ id ∈ predecessor, At db.releases.get? id fun release =>
    release.state = .active ∧ release.createdAt ≤ now ∧ release.updatedAt ≤ now) :
    Succeeds (retainPredecessor now db predecessor) := by
  cases predecessor with
  | none => exact .pure _
  | some id =>
      obtain ⟨release, hrow, hstate, hcreated, hupdated⟩ := h id rfl
      refine .bind (require_pos (by simp [hrow, hstate])) ?_
      refine .bind (during_eq_ok.2 ((updateRelease_iff hrow (by simp [hstate])).2 ⟨?_, rfl, rfl⟩)) (.pure _)
      exact accepted_release hcreated hupdated (by simp [hstate, releaseTransitionAllowed]) (.inr hstate) (by simp) (by simp)

-- The candidate of a blocked activation is ready, and once its predecessor is retained no other release is live.
theorem retained_free {releases : Table String Release} {id : String} {release : Release} (hinv : Inv (view db))
    (hhead : db.routeHeads.get? attempt.environmentID = some head)
    (hreleases : releases.get? = retain now db.releases.get? head.activeReleaseID)
    (hrow : releases.get? id = some release) (henvironment : release.environmentID = attempt.environmentID) :
    release.state ≠ .active := by
  intro hactive
  rw [hreleases] at hrow
  unfold retain at hrow
  split at hrow
  · obtain ⟨old, -, rfl⟩ := Option.map_eq_some_iff.1 hrow
    cases hactive
  · rename_i hother
    have hlive := (hinv.routes.activeHead id release hrow hactive).of_row (henvironment ▸ hhead)
    exact hother hlive

-- The route has moved since the activation was authorized.
theorem finalize_moved {digest : Digest} (h : Timed now db) (hb : BlockedRows (view db) operationID op attempt slot job s head)
    (hmoved : ¬ (head.routeRevision = op.expectedRouteRevision ∧ head.activeReleaseID = op.expectedActiveReleaseID)) :
    finalizeActivationSucceeded now db (openInput op.attemptID operationID attempt job op digest summary) =
      .error (.sentinel .routeMoved) := by
  have hhead : db.routeHeads.get? attempt.environmentID = some head := hb.headRow
  obtain ⟨deployments, hmove⟩ : ∃ deployments, transitionDeployment db job.deploymentID .healthy now =
      .ok (setDeployments db deployments) :=
    transitionDeployment_accepted hb.deploymentRow (h.sound.inv.pipeline.stored _ s hb.deploymentRow)
      (.inr (by rw [hb.activating]; rfl)) h.positive (h.clocked.deployments _ s hb.deploymentRow)
  have hfrom : validateFinalizeFromState op.state = .ok () := require_pos (.inr hb.state)
  have hfound : (setDeployments db deployments).routeHeads.get? attempt.environmentID = some head := hhead
  simp only [finalizeActivationSucceeded, hfrom, hmove, hfound, ok_bind, found_some, require_neg hmoved, error_bind]

theorem finalize_accepted {digest : Digest} (h : Timed now db) (hb : BlockedRows (view db) operationID op attempt slot job s head)
    (hrevision : head.routeRevision = op.expectedRouteRevision) (hactive : head.activeReleaseID = op.expectedActiveReleaseID)
    (hsummary : summary.length ≤ maxOutcomeSummaryBytes ∧ summary.any controlByte = false) :
    Succeeds (finalizeActivationSucceeded now db (openInput op.attemptID operationID attempt job op digest summary)) := by
  have hinv := h.sound.inv
  have hh := hb.opens.holds
  have hhead : db.routeHeads.get? attempt.environmentID = some head := hb.headRow
  have hleased := ((hinv.occupancy.holds_fitsJob hh).leased hh.leased).1
  have hchecked := hinv.occupancy.checked op.attemptID attempt hh.attemptRow
  have henvironment := (hb.opens.ofAttemptRow hinv).environment
  obtain ⟨release, hrelease, hof⟩ := hinv.activations.ofRelease operationID op hb.opens.operationRow
  have hrelease : db.releases.get? op.releaseID = some release := hrelease
  have hready := hof.ready hb.opens.unresolved
  obtain ⟨hcreated, hupdated⟩ := h.clocked.releases op.releaseID release hrelease
  obtain ⟨deployments, hmove⟩ : ∃ deployments, transitionDeployment db job.deploymentID .healthy now =
      .ok (setDeployments db deployments) :=
    transitionDeployment_accepted hb.deploymentRow (hinv.pipeline.stored _ s hb.deploymentRow)
      (.inr (by rw [hb.activating]; rfl)) h.positive (h.clocked.deployments _ s hb.deploymentRow)
  unfold finalizeActivationSucceeded
  refine .bind (require_pos (.inr hb.state)) (.bind hmove ?_)
  refine .bind (found_eq_ok.2 (by exact hhead)) (.bind (require_pos ⟨hrevision, hactive⟩) ?_)
  refine .bind (require_pos (by simp [hb.state])) (.bind (require_pos ?_) ?_)
  · show (db.releases.get? op.releaseID).any (fun r => r.state == .ready) = true
    simp [hrelease, hready]
  rw [show (openInput op.attemptID operationID attempt job op digest summary).expectedActiveReleaseID =
    head.activeReleaseID from hactive.symm]
  refine .bind_all (retainPredecessor_accepted fun id hid => ?_) fun db₂ hretain => ?_
  · obtain ⟨predecessor, hrow, hstate, -⟩ := hinv.routes.headActive _ head hhead id hid
    exact ⟨predecessor, hrow, hstate, h.clocked.releases id predecessor hrow⟩
  obtain ⟨hpredecessor, releases, rfl, hreleases⟩ := retainPredecessor_eq_ok hretain
  have hcandidate : releases.get? op.releaseID = some release := by
    have hne : head.activeReleaseID ≠ some op.releaseID := by
      intro hsame
      obtain ⟨predecessor, hrow, hstate⟩ := hpredecessor op.releaseID hsame
      cases hrelease.symm.trans hrow
      cases hready.symm.trans hstate
    have hkept : (setDeployments db deployments).releases.get? op.releaseID = some release := hrelease
    rw [hreleases]
    simpa [retain, hne] using hkept
  refine .bind (during_eq_ok.2 ((updateRelease_iff (by exact hcandidate) (by simp [hready])).2 ⟨?_, rfl, rfl⟩)) ?_
  · refine accepted_release hcreated hupdated (by simp [hready, releaseTransitionAllowed]) (.inl hready) (by simp)
      fun _ k r hrow hsame hlive => ?_
    have hin : r.environmentID = attempt.environmentID := hsame.trans (hof.environment.trans henvironment)
    exact absurd hlive (retained_free hinv hhead hreleases hrow hin)
  refine .bind (during_eq_ok.2 ((updateRouteHead_iff (by exact hhead) (by simp [hrevision])).2 ⟨?_, rfl, rfl⟩)) ?_
  · refine validateRouteHeadUpdate_eq_ok.2 ⟨by simp, Nat.le_max_left _ _, fun _ => rfl, ?_, ?_, fun id hid => ?_⟩
    · exact (h.clocked.routeHeads _ head hhead).1.trans (Nat.le_max_right _ _)
    · refine Table.any_eq_false_of fun id other hother => ?_
      by_cases hid : id = attempt.environmentID
      · simp [hid]
      · have hhost : other.hostname ≠ head.hostname := fun hsame =>
          hid (hinv.routes.hostnames id other hother _ head hhead hsame)
        simp [hhost]
    · cases hid
      simp [putRelease, hof.environment, henvironment]
  refine .bind (require_pos rfl) ?_
  refine .bind (during_eq_ok.2 ((updateOperation_iff (by exact hb.opens.operationRow) (by simp)).2
    ⟨accepted_resolution (hinv.activations.checked operationID op hb.opens.operationRow).1 hb.state (.inl rfl) hsummary,
      rfl, rfl⟩)) ?_
  refine .bind (require_pos rfl) ?_
  refine .bind (during_eq_ok.2 ((updateAttempt_iff (by exact hh.attemptRow) (by simp [hh.leased])).2 ⟨?_, rfl, rfl⟩)) ?_
  · exact accepted_closedAttempt hchecked hh.leased (by simp) (by simp [Attempt.shapeAllowed])
  refine .bind (require_pos rfl) ?_
  refine .bind (during_eq_ok.2 ((updateSlot_iff (by exact hh.slotRow) (by simp [hh.occupies, hb.flags])).2 ⟨?_, rfl, rfl⟩)) ?_
  · exact accepted_slot (Nat.le_refl _) (h.clocked.slots _ slot hh.slotRow) (by simp) (by simp)
  refine .bind (require_pos rfl) ?_
  refine .bind (during_eq_ok.2 ((updateJob_iff (by exact hh.jobRow) (by simp [hleased])).2 ⟨?_, rfl, rfl⟩)) ?_
  · show validateAgentJobUpdate job (endedJob now job .succeeded job.availableAt) = .ok ()
    exact accepted_endedJob hleased (h.clocked.jobs _ job hh.jobRow) (hinv.occupancy.count _ job hh.jobRow) (by simp)
      (by simp)
  exact .bind (require_pos rfl) (.pure _)

-- The deferred checks hold in every state the routes are in order.
theorem finalizeCommit_accepted (h : Routes (view db)) (i : FinalizeInput) : finalizeCommit db i = .ok () := by
  have hreferenced (id : String) : validateReleaseNotReferencedUnlessActive db id = .ok () := by
    refine require_pos ?_
    by_cases hany : db.routeHeads.any (fun _ h => h.activeReleaseID == some id) = false
    · exact .inr hany
    · obtain ⟨environmentID, head, hhead, hactive⟩ := (Table.any_iff _ _).1 (by simpa using hany)
      obtain ⟨release, hrow, hstate, -⟩ := h.headActive environmentID head hhead id (by simpa using hactive)
      have hrow : db.releases.get? id = some release := hrow
      exact .inl (by simp [hrow, hstate])
  have hpoints : validateRouteHeadActiveRelease db i.environmentID = .ok () := by
    unfold validateRouteHeadActiveRelease
    split
    · rfl
    · rename_i id hid
      obtain ⟨head, hhead, hactive⟩ := Option.bind_eq_some_iff.1 hid
      obtain ⟨release, hrow, hstate, -⟩ := h.headActive i.environmentID head hhead id hactive
      have hrow : db.releases.get? id = some release := hrow
      exact require_pos (by simp [hrow, hstate])
  simp only [finalizeCommit, hpoints, hreferenced, ok_bind]
  cases i.expectedActiveReleaseID with
  | none => rfl
  | some id => rfl

variable {p : Principal} {reason : String} {outcome : ActivationOutcome} {d : DeclaredResolution}

-- The administrator's resolution of the attempt that flags the environment.
def ownerResolution (now : Nat) (p : Principal) (environmentID : String) (jobID attemptID : Nat)
    (slotCurrentAttemptID : Option Nat) (outcome : ActivationOutcome) (auditReason : String) : DeclaredResolution :=
  { environmentID := environmentID
    jobID := jobID
    attemptID := attemptID
    slotCurrentAttemptID := slotCurrentAttemptID
    outcome := outcome
    authorize := fun _ => pure ()
    outcomeDigest := none
    plainAttemptRefusal := fun a => require (¬ (a.state = .leased ∧ a.closedAt = none))
      (.detail (.sentinel .corruptState) ("attempt " ++ toString attemptID ++
        " is still leased with no unresolved activation at environment " ++ environmentID))
    clearPlain := fun db => clearPlainReconciliation now db p environmentID jobID attemptID auditReason
    audit := fun db => insertServerAuditEvent db ⟨p.userID, .environmentMarkReconciled, none, auditReason⟩ }

theorem unresolvedOperation_blocked (hinv : Inv (view db)) (hb : BlockedRows (view db) operationID op attempt slot job s head) :
    unresolvedOperation db attempt.environmentID = some (operationID, op) := by
  have henvironment := (hb.opens.ofAttemptRow hinv).environment
  refine Table.find?_eq_of_unique hb.opens.operationRow (by simp [henvironment, hb.state]) fun other op' hop' hcond => ?_
  simp only [Bool.and_eq_true, beq_iff_eq] at hcond
  exact hinv.activations.unresolved_unique hinv.occupancy hb.opens.operationRow hb.opens.unresolved hop' hcond.2
    (hcond.1.trans henvironment.symm)

theorem resolveActivation_blocked (outcome : ActivationOutcome) (reason : String) (hinv : Inv (view db))
    (hb : BlockedRows (view db) operationID op attempt slot job s head)
    (hvalid : p.valid = true) (hlive : administratorSessionLive db now p = true) (howner : job.ownerID = p.ownerID)
    (henvironment : validOpaqueID attempt.environmentID = true)
    (hreason : validReason ("outcome=" ++ outcome.text ++ "; " ++ reason) = true) :
    resolveActivation now db p attempt.environmentID outcome reason = (do
      let db ← resolveOperation now db (ownerResolution now p attempt.environmentID attempt.jobID op.attemptID
        slot.currentAttemptID outcome ("outcome=" ++ outcome.text ++ "; " ++ reason)) job attempt operationID op
      pure (db, ())) := by
  have hattempt : db.attempts.get? op.attemptID = some attempt := hb.opens.holds.attemptRow
  have hslot : db.slots.get? attempt.environmentID = some slot := hb.opens.holds.slotRow
  have hjob : db.jobs.get? attempt.jobID = some job := hb.opens.holds.jobRow
  have hflagged : flaggedJob db op.attemptID = .ok (attempt.jobID, job) := by
    simp only [flaggedJob, hattempt, hjob, found_some, ok_bind]
    rfl
  have hsession : lockAdministratorSession db now p = .ok () := require_pos ⟨hvalid, hlive⟩
  have hunresolved := unresolvedOperation_blocked hinv hb
  have hdeclared : resolveDeclared now db (ownerResolution now p attempt.environmentID attempt.jobID op.attemptID
      slot.currentAttemptID outcome ("outcome=" ++ outcome.text ++ "; " ++ reason)) =
      resolveOperation now db (ownerResolution now p attempt.environmentID attempt.jobID op.attemptID
        slot.currentAttemptID outcome ("outcome=" ++ outcome.text ++ "; " ++ reason)) job attempt operationID op := by
    simp only [resolveDeclared, ownerResolution, hjob, hattempt, hunresolved, found_some, ok_bind, pure_bind]
    rfl
  rw [← hdeclared]
  simp only [resolveActivation, require_pos (show p.valid = true ∧ validOpaqueID attempt.environmentID = true from
    ⟨hvalid, henvironment⟩), require_pos hreason, hsession, hslot, found_some, ok_bind, hb.flags, hflagged,
    require_pos howner]
  rfl

-- What a declared resolution checks before it writes holds of every blocked activation.
theorem resolveOperation_blocked (hinv : Inv (view db)) (hb : BlockedRows (view db) operationID op attempt slot job s head)
    (hof : d.attemptID = op.attemptID ∧ d.jobID = attempt.jobID ∧ d.environmentID = attempt.environmentID ∧
      d.slotCurrentAttemptID = slot.currentAttemptID)
    (houtcome : d.outcome ≠ .noActivation) (hdigest : d.outcomeDigest = none) :
    resolveOperation now db d job attempt operationID op = (do
      let db ← (if d.outcome = .activated then
          finalizeActivationSucceeded now db (openInput op.attemptID operationID attempt job op op.routeDigest
            (declaredSummary op.outcomeSummary d.outcome))
        else
          resolveNotActivated now db attempt.jobID op.attemptID operationID attempt.environmentID job.deploymentID true
            (declaredSummary op.outcomeSummary d.outcome))
      let db := appendAgentJobEvent (d.audit db) attempt.jobID (some op.attemptID) .reconciled
      (if d.outcome = .activated then
          during "commit activation resolution" (finalizeCommit db (openInput op.attemptID operationID attempt job op
            op.routeDigest (declaredSummary op.outcomeSummary d.outcome)))
        else pure ())
      pure db) := by
  obtain ⟨hattemptID, hjobID, henvironment, hcurrent⟩ := hof
  have hh := hb.opens.holds
  have hleased := ((hinv.occupancy.holds_fitsJob hh).leased hh.leased).1
  have hofAttempt := hb.opens.ofAttemptRow hinv
  have hclosed : attempt.closedAt = none := by
    have hclosed := (checkAttempt_eq_ok.1 (hinv.occupancy.checked op.attemptID attempt hh.attemptRow)).2.2.2.1
    simpa [hh.leased] using hclosed
  have hs : db.deployments.get? job.deploymentID = some s := hb.deploymentRow
  have hhead : db.routeHeads.get? attempt.environmentID = some head := hb.headRow
  have hinput : declaredFinalizeInput d job operationID op = openInput op.attemptID operationID attempt job op
      op.routeDigest (declaredSummary op.outcomeSummary d.outcome) := by
    simp only [declaredFinalizeInput, openInput, hattemptID, hjobID, henvironment, hb.state]
  simp only [resolveOperation, hh.leased, hclosed, hattemptID, hjobID, henvironment, hcurrent, hh.occupies,
    hofAttempt.fence, hleased, hdigest, hs, hb.activating, hhead, hinput, ok_bind, found_some, Option.any_some,
    hb.headFlagged, require]
  simp [houtcome, hb.state]

theorem resolveOperation_accepted (h : Timed now db) (hb : BlockedRows (view db) operationID op attempt slot job s head)
    (hof : d.attemptID = op.attemptID ∧ d.jobID = attempt.jobID ∧ d.environmentID = attempt.environmentID ∧
      d.slotCurrentAttemptID = slot.currentAttemptID)
    (houtcome : d.outcome ≠ .noActivation) (hdigest : d.outcomeDigest = none) (haudit : ∀ db, view (d.audit db) = view db)
    (hunmoved : d.outcome = .activated → head.routeRevision = op.expectedRouteRevision ∧
      head.activeReleaseID = op.expectedActiveReleaseID) :
    Succeeds (resolveOperation now db d job attempt operationID op) := by
  have hinv := h.sound.inv
  have hsummary := declaredSummary_checked d.outcome
    (hinv.activations.checked operationID op hb.opens.operationRow).1.summary
  rw [resolveOperation_blocked hinv hb hof houtcome hdigest]
  by_cases hactivated : d.outcome = .activated
  · simp only [hactivated, if_true] at hsummary ⊢
    obtain ⟨hrevision, hactive⟩ := hunmoved hactivated
    refine .bind_all (finalize_accepted h hb hrevision hactive hsummary) fun db₁ hfinalize => ?_
    -- the checks deferred to the commit follow from the invariant of the state it commits
    have hextra : Concerns attempt.jobID op.attemptID
        [⟨attempt.jobID, nextSequence (d.audit db₁) attempt.jobID, .reconciled, some op.attemptID⟩] :=
      .one _ _ _ _
    have he := (finalize_effect hinv hb.opens hfinalize hextra).1
    have hroutes : Routes (view (appendAgentJobEvent (d.audit db₁) attempt.jobID (some op.attemptID) .reconciled)) := by
      rw [view_appendAgentJobEvent, haudit]
      exact (hinv.effect he).routes
    exact .bind (during_eq_ok.2 (finalizeCommit_accepted hroutes _)) (.pure _)
  · simp only [hactivated, if_false]
    refine .bind_all (resolveNotActivated_accepted h hb hsummary) fun db₁ _ => ?_
    exact .bind rfl (.pure _)

-- Any runnable job of the environment can be leased, now or later.
def ClaimableAgain (now : Nat) (db : DB) (environmentID : String) : Prop :=
  ∀ later jobID job, now ≤ later → db.jobs.get? jobID = some job → job.environmentID = environmentID →
    (job.state = .queued ∨ job.state = .retryWait) → job.availableAt ≤ later → job.cancelRequestedAt = none →
    db.administration.runtimeConfigs.contains environmentID = true →
    (job.attemptCount = 0 → (resolveRuntimeSecretBindings db environmentID).isSome = true) →
    db.servers.contains job.serverID = true →
    ∃ db' lease, tryClaim later db job.serverID jobID environmentID = .ok (db', some lease)

theorem claimableAgain_of_free {environmentID : String} (h : Timed now db) (hready : Ready (view db))
    (hfree : At db.slots.get? environmentID fun slot => slot.currentAttemptID = none ∧ slot.reconciliationAttemptID = none) :
    ClaimableAgain now db environmentID := by
  intro later jobID job hle hjob henvironment hidle havailable hunmarked hconfigured hbound hserver
  subst henvironment
  obtain ⟨slot, hslot, hvacant, hunflagged⟩ := hfree
  obtain ⟨config, hconfig⟩ := Option.isSome_iff_exists.1 hconfigured
  obtain ⟨plan, hplan⟩ := planFreeze_some config hready.lifecycles hjob hbound
  have hundisturbed : Undisturbed later job.serverID db := ⟨h.mono hle, hready, hserver⟩
  refine hundisturbed.tryClaim_offered ⟨config, slot, job, plan, ?_, hplan⟩
  simp only [claimable, hconfig, hslot, hjob, Option.bind_eq_bind, Option.bind_some]
  exact if_pos ⟨hvacant, by simp [Slot.reconciliationRequired, hunflagged], trivial, trivial, hidle, havailable, hunmarked⟩

-- The declared outcome is accepted; what the activation held is closed with it, and the environment can be claimed.
def Resolves (now : Nat) (db : DB) (p : Principal) (operationID : Nat) (op : Operation) (attempt : Attempt) (job : Job)
    (outcome : ActivationOutcome) (reason : String) : Prop :=
  ∃ db', resolveActivation now db p op.environmentID outcome reason = .ok (db', ()) ∧
    Concluded (view db') op.attemptID operationID attempt job outcome ∧ ClaimableAgain now db' op.environmentID

theorem resolves_of_unmoved {clock : Nat} (h : timedSystem.Reachable (clock, db)) (hle : clock ≤ now)
    (hb : BlockedRows (view db) operationID op attempt slot job s head)
    (hvalid : p.valid = true) (hlive : administratorSessionLive db now p = true) (howner : job.ownerID = p.ownerID)
    (henvironment : validOpaqueID attempt.environmentID = true)
    (hreason : validReason ("outcome=" ++ outcome.text ++ "; " ++ reason) = true) (houtcome : outcome ≠ .noActivation)
    (hunmoved : outcome = .activated → head.routeRevision = op.expectedRouteRevision ∧
      head.activeReleaseID = op.expectedActiveReleaseID) :
    Resolves now db p operationID op attempt job outcome reason := by
  have htimed := (timed_of_reachable h).mono hle
  have hinv := htimed.sound.inv
  have hsame := (hb.opens.ofAttemptRow hinv).environment
  have hresolve := resolveActivation_blocked outcome reason hinv hb hvalid hlive howner henvironment hreason
  obtain ⟨db', hok⟩ := resolveOperation_accepted htimed hb
    (d := ownerResolution now p attempt.environmentID attempt.jobID op.attemptID slot.currentAttemptID outcome
      ("outcome=" ++ outcome.text ++ "; " ++ reason)) ⟨rfl, rfl, rfl, rfl⟩ houtcome rfl (fun _ => rfl) hunmoved
  have hconcluded := (resolveOperation_effect hinv hb.opens rfl rfl (fun _ => rfl) hok).2.2.2.2
  rw [hok, ok_bind] at hresolve
  have hresolve : resolveActivation now db p attempt.environmentID outcome reason = .ok (db', ()) := hresolve
  have hexec : exec now db (.resolveActivation p attempt.environmentID outcome reason) = db' := by
    simp only [exec, hresolve, committed]
  unfold Resolves
  rw [hsame]
  refine ⟨db', hresolve, hconcluded, claimableAgain_of_free ?_ ?_ hconcluded.slotRow⟩
  · rw [← hexec]
    exact htimed.exec (Nat.le_refl _) _
  · rw [← hexec]
    exact ready_of_reachable (reachable_exec (timedSystem_reachable h) now trivial)

-- In every reachable state, the owner of a blocked environment can declare its activation given up, and can declare
-- it live exactly when the route is still where the activation found it. The environment's name is one its slot's row
-- check accepts, and the audited reason is the declared outcome with the given text.
theorem blocked_activation_resolvable {clock : Nat} (h : timedSystem.Reachable (clock, db)) (hle : clock ≤ now)
    (hop : db.operations.get? operationID = some op) (hstate : op.state = .reconciliationRequired)
    (hvalid : p.valid = true) (hlive : administratorSessionLive db now p = true)
    (henvironment : validOpaqueID op.environmentID = true) :
    ∃ attempt job head, db.attempts.get? op.attemptID = some attempt ∧ db.jobs.get? op.jobID = some job ∧
      db.routeHeads.get? op.environmentID = some head ∧ (job.ownerID = p.ownerID →
        (validReason ("outcome=not_activated; " ++ reason) = true →
          Resolves now db p operationID op attempt job .notActivated reason) ∧
        (validReason ("outcome=activated; " ++ reason) = true →
          if head.routeRevision = op.expectedRouteRevision ∧ head.activeReleaseID = op.expectedActiveReleaseID then
            Resolves now db p operationID op attempt job .activated reason
          else
            resolveActivation now db p op.environmentID .activated reason = .error (.sentinel .routeMoved) ∧
              exec now db (.resolveActivation p op.environmentID .activated reason) = db)) := by
  have htimed := (timed_of_reachable h).mono hle
  have hinv := htimed.sound.inv
  obtain ⟨attempt, slot, job, s, head, hb⟩ := blocked_rows hinv hop hstate
  have hof := hb.opens.ofAttemptRow hinv
  rw [hof.environment] at henvironment
  refine ⟨attempt, job, head, hb.opens.holds.attemptRow, hof.job ▸ hb.opens.holds.jobRow, hof.environment ▸ hb.headRow,
    fun howner => ⟨fun hreason => ?_, fun hreason => ?_⟩⟩
  · exact resolves_of_unmoved h hle hb hvalid hlive howner henvironment hreason (by simp) (by simp)
  · split
    · rename_i hunmoved
      exact resolves_of_unmoved h hle hb hvalid hlive howner henvironment hreason (by simp) fun _ => hunmoved
    · rename_i hmoved
      have hresolve := resolveActivation_blocked .activated reason hinv hb hvalid hlive howner henvironment hreason
      rw [resolveOperation_blocked hinv hb ⟨rfl, rfl, rfl, rfl⟩ (by simp [ownerResolution]) rfl] at hresolve
      simp only [ownerResolution, if_true, finalize_moved htimed hb hmoved, error_bind] at hresolve
      rw [hof.environment]
      refine ⟨hresolve, ?_⟩
      simp only [exec, hresolve, committed]

end

-- The lease of the sample's activation ran out: its environment is blocked.
def sampleBlocked : DB := execAll sampleAuthorized [(200 * second, .expireOne 7 1)]

theorem sampleBlocked_timed : timedSystem.Reachable (200 * second, sampleBlocked) := by
  refine @timed_execAll 6000 sampleAuthorized [(200 * second, _)] sampleAuthorized_timed (by simp [second]) fun step hstep => ?_
  rw [List.mem_singleton.1 hstep]
  trivial

theorem blocked_activation_resolvable_expired :
    ∃ op attempt job, sampleBlocked.operations.get? 1 = some op ∧
      Resolves (300 * second) sampleBlocked samplePrincipal 1 op attempt job .notActivated "checked" ∧
      Resolves (300 * second) sampleBlocked samplePrincipal 1 op attempt job .activated "checked" := by
  have hstored : (sampleBlocked.operations.get? 1).any (fun op =>
      decide (op.state = .reconciliationRequired ∧ validOpaqueID op.environmentID = true) &&
        ((sampleBlocked.jobs.get? op.jobID).any fun job => job.ownerID == "own") &&
        ((sampleBlocked.routeHeads.get? op.environmentID).any fun head =>
          head.routeRevision == op.expectedRouteRevision && head.activeReleaseID == op.expectedActiveReleaseID)) = true ∧
      administratorSessionLive sampleBlocked (300 * second) samplePrincipal = true ∧
      validReason ("outcome=not_activated; " ++ "checked") = true ∧ validReason ("outcome=activated; " ++ "checked") = true := by
    rw [sampleBlocked, sampleAuthorized_eq]
    decide +kernel
  obtain ⟨hany, hlive, hnot, hactivated⟩ := hstored
  simp only [Option.any_eq_true, Bool.and_eq_true, decide_eq_true_eq, beq_iff_eq] at hany
  obtain ⟨op, hop, ⟨⟨hstate, hname⟩, job', hjob', howner⟩, head', hhead', hrevision, hactive⟩ := hany
  obtain ⟨attempt, job, head, -, hjob, hhead, hresolve⟩ := @blocked_activation_resolvable sampleBlocked (300 * second) 1 op
    samplePrincipal "checked" (200 * second) sampleBlocked_timed (by norm_num [second]) hop hstate rfl hlive hname
  cases hjob'.symm.trans hjob
  cases hhead'.symm.trans hhead
  obtain ⟨hgiven, hkept⟩ := hresolve howner
  have hlater := hkept hactivated
  rw [if_pos ⟨hrevision, hactive⟩] at hlater
  exact ⟨op, attempt, job', hop, hgiven hnot, hlater⟩

end AutoDeploy.Protocol
