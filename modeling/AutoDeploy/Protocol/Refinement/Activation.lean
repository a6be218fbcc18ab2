import AutoDeploy.Protocol.Refinement.Claim

namespace AutoDeploy.Protocol

open Function Lib Lib.Result Queue Store Deployment

-- What an authorization, a block and a finalization do to the protocol's rows.

section

variable {db db' : DB} {now attemptID operationID fence : Nat} {serverID : String} {presented image : Digest}
  {attempt : Attempt} {slot : Slot} {job : Job} {op : Operation} {l : Lease}

theorem checkOperation_checked {id : Nat} (h : checkOperation db id op = .ok ())
    (hevidence : op.state = .reconciliationRequired ∨ op.state = .failed → op.outcomeSummary ≠ []) :
    OperationChecked op := by
  simp only [checkOperation, bind_eq_ok, require_eq_ok, exists_const] at h
  exact ⟨h.1, h.2.1, h.2.2.1, hevidence⟩

theorem validateReleaseOperationUpdate_checked {id : Nat} {new : Operation}
    (h : validateReleaseOperationUpdate db id op new = .ok ())
    (hevidence : new.state = .reconciliationRequired ∨ new.state = .failed → new.outcomeSummary ≠ []) :
    OperationChecked new := by
  simp only [validateReleaseOperationUpdate, bind_eq_ok, require_eq_ok] at h
  obtain ⟨_, -, h⟩ := h
  split at h
  · simp only [bind_eq_ok, require_eq_ok] at h
    obtain ⟨_, -, _, -, h⟩ := h
    exact checkOperation_checked h hevidence
  · simp only [bind_eq_ok, require_eq_ok] at h
    obtain ⟨_, -, _, -, h⟩ := h
    exact checkOperation_checked h hevidence

theorem insertOperation_eq_ok {id : Nat} (h : insertOperation db op = .ok (db', id)) :
    db' = putOperation db id op ∧ id = db.operations.nextKey ∧
      At db.releases.get? op.releaseID (fun r => r.environmentID = op.environmentID) := by
  simp only [insertOperation, bind_eq_ok, found_eq_ok, require_eq_ok, pure_eq_ok, Prod.mk.injEq,
    Option.any_eq_true, beq_iff_eq] at h
  obtain ⟨_, -, _, -, _, -, _, ⟨r, hr, henv⟩, _, -, _, -, _, -, rfl, rfl⟩ := h
  exact ⟨rfl, rfl, r, hr, henv⟩

-- A candidate becomes ready; a ready release stays.
theorem readyCandidate_eq_ok {releaseID : String} {release : Release}
    (h : readyCandidate now db releaseID release image = .ok db') (hrow : db.releases.get? releaseID = some release) :
    (release.state = .candidate ∨ release.state = .ready) ∧
      view db' = { view db with releases := update (view db).releases releaseID (some (readied now image release)) } ∧
      db'.operations = db.operations ∧ db'.jobEvents = db.jobEvents := by
  unfold readyCandidate at h
  split at h
  · rename_i hstate
    simp only [bind_eq_ok, during_eq_ok, Prod.exists, pure_eq_ok] at h
    obtain ⟨_, _, hupdate, rfl⟩ := h
    obtain ⟨-, rfl, -⟩ := (updateRelease_iff hrow rfl).1 hupdate
    exact ⟨.inl hstate, by simp [readied, hstate], rfl, rfl⟩
  · rename_i hstate
    simp only [bind_eq_ok, require_eq_ok, pure_eq_ok] at h
    obtain ⟨_, -, rfl⟩ := h
    have hsame : readied now image release = release := by simp [readied, hstate]
    refine ⟨.inr hstate, ?_, rfl, rfl⟩
    rw [hsame, update_row (show (view db).releases releaseID = some release from hrow)]
  · cases h

-- A first authorization, with the document it answers for.
theorem authorizeActivation_effect {result : ActivationResult} (hinv : Inv (view db))
    (hholds : Holds (view db) attemptID l.attempt l.slot l.job) (hlive : now < l.attempt.authorityExpiresAt)
    (hcancel : l.job.cancelRequestedAt = none) (hfence : l.attempt.fence = fence)
    (hfirst : ∀ id op, (view db).operations id = some op → op.attemptID ≠ attemptID)
    (h : authorizeActivation now db l attemptID fence image = .ok (db', result)) :
    Effect now (view db) .authorizes (view db') ∧ ∃ head execution operationID text digest,
      db.routeHeads.get? l.attempt.environmentID = some head ∧ db.executions.get? attemptID = some execution ∧
      renderRouteDigest (activationRoute l.attempt.environmentID head.hostname (head.routeRevision + 1) attemptID
        fence l.job.deploymentID execution) = .ok (text, digest) ∧
      result = activationResult operationID (head.routeRevision + 1) attemptID head.hostname text := by
  subst hfence
  simp only [authorizeActivation, bind_eq_ok, require_eq_ok] at h
  obtain ⟨_, hopen, db₁, hdeployment, h⟩ := h
  obtain ⟨deployments, s, s', rfl, hs, hmove, hget⟩ := transitionDeployment_moves hdeployment hinv.pipeline.stored
  simp only [found_eq_ok, mapError_eq_ok, during_eq_ok, Prod.exists, pure_eq_ok, Prod.mk.injEq] at h
  obtain ⟨head, hhead, _, hclear, releaseID, release, hfind, db₂, hready, execution, hexecution, text, digest, hrender,
    db₃, operationID, hinsert, _, -, rfl, rfl⟩ := h
  obtain ⟨hrelease, hkey⟩ := Table.find?_some hfind
  have hrelease' : (view db).releases releaseID = some release := hrelease
  obtain rfl : releaseID = l.job.deploymentID :=
    (hinv.routes.keyed releaseID release hrelease').symm.trans (by simpa using hkey)
  obtain ⟨hstate, hview, hoperations, hevents⟩ := readyCandidate_eq_ok hready hrelease
  have hexecutions : db₂.executions.get? = db.executions.get? := congrArg View.executions hview
  have hreleases : db₂.releases.get? = _ := congrArg View.releases hview
  obtain ⟨rfl, rfl, henvironment⟩ := insertOperation_eq_ok hinsert
  have henvironment' : release.environmentID = l.attempt.environmentID := by
    simp only [hreleases] at henvironment
    have := henvironment.of_row (update_self _ _ _)
    simpa [readied, apply_ite] using this
  have hresolved : ¬ Unresolved (view db) l.attempt.environmentID := by
    rintro ⟨id, op, hop, henv, hunresolved⟩
    simpa [henv, hunresolved] using Table.any_eq_false hopen hop
  have hexecution' : db.executions.get? attemptID = some execution := hexecutions ▸ hexecution
  refine ⟨?_, head, execution, db.operations.nextKey, text, digest, hhead, hexecution', hrender, by rw [hoperations]; rfl⟩
  have he (image' : Digest) := @Effect.authorize now (view db) attemptID db.operations.nextKey l.attempt l.slot l.job s s'
    head release execution image' digest text _ hholds hlive hcancel hresolved hfirst
    (Table.get?_nextKey db.operations) hs hmove hhead hclear hrelease' hstate henvironment' hexecution' hrender
    (.one l.attempt.jobID attemptID (nextSequence db l.attempt.jobID) .activationAuthorized) (by simp [Unreconciled])
  have hsequence (x : Operation) (j : Nat) :
      nextSequence (putOperation db₂ db₂.operations.nextKey x) j = nextSequence db j := by
    simp only [nextSequence, putOperation, hevents]
    rfl
  convert he image using 1
  simp only [view_appendAgentJobEvent, view_putOperation, hview, view_setDeployments, hget, hsequence]
  rw [hoperations]
  rfl

-- The rows of an attempt and of its open activation.
structure Open (v : View) (attemptID operationID : Nat) (attempt : Attempt) (slot : Slot) (job : Job)
    (op : Operation) : Prop where
  holds : Holds v attemptID attempt slot job
  operationRow : v.operations operationID = some op
  ofAttempt : op.attemptID = attemptID
  unresolved : unresolvedActivation op.state = true

theorem activate_cases {result : ActivationResult} (hinv : Inv (view db))
    (h : activate now db serverID presented attemptID fence image = .ok (db', result)) :
    ∃ attempt slot job, Holds (view db) attemptID attempt slot job ∧ now < attempt.authorityExpiresAt ∧
      attempt.fence = fence ∧
      ((db' = db ∧ ∃ operationID op head, Open (view db) attemptID operationID attempt slot job op ∧
          op.state = .switchAuthorized ∧ db.routeHeads.get? attempt.environmentID = some head ∧
          result = activationResult operationID (op.expectedRouteRevision + 1) attemptID head.hostname
            (Traefik.digestText op.routeDigest)) ∨
        (Effect now (view db) .authorizes (view db') ∧ ∃ head execution operationID text digest,
          db.routeHeads.get? attempt.environmentID = some head ∧ db.executions.get? attemptID = some execution ∧
          renderRouteDigest (activationRoute attempt.environmentID head.hostname (head.routeRevision + 1) attemptID
            fence job.deploymentID execution) = .ok (text, digest) ∧
          result = activationResult operationID (head.routeRevision + 1) attemptID head.hostname text)) := by
  simp only [activate, bind_eq_ok, require_eq_ok] at h
  obtain ⟨_, -, l, hl, _, hlive, _, hcancel, h⟩ := h
  have hholds := holds_of_occupies hl hlive.1
  refine ⟨l.attempt, l.slot, l.job, hholds, hlive.2.2, hlive.2.1, ?_⟩
  split at h
  · rename_i operationID op hfind
    obtain ⟨hop, hof⟩ := Table.find?_some hfind
    simp only [Bool.and_eq_true, beq_iff_eq] at hof
    simp only [bind_eq_ok, pure_eq_ok, Prod.mk.injEq, activateReplay] at h
    obtain ⟨_, h, rfl, rfl⟩ := h
    split at h
    · split at h <;> cases h
    · rename_i hstate
      simp only [ne_eq, not_not] at hstate
      simp only [bind_eq_ok, require_eq_ok, found_eq_ok, pure_eq_ok] at h
      obtain ⟨_, -, head, hhead, rfl⟩ := h
      exact .inl ⟨rfl, operationID, op, head, ⟨hholds, hop, hof.1, by simp [hstate]⟩, hstate, hhead, rfl⟩
  · rename_i hnone
    have hfirst : ∀ id op, (view db).operations id = some op → op.attemptID ≠ attemptID := by
      rintro id op hop rfl
      have hfence := ((hinv.activations.ofAttempt id op hop).of_row hholds.attemptRow).fence
      simpa [hfence, hlive.2.1] using Table.find?_none hnone hop
    exact .inr (authorizeActivation_effect hinv hholds hlive.2.2 hcancel hlive.2.1 hfirst h)

theorem Open.ofAttemptRow {v : View} (h : Open v attemptID operationID attempt slot job op) (hinv : Inv v) :
    OfAttempt op attempt :=
  (hinv.activations.ofAttempt operationID op h.operationRow).of_row (h.ofAttempt ▸ h.holds.attemptRow)

-- The route head of an open activation exists.
theorem Open.head {v : View} (h : Open v attemptID operationID attempt slot job op) (hinv : Inv v) :
    ∃ head, v.routeHeads attempt.environmentID = some head ∧ OfHead v.executions op head := by
  obtain ⟨head, hhead, hof⟩ := hinv.activations.ofHead operationID op h.operationRow
  exact ⟨head, (h.ofAttemptRow hinv).environment ▸ hhead, hof⟩

-- The flag of a route head is set unless it is set already.
theorem flag_eq_ok {environmentID : String} {head : RouteHead}
    (h : (if (some head).any (fun h => !h.reconciliationRequired) then flagRouteHead now db environmentID
      else pure db) = .ok db')
    (hrow : db.routeHeads.get? environmentID = some head) :
    ∃ heads, db' = setRouteHeads db heads ∧
      heads.get? = update db.routeHeads.get? environmentID (some (flagged now head)) := by
  split at h
  · rename_i hclear
    simp only [Option.any_some, Bool.not_eq_true'] at hclear
    simp only [flagRouteHead, bind_eq_ok, during_eq_ok, Prod.exists, pure_eq_ok] at h
    obtain ⟨_, _, hupdate, _, -, rfl⟩ := h
    obtain ⟨-, rfl, -⟩ := (updateRouteHead_iff hrow (by simp [hclear])).1 hupdate
    exact ⟨_, rfl, by simp [flagged, hclear]⟩
  · rename_i hset
    simp only [Option.any_some, Bool.not_eq_true', Bool.not_eq_false] at hset
    simp only [pure_eq_ok] at h
    subst h
    exact ⟨db.routeHeads, rfl, by simp [flagged, hset, update_row hrow]⟩

theorem block_effect {summary : Bytes} (hinv : Inv (view db))
    (hopen : Open (view db) attemptID operationID attempt slot job op) (hstate : op.state = .switchAuthorized)
    (hsummary : summary ≠ [])
    (h : blockActivationForReconciliation now db attempt.jobID attemptID operationID attempt.environmentID summary =
      .ok db') :
    Effect now (view db) .other (view db') ∧
      At (view db').operations operationID fun o =>
        o.state = .reconciliationRequired ∧ o.outcomeSummary = summary := by
  obtain ⟨head, hhead, -⟩ := hopen.head hinv
  have hhead' : db.routeHeads.get? attempt.environmentID = some head := hhead
  simp only [blockActivationForReconciliation, bind_eq_ok, during_eq_ok, require_eq_ok, Prod.exists, hhead',
    pure_eq_ok] at h
  obtain ⟨db₁, n, hoperation, _, -, db₂, hflag, db₃, m, hslot, _, -, rfl⟩ := h
  obtain ⟨hvalid, rfl, -⟩ := (updateOperation_iff hopen.operationRow (by simp [hstate])).1 hoperation
  obtain ⟨heads, rfl, hheads⟩ := flag_eq_ok hflag hhead
  obtain ⟨-, rfl, -⟩ := (updateSlot_iff (by exact hopen.holds.slotRow) rfl).1 hslot
  have he := Effect.block hopen.holds hopen.operationRow hopen.ofAttempt hstate hhead
    (validateReleaseOperationUpdate_checked hvalid fun _ => hsummary)
    (.one attempt.jobID attemptID (nextSequence db attempt.jobID) .activationReconciliationRequired)
    (by simp [Unreconciled])
  simp only [view_appendAgentJobEvent, view_putSlot, view_setRouteHeads, view_putOperation, hheads]
  refine ⟨?_, At.write_self ⟨rfl, rfl⟩⟩
  convert he using 1
  rfl

theorem retain_none (releases : String → Option Release) : retain now releases none = releases := by
  funext id
  simp [retain]

theorem retain_some {releases : String → Option Release} {id : String} {release : Release}
    (hrow : releases id = some release) : retain now releases (some id) =
      update releases id (some { release with state := .retained, updatedAt := now }) := by
  funext x
  by_cases hx : x = id
  · subst hx
    simp [retain, hrow]
  · simp [retain, hx, Ne.symm hx]

theorem retainPredecessor_eq_ok {predecessor : Option String} (h : retainPredecessor now db predecessor = .ok db') :
    (∀ id ∈ predecessor, ∃ r, db.releases.get? id = some r ∧ r.state = .active) ∧
      ∃ releases, db' = setReleases db releases ∧ releases.get? = retain now db.releases.get? predecessor := by
  cases predecessor with
  | none =>
      simp only [retainPredecessor, pure_eq_ok] at h
      subst h
      exact ⟨by simp, db.releases, rfl, (retain_none _).symm⟩
  | some id =>
      simp only [retainPredecessor, bind_eq_ok, require_eq_ok, during_eq_ok, Prod.exists, pure_eq_ok,
        Option.any_eq_true, beq_iff_eq] at h
      obtain ⟨_, ⟨release, hrow, hactive⟩, _, _, hupdate, rfl⟩ := h
      obtain ⟨-, rfl, -⟩ := (updateRelease_iff hrow (by simp [hactive])).1 hupdate
      refine ⟨fun x hx => ?_, _, rfl, by simp [retain_some hrow]⟩
      cases hx
      exact ⟨release, hrow, hactive⟩

-- The input that finalizes an open activation.
abbrev openInput (attemptID operationID : Nat) (attempt : Attempt) (job : Job) (op : Operation) (digest : Digest)
    (summary : Bytes) : FinalizeInput :=
  { jobID := attempt.jobID
    attemptID := attemptID
    operationID := operationID
    environmentID := attempt.environmentID
    deploymentID := job.deploymentID
    candidateReleaseID := op.releaseID
    expectedRouteRevision := op.expectedRouteRevision
    expectedActiveReleaseID := op.expectedActiveReleaseID
    resultDigest := digest
    summary := summary
    fromState := op.state }

-- The holder of a slot is the only attempt that may flag it.
theorem Holds.flag {v : View} (h : Holds v attemptID attempt slot job) (ho : Occupancy v) :
    slot.reconciliationAttemptID = none ∨ slot.reconciliationAttemptID = some attemptID := by
  cases hflag : slot.reconciliationAttemptID with
  | none => exact .inl rfl
  | some id =>
      obtain ⟨hcurrent, -⟩ := ho.flag _ slot h.slotRow id hflag
      rw [h.occupies] at hcurrent
      rcases hcurrent with hcurrent | hcurrent
      · cases hcurrent
      · exact .inr hcurrent.symm

-- How the rows of an activation end, by the outcome that is reported or declared.
def endedOperation : ActivationOutcome → OperationState
  | .activated => .succeeded
  | _ => .failed

def endedAttempt : ActivationOutcome → AttemptState
  | .activated => .succeeded
  | _ => .expired

def endedJobState : ActivationOutcome → JobState
  | .activated => .succeeded
  | _ => .failed

def endedDeployment : ActivationOutcome → Status
  | .activated => .healthy
  | _ => .failed

-- All of them are closed, and nothing holds or flags the environment.
structure Concluded (v : View) (attemptID operationID : Nat) (attempt : Attempt) (job : Job)
    (outcome : ActivationOutcome) : Prop where
  operationRow : At v.operations operationID fun op => op.attemptID = attemptID ∧ op.state = endedOperation outcome
  attemptRow : At v.attempts attemptID fun a => a.state = endedAttempt outcome ∧ a.closedAt.isSome
  jobRow : At v.jobs attempt.jobID fun j => j.state = endedJobState outcome
  deploymentRow : At v.deployments job.deploymentID fun s => s.status = endedDeployment outcome
  slotRow : At v.slots attempt.environmentID fun s => s.currentAttemptID = none ∧ s.reconciliationAttemptID = none
  routeHeadRow : At v.routeHeads attempt.environmentID fun head => head.reconciliationRequired = false

theorem Concluded.events {v : View} {outcome : ActivationOutcome} (h : Concluded v attemptID operationID attempt job outcome)
    (events : List JobEvent) : Concluded { v with jobEvents := events } attemptID operationID attempt job outcome :=
  ⟨h.operationRow, h.attemptRow, h.jobRow, h.deploymentRow, h.slotRow, h.routeHeadRow⟩

theorem finalize_effect {digest : Digest} {summary : Bytes} {extra : List JobEvent} (hinv : Inv (view db))
    (hopen : Open (view db) attemptID operationID attempt slot job op)
    (h : finalizeActivationSucceeded now db (openInput attemptID operationID attempt job op digest summary) = .ok db')
    (hextra : Concerns attempt.jobID attemptID extra) :
    Effect now (view db) .other { view db' with jobEvents := (view db').jobEvents ++ extra } ∧
      (At (view db').operations operationID fun o =>
        o.attemptID = attemptID ∧ o.state = .succeeded ∧ o.routeDigest = op.routeDigest) ∧
      Concluded (view db') attemptID operationID attempt job .activated := by
  have hholds := hopen.holds
  have hleased := ((hinv.occupancy.holds_fitsJob hholds).leased hholds.leased).1
  simp only [finalizeActivationSucceeded, bind_eq_ok] at h
  obtain ⟨_, -, db₁, hdeployment, h⟩ := h
  obtain ⟨deployments, s, s', rfl, hs, hmove, hget⟩ := transitionDeployment_moves hdeployment hinv.pipeline.stored
  simp only [found_eq_ok, require_eq_ok, during_eq_ok, Prod.exists, pure_eq_ok, Option.any_eq_true,
    beq_iff_eq] at h
  obtain ⟨head, hhead, _, ⟨hrevision, hactive⟩, _, -, _, ⟨release, hrelease, hready⟩, db₂, hretain, h⟩ := h
  obtain ⟨hpredecessor, releases, rfl, hreleases⟩ := retainPredecessor_eq_ok hretain
  obtain ⟨db₃, _, hcandidate, db₄, _, hadvance, _, -, db₅, _, hoperation, _, -, db₆, _, hattempt, _, -, db₇, _, hslot, _,
    -, db₈, _, hjob, _, -, rfl⟩ := h
  -- the candidate is ready, so it is not the active predecessor
  have hne : op.expectedActiveReleaseID ≠ some op.releaseID := by
    intro heq
    obtain ⟨r, hr, hstate⟩ := hpredecessor op.releaseID heq
    rw [hrelease] at hr
    cases hr
    rw [hready] at hstate
    cases hstate
  have hcandidateRow : releases.get? op.releaseID = some release := by
    rw [hreleases]
    simpa [retain, hne] using hrelease
  obtain ⟨-, rfl, -⟩ := (updateRelease_iff (by exact hcandidateRow) (by simp [hready])).1 hcandidate
  obtain ⟨-, rfl, -⟩ := (updateRouteHead_iff (by exact hhead) (by simp [hrevision])).1 hadvance
  obtain ⟨hvalid, rfl, -⟩ := (updateOperation_iff (by exact hopen.operationRow) (by simp)).1 hoperation
  obtain ⟨hchecked, rfl, -⟩ := (updateAttempt_iff (by exact hholds.attemptRow) (by simp [hholds.leased])).1 hattempt
  obtain ⟨-, rfl, -⟩ := (updateSlot_iff (by exact hholds.slotRow)
    (by rcases hholds.flag hinv.occupancy with hflag | hflag <;> simp [hholds.occupies, hflag])).1 hslot
  obtain ⟨-, rfl, -⟩ := (updateJob_iff (by exact hholds.jobRow) (by simp [hleased])).1 hjob
  obtain ⟨events, hevents, -, hview⟩ := view_appendEvents _ attempt.jobID attemptID [.activated, .succeeded]
  simp only [List.foldl_cons, List.foldl_nil] at hview
  have he := Effect.activate hholds hopen.operationRow hopen.ofAttempt hopen.unresolved hs hmove hhead hrevision hactive hrelease hready
    hpredecessor (validateReleaseOperationUpdate_checked hvalid (by simp)) (validateAgentJobAttemptUpdate_checked hchecked)
    (hevents.append hextra)
  rw [hview]
  refine ⟨?_, ?_, ?_⟩
  · convert he using 1
    simp only [view_putJob, view_putSlot, view_putAttempt, view_putOperation, view_putRouteHead, view_putRelease,
      view_setReleases, view_setDeployments, view_insertRouteEvent, hget, hreleases, List.append_assoc]
    rfl
  · simp only [view_putJob, view_putSlot, view_putAttempt, view_putOperation]
    exact At.write_self ⟨hopen.ofAttempt, rfl, rfl⟩
  · simp only [view_putJob, view_putSlot, view_putAttempt, view_putOperation, view_putRouteHead, view_putRelease,
      view_setReleases, view_setDeployments, view_insertRouteEvent, hget]
    exact ⟨.write_self ⟨hopen.ofAttempt, rfl⟩, .write_self ⟨rfl, rfl⟩, .write_self rfl, .write_self hmove.status,
      .write_self ⟨rfl, rfl⟩, .write_self rfl⟩

end

end AutoDeploy.Protocol
