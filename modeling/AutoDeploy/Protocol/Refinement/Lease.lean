import AutoDeploy.Protocol.Statements

namespace AutoDeploy.Protocol

open Function Lib Lib.Result Queue Store Deployment

-- What the agent's and the administrator's calls on one lease do to the protocol's rows.

def Ordinary (kind : Kind) : Prop := kind = .other

theorem Effects.ordinary {now : Nat} {v v' : View} (he : Effect now v .other v') : Effects now Ordinary v v' :=
  Effects.one rfl he

def Renewing (kind : Kind) : Prop := kind = .other ∨ kind = .renews

section

variable {db db' : DB} {now attemptID fence : Nat} {serverID : String} {presented : Digest} {l : Lease}

theorem lockLease_eq_ok {purpose : String} (h : lockLease db purpose serverID presented attemptID = .ok l) :
    lockActiveServerCredential db serverID presented ≠ .error (.sentinel .serverAuthorizationDenied) ∧
      db.attempts.get? attemptID = some l.attempt ∧ l.attempt.serverID = serverID ∧
      db.slots.get? l.attempt.environmentID = some l.slot ∧ db.jobs.get? l.attempt.jobID = some l.job := by
  simp only [lockLease, bind_eq_ok, found_eq_ok, require_eq_ok, pure_eq_ok] at h
  obtain ⟨owner, howner, attempt, hattempt, _, hserver, slot, hslot, job, hjob, rfl⟩ := h
  exact ⟨by simp [howner], hattempt, hserver, hslot, hjob⟩

theorem holds_of_occupies {purpose : String} (h : lockLease db purpose serverID presented attemptID = .ok l)
    (hoccupies : l.occupies attemptID fence) : Holds (view db) attemptID l.attempt l.slot l.job := by
  obtain ⟨-, hattempt, -, hslot, hjob⟩ := lockLease_eq_ok h
  exact ⟨hattempt, hslot, hjob, hoccupies.1, hoccupies.2.2⟩

theorem renew_effects {sequence : Nat} {result : RenewalResult}
    (h : renew now db serverID presented attemptID fence sequence = .ok (db', result)) :
    Effects now Renewing (view db) (view db') := by
  simp only [renew, bind_eq_ok, require_eq_ok] at h
  obtain ⟨_, -, l, hl, _, hlive, h⟩ := h
  have hholds := holds_of_occupies hl hlive.1
  split at h
  · simp only [pure_eq_ok, Prod.mk.injEq] at h
    rw [← h.1]
    exact Effects.refl
  · simp only [bind_eq_ok, require_eq_ok, during_eq_ok, Prod.exists, pure_eq_ok, Prod.mk.injEq] at h
    obtain ⟨_, hsequence, db₁, n, hupdate, rfl, -⟩ := h
    rw [updateAttempt_iff hholds.attemptRow rfl] at hupdate
    obtain ⟨-, rfl, -⟩ := hupdate
    refine Effects.one (.inr rfl) ?_
    have he := Effect.renew hholds hlive.2.2
    convert he using 1
    simp [hsequence]

theorem freeSlot_iff {environmentID : String} {slot : Slot} (hrow : db.slots.get? environmentID = some slot)
    (hcurrent : slot.currentAttemptID = some attemptID) :
    freeSlot now db environmentID attemptID = .ok db' ↔
      validateEnvironmentSlotUpdate db slot { slot with currentAttemptID := none, updatedAt := now } = .ok () ∧
        db' = putSlot db environmentID { slot with currentAttemptID := none, updatedAt := now } := by
  have hiff : ∀ db' n, updateSlot db environmentID (fun s => s.currentAttemptID == some attemptID)
      (fun s => { s with currentAttemptID := none, updatedAt := now }) = .ok (db', n) ↔ _ :=
    fun db' n => updateSlot_iff hrow (by simp [hcurrent])
  simp only [freeSlot, bind_eq_ok, during_eq_ok, Prod.exists, pure_eq_ok, hiff]
  constructor
  · rintro ⟨_, _, ⟨hcheck, rfl, -⟩, rfl⟩
    exact ⟨hcheck, rfl⟩
  · rintro ⟨hcheck, rfl⟩
    exact ⟨_, _, ⟨hcheck, rfl, rfl⟩, rfl⟩

-- The job after the end of its attempt: closed, or waiting until `availableAt`.
def endedJob (now : Nat) (job : Job) (state : JobState) (availableAt : Nat) : Job :=
  { job with
    state := state
    availableAt := if state = .retryWait then availableAt else job.availableAt
    updatedAt := now }

theorem closeJob_eq_endJob {jobID : Nat} {state : JobState} (hstate : state ≠ .retryWait) :
    closeJob now db jobID state = endJob now db jobID state 0 := by
  simp [endJob, hstate]

theorem endJob_iff {jobID availableAt : Nat} {job : Job} {state : JobState}
    (hrow : db.jobs.get? jobID = some job) (hleased : job.state = .leased) :
    endJob now db jobID state availableAt = .ok db' ↔
      validateAgentJobUpdate job (endedJob now job state availableAt) = .ok () ∧
        db' = putJob db jobID (endedJob now job state availableAt) := by
  have hiff : ∀ db' n set, updateJob db jobID (fun j => j.state == .leased) set = .ok (db', n) ↔ _ :=
    fun db' n set => updateJob_iff hrow (by simp [hleased])
  by_cases hstate : state = .retryWait
  · subst hstate
    simp only [endJob, if_true, scheduleRetry, endedJob, bind_eq_ok, during_eq_ok, Prod.exists, pure_eq_ok, hiff]
    constructor
    · rintro ⟨_, _, ⟨hcheck, rfl, -⟩, rfl⟩
      exact ⟨hcheck, rfl⟩
    · rintro ⟨hcheck, rfl⟩
      exact ⟨_, _, ⟨hcheck, rfl, rfl⟩, rfl⟩
  · simp only [endJob, hstate, if_false, closeJob, endedJob, bind_eq_ok, during_eq_ok, Prod.exists, pure_eq_ok, hiff]
    constructor
    · rintro ⟨_, _, ⟨hcheck, rfl, -⟩, rfl⟩
      exact ⟨hcheck, rfl⟩
    · rintro ⟨hcheck, rfl⟩
      exact ⟨_, _, ⟨hcheck, rfl, rfl⟩, rfl⟩

theorem validateAgentJobUpdate_eq_ok {old new : Job} :
    validateAgentJobUpdate old new = .ok () ↔
      old.sameIdentity new ∧ ¬ old.state.terminal ∧ jobTransitionAllowed old.state new.state ∧
      (old.state = .leased ∧ new.state = .leased →
        new.attemptCount = old.attemptCount ∧ new.availableAt = old.availableAt) ∧
      (new.state = .leased ∧ old.state ≠ .leased → new.attemptCount = old.attemptCount + 1) ∧
      (¬ (new.state = .leased ∧ old.state ≠ .leased) → new.attemptCount = old.attemptCount) ∧
      (new.state = .retryWait → old.availableAt < new.availableAt) ∧
      (new.state ≠ .retryWait → new.availableAt = old.availableAt) ∧
      (old.cancelRequestedAt.isSome → new.cancelRequestedAt = old.cancelRequestedAt) ∧
      old.updatedAt ≤ new.updatedAt ∧ new.attemptCount ≤ 5 := by
  simp only [validateAgentJobUpdate, bind_eq_ok, require_eq_ok, exists_const]

theorem endedJob_available {job : Job} {state : JobState} {availableAt : Nat}
    (h : validateAgentJobUpdate job (endedJob now job state availableAt) = .ok ()) :
    if state = .retryWait then job.availableAt < (endedJob now job state availableAt).availableAt
    else (endedJob now job state availableAt).availableAt = job.availableAt := by
  obtain ⟨-, -, -, -, -, -, hwait, helse, -⟩ := validateAgentJobUpdate_eq_ok.1 h
  split
  · rename_i hstate
    exact hwait hstate
  · rename_i hstate
    exact helse hstate

theorem validateAgentJobAttemptUpdate_checked {old new : Attempt}
    (h : validateAgentJobAttemptUpdate db old new = .ok ()) : checkAttempt new = .ok () := by
  simp only [validateAgentJobAttemptUpdate, bind_eq_ok, require_eq_ok, exists_const] at h
  exact h.2.2.2.2.2.2.2

-- What a reported completion asks of the deployment.
theorem complete_ends {job : Job} {state : JobState} {s : Snapshot}
    (h : (if state = .dead ∨ state = .failed then transitionDeployment db job.deploymentID .failed now
      else pure db) = .ok db')
    (hstored : Every db.deployments.get? DeploymentStored)
    (hrow : db.deployments.get? job.deploymentID = some s)
    (hstate : state = .succeeded ∨ state = .retryWait ∨ state = .dead ∨ state = .failed) :
    ∃ deployments s', db' = setDeployments db deployments ∧ Ends now s state s' ∧
      deployments.get? = update db.deployments.get? job.deploymentID (some s') := by
  by_cases hfailed : state = .dead ∨ state = .failed
  · rw [if_pos hfailed] at h
    obtain ⟨deployments, s₀, s', rfl, hs₀, hmove, hget⟩ := transitionDeployment_moves h hstored
    rw [hrow] at hs₀
    cases hs₀
    exact ⟨deployments, s', rfl, .failed hfailed.symm hmove, hget⟩
  · rw [if_neg hfailed] at h
    simp only [pure_eq_ok] at h
    subst h
    refine ⟨db.deployments, s, rfl, .kept ?_, (update_row hrow).symm⟩
    rcases hstate with hs | hs | hs
    · exact .inl hs
    · exact .inr hs
    · exact absurd hs hfailed

theorem completionJobState_cases (r : CompletionReport) (attemptNumber : Nat) :
    completionJobState r attemptNumber = .succeeded ∨ completionJobState r attemptNumber = .retryWait ∨
      completionJobState r attemptNumber = .dead ∨ completionJobState r attemptNumber = .failed := by
  unfold completionJobState
  split
  · simp
  · split
    · split <;> simp
    · simp
  · simp

theorem completion_verdict {r : CompletionReport} {attemptNumber : Nat} {mark : Option Nat} (hvalid : r.valid = true) :
    Verdict attemptNumber mark r.closedState r.failureClass (completionJobState r attemptNumber) := by
  obtain ⟨outcome, failureClass, operationID, digest⟩ := r
  cases outcome with
  | succeeded =>
      simp only [CompletionReport.valid, Bool.and_eq_true, Option.isNone_iff_eq_none] at hvalid
      rw [show failureClass = none from hvalid.2]
      exact .succeeded
  | failed =>
      cases failureClass with
      | none => simp [CompletionReport.valid] at hvalid
      | some c =>
          by_cases hclass : c = .transient
          · subst hclass
            by_cases hnumber : attemptNumber < maxAttempts
            · simpa [CompletionReport.closedState, completionJobState, FailureClass.retryable, hnumber] using
                Verdict.retried hnumber
            · simpa [CompletionReport.closedState, completionJobState, FailureClass.retryable, hnumber] using
                Verdict.exhausted (Nat.le_of_not_lt hnumber)
          · simpa [CompletionReport.closedState, completionJobState, FailureClass.retryable, hclass] using
              Verdict.failed hclass

-- A job marked for cancellation is put back to waiting only by a reported transient failure that
-- leaves attempts to spare.
def Revives (r : CompletionReport) (attempt : Attempt) (job : Job) : Prop :=
  completionJobState r attempt.attemptNumber = .retryWait ∧ job.cancelRequestedAt.isSome

theorem complete_effect {draw : Nat} {r : CompletionReport} (hinv : Inv (view db))
    (h : complete now draw db serverID presented attemptID fence r = .ok (db', ())) :
    db' = db ∨ r.valid = true ∧ ∃ l, lockLease db "complete" serverID presented attemptID = .ok l ∧
      l.live now attemptID fence ∧ Holds (view db) attemptID l.attempt l.slot l.job ∧
      ¬ AttemptUnresolved (view db) attemptID ∧
      ∀ kind, (kind ≠ .revives → ¬ Revives r l.attempt l.job) → Effect now (view db) kind (view db') := by
  simp only [complete, bind_eq_ok, require_eq_ok] at h
  obtain ⟨_, ⟨-, -, -, hvalid⟩, l, hl, h⟩ := h
  split at h
  · simp only [bind_eq_ok, pure_eq_ok, Prod.mk.injEq] at h
    obtain ⟨_, -, rfl, -⟩ := h
    exact .inl rfl
  · right
    simp only [bind_eq_ok, require_eq_ok, during_eq_ok, Prod.exists, pure_eq_ok, Prod.mk.injEq] at h
    obtain ⟨_, hopen, _, hlive, db₁, _, hattempt, db₂, hslot, db₃, hjob, db₄, hdeployment, rfl, -⟩ := h
    have hholds := holds_of_occupies hl hlive.1
    have hleased := ((hinv.occupancy.holds_fitsJob hholds).leased hholds.leased).1
    obtain ⟨hchecked, rfl, -⟩ := (updateAttempt_iff hholds.attemptRow rfl).1 hattempt
    obtain ⟨-, rfl⟩ := (freeSlot_iff (by exact hholds.slotRow) hholds.occupies).1 hslot
    obtain ⟨hupdate, rfl⟩ := (endJob_iff (by exact hholds.jobRow) hleased).1 hjob
    obtain ⟨s, hs, -⟩ := hinv.pipeline.fitsDeployment _ _ hholds.jobRow
    obtain ⟨deployments, s', rfl, hends, hget⟩ := complete_ends hdeployment hinv.pipeline.stored hs
      (completionJobState_cases r l.attempt.attemptNumber)
    have hresolved : ¬ AttemptUnresolved (view db) attemptID := by
      rintro ⟨o, op, hop, hof, hunresolved⟩
      have hfence := ((hinv.activations.ofAttempt o op hop).of_row (hof ▸ hholds.attemptRow)).fence
      have := Table.any_eq_false hopen hop
      simp [hof, hfence, hlive.2.1, hunresolved] at this
    refine ⟨hvalid, l, hl, hlive, hholds, hresolved, fun kind hkind => ?_⟩
    have hclosed : r.closedState ≠ .leased := by
      unfold CompletionReport.closedState
      split <;> simp
    have he := Effect.close hholds hresolved hclosed (validateAgentJobAttemptUpdate_checked hchecked) .free
      (endedJob_available hupdate) hs hends (fun hne hmark hwait => hkind hne ⟨hwait, hmark⟩)
      (.one l.attempt.jobID attemptID (nextSequence db l.attempt.jobID)
        (completionEvent (completionJobState r l.attempt.attemptNumber)))
      (by
        unfold Unreconciled completionEvent
        split <;> simp)
      (completion_verdict hvalid)
    convert he using 1
    simp only [view_appendAgentJobEvent, view_setDeployments, view_putJob, view_putSlot, view_putAttempt, hget]
    rfl

-- A job whose cancellation has been accepted: closed, or running with a mark.
def Requested (job : Job) : Prop := job.state = .cancelled ∨ (job.state = .leased ∧ job.cancelRequestedAt.isSome)

theorem requestCancellation_effects {p : Principal} {jobID : Nat} (hinv : Inv (view db))
    (h : requestCancellation now db p jobID = .ok (db', ())) :
    Effects now Ordinary (view db) (view db') ∧ At (view db').jobs jobID Requested := by
  simp only [requestCancellation, bind_eq_ok, require_eq_ok, found_eq_ok] at h
  obtain ⟨_, -, _, -, job, hjob, _, -, h⟩ := h
  have hjob' : (view db).jobs jobID = some job := hjob
  -- a job that is not running is closed with its deployment
  have hidle (hstate : job.state = .queued ∨ job.state = .retryWait) {db₁ db₂ : DB} {rows : Nat}
      (hupdate : updateJob db jobID (fun _ => true) (fun j =>
        { j with state := .cancelled, cancelRequestedAt := some now, updatedAt := now }) = .ok (db₁, rows))
      (hdeployment : transitionDeployment db₁ job.deploymentID .cancelled now = .ok db₂) :
      Effects now Ordinary (view db) (view (appendAgentJobEvent db₂ jobID none .cancelled)) ∧
        At (view (appendAgentJobEvent db₂ jobID none .cancelled)).jobs jobID Requested := by
    obtain ⟨hvalid, rfl, -⟩ := (updateJob_iff hjob rfl).1 hupdate
    obtain ⟨-, -, -, -, -, -, -, -, hmark, -⟩ := validateAgentJobUpdate_eq_ok.1 hvalid
    obtain ⟨deployments, s, s', rfl, hs, hmove, hget⟩ :=
      transitionDeployment_moves hdeployment hinv.pipeline.stored
    have hnobody : ∀ e ∈ [(⟨jobID, nextSequence db jobID, .cancelled, none⟩ : JobEvent)], e.attemptID = none := by simp
    have he := Effect.cancel hjob' hstate (fun t ht => by
        have := hmark (by simp [Option.mem_def.1 ht])
        simpa [Option.mem_def.1 ht] using this.symm) hs hmove hnobody
    refine ⟨Effects.ordinary ?_, .intro (Table.get?_put_self _ _ _) (.inl rfl)⟩
    convert he using 1
    simp only [view_appendAgentJobEvent, view_setDeployments, view_putJob, hget]
    rfl
  split at h
  · rename_i hstate
    simp only [pure_eq_ok, Prod.mk.injEq] at h
    rw [← h.1]
    exact ⟨Effects.refl, .intro hjob' (.inl hstate)⟩
  · cases h
  · cases h
  · cases h
  · rename_i hstate
    simp only [bind_eq_ok, during_eq_ok, Prod.exists, pure_eq_ok, Prod.mk.injEq] at h
    obtain ⟨db₁, _, hupdate, db₂, hdeployment, rfl, -⟩ := h
    exact hidle (.inl hstate) hupdate hdeployment
  · rename_i hstate
    simp only [bind_eq_ok, during_eq_ok, Prod.exists, pure_eq_ok, Prod.mk.injEq] at h
    obtain ⟨db₁, _, hupdate, db₂, hdeployment, rfl, -⟩ := h
    exact hidle (.inr hstate) hupdate hdeployment
  · rename_i hstate
    split at h
    · rename_i hmarked
      simp only [pure_eq_ok, Prod.mk.injEq] at h
      rw [← h.1]
      exact ⟨Effects.refl, .intro hjob' (.inr ⟨hstate, hmarked⟩)⟩
    · rename_i hcancel
      simp only [bind_eq_ok, found_eq_ok, require_eq_ok, during_eq_ok, Prod.exists, pure_eq_ok,
        Prod.mk.injEq] at h
      obtain ⟨attemptID, attempt, hfind, s, hs, _, hquiet, db₁, _, hupdate, db₂, _, hcap, rfl, -⟩ := h
      obtain ⟨hattempt, hof⟩ := Table.find?_some hfind
      simp only [Bool.and_eq_true, beq_iff_eq] at hof
      obtain ⟨-, rfl, -⟩ := (updateJob_iff hjob rfl).1 hupdate
      obtain ⟨-, rfl, -⟩ := (updateAttempt_iff (by exact hattempt) rfl).1 hcap
      have he : Effect now (view db) .other _ := Effect.mark hjob' hstate (by simpa using hcancel) hattempt hof.2 hof.1
        hs hquiet (.one jobID attemptID (nextSequence db jobID) .cancelRequested) (by simp [Unreconciled])
      refine ⟨Effects.ordinary ?_, .intro (Table.get?_put_self _ _ _) (.inr ⟨hstate, rfl⟩)⟩
      convert he using 1
      simp only [view_appendAgentJobEvent, view_putAttempt, view_putJob]
      rfl

theorem acknowledgeCancellation_effects {operationID : String} {digest : Digest} (hinv : Inv (view db))
    (h : acknowledgeCancellation now db serverID presented attemptID fence operationID digest = .ok (db', ())) :
    db' = db ∨ ((∃ attempt slot job, Holds (view db) attemptID attempt slot job ∧
      now < attempt.authorityExpiresAt) ∧ Effect now (view db) .other (view db')) := by
  simp only [acknowledgeCancellation, bind_eq_ok, require_eq_ok] at h
  obtain ⟨_, -, l, hl, h⟩ := h
  split at h
  · simp only [bind_eq_ok, pure_eq_ok, Prod.mk.injEq] at h
    obtain ⟨_, -, rfl, -⟩ := h
    exact .inl rfl
  · right
    simp only [bind_eq_ok, require_eq_ok, during_eq_ok, Prod.exists, pure_eq_ok, Prod.mk.injEq] at h
    obtain ⟨_, hmark, _, hlive, db₁, _, hattempt, db₂, hslot, db₃, hjob, db₄, hdeployment, rfl, -⟩ := h
    have hholds := holds_of_occupies hl hlive.1
    have hleased := ((hinv.occupancy.holds_fitsJob hholds).leased hholds.leased).1
    obtain ⟨hchecked, rfl, -⟩ := (updateAttempt_iff hholds.attemptRow rfl).1 hattempt
    obtain ⟨-, rfl⟩ := (freeSlot_iff (by exact hholds.slotRow) hholds.occupies).1 hslot
    rw [closeJob_eq_endJob (by simp)] at hjob
    obtain ⟨hupdate, rfl⟩ := (endJob_iff (by exact hholds.jobRow) hleased).1 hjob
    obtain ⟨deployments, s, s', rfl, hs, hmove, hget⟩ :=
      transitionDeployment_moves hdeployment hinv.pipeline.stored
    -- an unresolved activation would mean an unmarked job
    have hresolved : ¬ AttemptUnresolved (view db) attemptID := by
      rintro ⟨o, op, hop, hof, hunresolved⟩
      have hofAttempt := (hinv.activations.ofAttempt o op hop).of_row (hof ▸ hholds.attemptRow)
      have hunmarked := ((hinv.activations.ofJob o op hop).of_row (hofAttempt.job ▸ hholds.jobRow)).unmarked
      simp [hunmarked hunresolved] at hmark
    refine ⟨⟨l.attempt, l.slot, l.job, hholds, hlive.2.2⟩, ?_⟩
    have he : Effect now (view db) .other _ := Effect.close hholds hresolved (by simp)
      (validateAgentJobAttemptUpdate_checked hchecked) .free (endedJob_available hupdate) hs (.cancelled hmove) (by simp)
      (.one l.attempt.jobID attemptID (nextSequence db l.attempt.jobID) .cancelled) (by simp [Unreconciled])
      (hinv.occupancy.leased_unclassed hholds ▸ .cancelled hmark)
    convert he using 1
    simp only [view_appendAgentJobEvent, view_setDeployments, view_putJob, view_putSlot, view_putAttempt, hget]
    rfl

theorem authorizeLease_holds {purpose : String}
    (h : authorizeLease now db purpose serverID presented attemptID fence = .ok l) :
    Holds (view db) attemptID l.attempt l.slot l.job ∧ now < l.attempt.authorityExpiresAt := by
  simp only [authorizeLease, bind_eq_ok, require_eq_ok, pure_eq_ok] at h
  obtain ⟨_, -, l, hl, _, ⟨-, -, hlive⟩, rfl⟩ := h
  exact ⟨holds_of_occupies hl hlive.1, hlive.2.2⟩

theorem reportProgress_effects {phase : Status} (hinv : Inv (view db))
    (h : reportProgress now db serverID presented attemptID fence phase = .ok (db', ())) :
    Effects now Ordinary (view db) (view db') := by
  simp only [reportProgress, bind_eq_ok, require_eq_ok, found_eq_ok] at h
  obtain ⟨_, hphase, l, hl, s, hs, order, -, h⟩ := h
  split at h
  · simp only [pure_eq_ok, Prod.mk.injEq] at h
    rw [← h.1]
    exact Effects.refl
  · simp only [bind_eq_ok, require_eq_ok, pure_eq_ok, Prod.mk.injEq] at h
    obtain ⟨_, -, db₁, hdeployment, rfl, -⟩ := h
    obtain ⟨deployments, s, s', rfl, hs, hmove, hget⟩ :=
      transitionDeployment_moves hdeployment hinv.pipeline.stored
    have he := Effect.progress (authorizeLease_holds hl).1 hphase hs hmove
    refine Effects.ordinary ?_
    convert he using 1
    simp only [view_setDeployments, hget]
    rfl

end

end AutoDeploy.Protocol
