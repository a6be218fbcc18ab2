import AutoDeploy.Protocol.Refinement.Activation

namespace AutoDeploy.Protocol

open Function Lib Lib.Result Queue Store Deployment

-- What the sweeper and the revocation of a server do to the protocol's rows.

section

variable {db db' : DB} {now draw attemptID : Nat} {attempt : Attempt} {slot : Slot} {job : Job}

theorem inFlight_eq_some (h : inFlight db attemptID = some (attempt, job)) :
    ∃ slot, Holds (view db) attemptID attempt slot job ∧ job.state = .leased := by
  simp only [inFlight, Option.bind_eq_bind, Option.bind_eq_some_iff] at h
  obtain ⟨a, hattempt, slot, hslot, j, hjob, h⟩ := h
  split at h
  · rename_i hcond
    obtain ⟨hcurrent, hstate, hleased⟩ := hcond
    cases h
    exact ⟨slot, ⟨hattempt, hslot, hjob, hleased, hcurrent⟩, hstate⟩
  · cases h

theorem inFlight_of_holds (hinv : Inv (view db)) (hholds : Holds (view db) attemptID attempt slot job) :
    inFlight db attemptID = some (attempt, job) := by
  have hjob := ((hinv.occupancy.holds_fitsJob hholds).leased hholds.leased).1
  have h₁ : db.attempts.get? attemptID = some attempt := hholds.attemptRow
  have h₂ : db.slots.get? attempt.environmentID = some slot := hholds.slotRow
  have h₃ : db.jobs.get? attempt.jobID = some job := hholds.jobRow
  simp [inFlight, h₁, h₂, h₃, hholds.occupies, hjob, hholds.leased]

-- The activation a diversion looks for.
theorem findUnresolved_none (hinv : Inv (view db)) (hholds : Holds (view db) attemptID attempt slot job)
    (h : db.operations.find? (fun _ op => op.attemptID == attemptID && op.environmentID == attempt.environmentID &&
      unresolvedActivation op.state) = none) : ¬ AttemptUnresolved (view db) attemptID := by
  rintro ⟨id, op, hop, rfl, hunresolved⟩
  have henvironment := ((hinv.activations.ofAttempt id op hop).of_row hholds.attemptRow).environment
  simpa [henvironment, hunresolved] using Table.find?_none h hop

theorem divert_cases {diverted : Bool} (hinv : Inv (view db))
    (hholds : Holds (view db) attemptID attempt slot job)
    (h : divertUnresolvedActivation now db attempt.jobID attemptID attempt.environmentID = .ok (db', diverted)) :
    (diverted = false ∧ db' = db ∧ ¬ AttemptUnresolved (view db) attemptID) ∨
      (diverted = true ∧ AttemptUnresolved (view db) attemptID ∧
        (db' = db ∨ Effect now (view db) .other (view db'))) := by
  unfold divertUnresolvedActivation at h
  split at h
  · rename_i hnone
    simp only [pure_eq_ok, Prod.mk.injEq] at h
    exact .inl ⟨h.2.symm, h.1.symm, findUnresolved_none hinv hholds hnone⟩
  · rename_i operationID op hfind
    obtain ⟨hop, hof⟩ := Table.find?_some hfind
    simp only [Bool.and_eq_true, beq_iff_eq] at hof
    have hunresolved : AttemptUnresolved (view db) attemptID := ⟨operationID, op, hop, hof.1.1, hof.2⟩
    split at h
    · simp only [pure_eq_ok, Prod.mk.injEq] at h
      exact .inr ⟨h.2.symm, hunresolved, .inl h.1.symm⟩
    · rename_i hstate
      simp only [ne_eq, not_not] at hstate
      simp only [bind_eq_ok, pure_eq_ok, Prod.mk.injEq] at h
      obtain ⟨db₁, hblock, rfl, rfl⟩ := h
      exact .inr ⟨rfl, hunresolved, .inr (block_effect hinv ⟨hholds, hop, hof.1.1, hof.2⟩ hstate
        (Bytes.ofString_ne_nil (by simp)) hblock).1⟩

theorem closedJobState_cases (cancelRequested : Bool) (attemptNumber : Nat) :
    (cancelRequested = true ∧ closedJobState cancelRequested attemptNumber = .cancelled) ∨
      (cancelRequested = false ∧ closedJobState cancelRequested attemptNumber = .dead) ∨
      (cancelRequested = false ∧ closedJobState cancelRequested attemptNumber = .retryWait) := by
  unfold closedJobState
  cases cancelRequested with
  | true => simp
  | false => by_cases hlast : maxAttempts ≤ attemptNumber <;> simp [hlast]

-- What the end of a lease asks of the deployment.
theorem closure_ends {deploymentID : String} {cancelRequested : Bool} {attemptNumber : Nat} {s : Snapshot}
    (h : (if closedJobState cancelRequested attemptNumber = .cancelled then
        transitionDeployment db deploymentID .cancelled now
      else if closedJobState cancelRequested attemptNumber = .dead then
        transitionDeployment db deploymentID .failed now
      else pure db) = .ok db')
    (hstored : Every db.deployments.get? DeploymentStored) (hrow : db.deployments.get? deploymentID = some s) :
    ∃ deployments s', db' = setDeployments db deployments ∧
      Ends now s (closedJobState cancelRequested attemptNumber) s' ∧
      deployments.get? = update db.deployments.get? deploymentID (some s') := by
  rcases closedJobState_cases cancelRequested attemptNumber with ⟨-, hstate⟩ | ⟨-, hstate⟩ | ⟨-, hstate⟩
  · simp only [hstate, if_true] at h
    obtain ⟨deployments, s₀, s', rfl, hs₀, hmove, hget⟩ := transitionDeployment_moves h hstored
    rw [hrow] at hs₀
    cases hs₀
    exact ⟨deployments, s', rfl, hstate ▸ .cancelled hmove, hget⟩
  · simp only [hstate, reduceCtorEq, if_false, if_true] at h
    obtain ⟨deployments, s₀, s', rfl, hs₀, hmove, hget⟩ := transitionDeployment_moves h hstored
    rw [hrow] at hs₀
    cases hs₀
    exact ⟨deployments, s', rfl, hstate ▸ .failed (.inr rfl) hmove, hget⟩
  · simp only [hstate, reduceCtorEq, if_false, pure_eq_ok] at h
    subst h
    exact ⟨db.deployments, s, rfl, hstate ▸ .kept (.inr rfl), (update_row hrow).symm⟩

theorem closureEvents_plain (cancelRequested : Bool) (state : JobState) :
    .reconciled ∉ closureEvents cancelRequested state := by
  unfold closureEvents
  split
  · simp
  · split <;> simp

theorem closure_verdict {mark : Option Nat} {attemptNumber : Nat} :
    Verdict attemptNumber mark (if mark.isSome then .cancelled else .expired) none
      (closedJobState mark.isSome attemptNumber) := by
  cases mark with
  | some t => exact .cancelled rfl
  | none =>
      by_cases hnumber : maxAttempts ≤ attemptNumber
      · simpa [closedJobState, hnumber] using Verdict.died rfl hnumber
      · simpa [closedJobState, hnumber] using Verdict.expired rfl (Nat.lt_of_not_le hnumber)

theorem closeAttemptOrdinary_effect (hinv : Inv (view db)) (hholds : Holds (view db) attemptID attempt slot job)
    (hresolved : ¬ AttemptUnresolved (view db) attemptID)
    (h : closeAttemptOrdinary now draw db attempt.jobID attemptID attempt.environmentID attempt.attemptNumber
      job.deploymentID job.cancelRequestedAt.isSome = .ok db') : Effect now (view db) .other (view db') := by
  have hleased := ((hinv.occupancy.holds_fitsJob hholds).leased hholds.leased).1
  obtain ⟨s, hs, -⟩ := hinv.pipeline.fitsDeployment _ _ hholds.jobRow
  simp only [closeAttemptOrdinary, bind_eq_ok, during_eq_ok, Prod.exists, pure_eq_ok] at h
  obtain ⟨db₁, _, hattempt, db₂, _, hslot, db₃, hjob, db₄, hdeployment, rfl⟩ := h
  obtain ⟨hchecked, rfl, -⟩ := (updateAttempt_iff hholds.attemptRow rfl).1 hattempt
  obtain ⟨-, rfl, -⟩ := (updateSlot_iff (by exact hholds.slotRow) rfl).1 hslot
  obtain ⟨hupdate, rfl⟩ := (endJob_iff (by exact hholds.jobRow) hleased).1 hjob
  obtain ⟨deployments, s', rfl, hends, hget⟩ := closure_ends hdeployment hinv.pipeline.stored hs
  obtain ⟨events, hevents, htypes, hview⟩ := view_appendEvents (setDeployments (putJob (putSlot (putAttempt db attemptID _)
    attempt.environmentID _) attempt.jobID _) deployments) attempt.jobID attemptID
    (closureEvents job.cancelRequestedAt.isSome (closedJobState job.cancelRequestedAt.isSome attempt.attemptNumber))
  have he : Effect now (view db) .other _ := Effect.close hholds hresolved (by split <;> simp) (validateAgentJobAttemptUpdate_checked hchecked) .retire
    (endedJob_available hupdate) hs hends
    (fun _ hmark => by rw [hmark]; simp [closedJobState]) hevents
    (unreconciled_of_types (htypes ▸ closureEvents_plain _ _))
    (hinv.occupancy.leased_unclassed hholds ▸ closure_verdict)
  rw [hview]
  convert he using 1
  simp only [view_setDeployments, view_putJob, view_putSlot, view_putAttempt, hget]
  rfl

-- An attempt whose authority ended is closed, unless it holds an unresolved activation.
theorem closeExpiredOrRevokedAttempt_cases {diverted : Bool} (hinv : Inv (view db))
    (hholds : Holds (view db) attemptID attempt slot job)
    (h : closeExpiredOrRevokedAttempt now draw db attempt.jobID attemptID attempt.environmentID attempt.attemptNumber
      job.deploymentID job.cancelRequestedAt.isSome = .ok (db', diverted)) :
    (diverted = false ∧ ¬ AttemptUnresolved (view db) attemptID ∧ Effect now (view db) .other (view db')) ∨
      (diverted = true ∧ AttemptUnresolved (view db) attemptID ∧
        (db' = db ∨ Effect now (view db) .other (view db'))) := by
  simp only [closeExpiredOrRevokedAttempt, bind_eq_ok, Prod.exists] at h
  obtain ⟨db₁, diverted₁, hdivert, h⟩ := h
  rcases divert_cases hinv hholds hdivert with ⟨rfl, rfl, hresolved⟩ | ⟨rfl, hunresolved, heffect⟩
  · simp only [Bool.false_eq_true, if_false, bind_eq_ok, pure_eq_ok, Prod.mk.injEq] at h
    obtain ⟨db₂, hclose, rfl, rfl⟩ := h
    exact .inl ⟨rfl, hresolved, closeAttemptOrdinary_effect hinv hholds hresolved hclose⟩
  · simp only [if_true, pure_eq_ok, Prod.mk.injEq] at h
    obtain ⟨rfl, rfl⟩ := h
    exact .inr ⟨rfl, hunresolved, heffect⟩

theorem closeExpiredOrRevokedAttempt_effects {diverted : Bool} (hinv : Inv (view db))
    (hholds : Holds (view db) attemptID attempt slot job)
    (h : closeExpiredOrRevokedAttempt now draw db attempt.jobID attemptID attempt.environmentID attempt.attemptNumber
      job.deploymentID job.cancelRequestedAt.isSome = .ok (db', diverted)) :
    Effects now Ordinary (view db) (view db') := by
  rcases closeExpiredOrRevokedAttempt_cases hinv hholds h with ⟨-, -, he⟩ | ⟨-, -, rfl | he⟩
  · exact Effects.ordinary he
  · exact Effects.refl
  · exact Effects.ordinary he

theorem expireOne_effects {closed : Bool} (hinv : Inv (view db))
    (h : expireOne now draw db attemptID = .ok (db', closed)) : Effects now Ordinary (view db) (view db') := by
  unfold expireOne at h
  split at h
  · simp only [pure_eq_ok, Prod.mk.injEq] at h
    rw [← h.1]
    exact Effects.refl
  · rename_i attempt job hflight
    obtain ⟨slot, hholds, -⟩ := inFlight_eq_some hflight
    split at h
    · simp only [pure_eq_ok, Prod.mk.injEq] at h
      rw [← h.1]
      exact Effects.refl
    · simp only [bind_eq_ok, Prod.exists, pure_eq_ok, Prod.mk.injEq] at h
      obtain ⟨_, diverted, hclose, rfl, -⟩ := h
      exact closeExpiredOrRevokedAttempt_effects hinv hholds hclose

theorem revokeLoop_effects {draws : Nat → Nat} {attempts : List Nat} (hinv : Inv (view db))
    (h : revokeLoop now draws attempts db = .ok db') : Effects now Ordinary (view db) (view db') := by
  induction attempts generalizing db with
  | nil =>
      simp only [revokeLoop, pure_eq_ok] at h
      rw [h]
      exact Effects.refl
  | cons attemptID rest ih =>
      simp only [revokeLoop] at h
      split at h
      · exact ih hinv h
      · rename_i attempt job hflight
        obtain ⟨slot, hholds, -⟩ := inFlight_eq_some hflight
        simp only [bind_eq_ok, Prod.exists] at h
        obtain ⟨db₁, diverted, hclose, h⟩ := h
        have hfirst := closeExpiredOrRevokedAttempt_effects hinv hholds hclose
        exact hfirst.trans (ih (hinv.effects hfirst) h)

theorem revokeServer_effects {draws : Nat → Nat} {p : Principal} {serverID reason : String} (hinv : Inv (view db))
    (h : revokeServer now draws db p serverID reason = .ok (db', ())) : Effects now Ordinary (view db) (view db') := by
  simp only [revokeServer, revokeInFlightLeases, bind_eq_ok, pure_eq_ok, Prod.mk.injEq] at h
  obtain ⟨_, -, _, -, server, -, _, -, _, -, db₁, hloop, rfl, -⟩ := h
  -- servers and credentials are not rows of the protocol
  split at hloop
  · have heffects := revokeLoop_effects (by exact hinv) hloop
    exact heffects
  · have heffects := revokeLoop_effects (by exact hinv) hloop
    exact heffects

end

end AutoDeploy.Protocol
