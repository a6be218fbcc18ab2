import AutoDeploy.Protocol.Reconciliations
import AutoDeploy.Protocol.Refinement.Closure

namespace AutoDeploy.Protocol

open Function Lib Lib.Result Queue Store Deployment

-- What the reconciliations do to the protocol's rows.

def Recorded (v : View) (jobID attemptID : Nat) : Prop :=
  ∃ e ∈ v.jobEvents, e.jobID = jobID ∧ e.attemptID = some attemptID ∧ e.eventType = .reconciled

section

variable {db db' : DB} {now attemptID operationID : Nat} {environmentID : String} {attempt : Attempt} {slot : Slot}
  {job : Job} {op : Operation} {d : DeclaredResolution}

-- A slot flagged by a closed attempt is not held by an unresolved activation.
theorem resolved_of_closed (hinv : Inv (view db)) (hslot : db.slots.get? environmentID = some slot)
    (hflag : slot.reconciliationAttemptID = some attemptID) (hattempt : db.attempts.get? attemptID = some attempt)
    (hclosed : attempt.state ≠ .leased) : ¬ Unresolved (view db) environmentID := by
  rintro ⟨id, op, hop, rfl, hunresolved⟩
  obtain ⟨attempt', slot', job', hholds, hof, -⟩ := hinv.activations.holds hinv.occupancy hop hunresolved
  obtain rfl : slot' = slot := by
    have hslot' : db.slots.get? attempt'.environmentID = some slot' := hholds.slotRow
    rw [← hof.environment, hslot] at hslot'
    exact (Option.some.inj hslot').symm
  rcases hholds.flag hinv.occupancy with hnone | hsome
  · rw [hflag] at hnone
    cases hnone
  · rw [hflag] at hsome
    cases hsome
    have hattempt' : db.attempts.get? op.attemptID = some attempt' := hholds.attemptRow
    rw [hattempt] at hattempt'
    cases hattempt'
    exact hclosed hholds.leased

theorem not_unresolved_of_any
    (h : db.operations.any (fun _ op => op.environmentID == environmentID && unresolvedActivation op.state) = false) :
    ¬ Unresolved (view db) environmentID := by
  rintro ⟨id, op, hop, henv, hunresolved⟩
  simpa [henv, hunresolved] using Table.any_eq_false h hop

theorem recorded_append (db : DB) (jobID attemptID : Nat) :
    Recorded (view (appendAgentJobEvent db jobID (some attemptID) .reconciled)) jobID attemptID := by
  simp only [Recorded, view_appendAgentJobEvent]
  exact ⟨_, List.mem_append_right _ (List.mem_singleton.2 rfl), rfl, rfl, rfl⟩

theorem clearSlotFlag_effect (hslot : db.slots.get? environmentID = some slot)
    (hflag : slot.reconciliationAttemptID = some attemptID) (hresolved : ¬ Unresolved (view db) environmentID)
    (hattempt : db.attempts.get? attemptID = some attempt)
    (h : clearSlotFlag now db environmentID attempt.jobID attemptID = .ok db') :
    Effect now (view db) .other (view db') ∧ Recorded (view db') attempt.jobID attemptID ∧
      db'.operations = db.operations := by
  simp only [clearSlotFlag, bind_eq_ok, during_eq_ok, Prod.exists, pure_eq_ok] at h
  obtain ⟨db₁, _, hupdate, rfl⟩ := h
  obtain ⟨-, rfl, -⟩ := (updateSlot_iff hslot rfl).1 hupdate
  have he : Effect now (view db) .other _ := Effect.clear hslot hflag hresolved hattempt
    (.one attempt.jobID attemptID (nextSequence db attempt.jobID) .reconciled)
  refine ⟨?_, recorded_append _ _ _, rfl⟩
  convert he using 1
  simp only [view_appendAgentJobEvent, view_putSlot]
  rfl

theorem clearPlainReconciliation_effect {p : Principal} {reason : String}
    (hslot : db.slots.get? environmentID = some slot)
    (hflag : slot.reconciliationAttemptID = some attemptID) (hresolved : ¬ Unresolved (view db) environmentID)
    (hattempt : db.attempts.get? attemptID = some attempt)
    (h : clearPlainReconciliation now db p environmentID attempt.jobID attemptID reason = .ok db') :
    Effect now (view db) .other (view db') ∧ Recorded (view db') attempt.jobID attemptID ∧
      db'.operations = db.operations := by
  simp only [clearPlainReconciliation, bind_eq_ok, during_eq_ok, Prod.exists, pure_eq_ok] at h
  obtain ⟨db₁, _, hupdate, rfl⟩ := h
  obtain ⟨-, rfl, -⟩ := (updateSlot_iff hslot rfl).1 hupdate
  have he : Effect now (view db) .other _ := Effect.clear hslot hflag hresolved hattempt
    (.one attempt.jobID attemptID (nextSequence db attempt.jobID) .reconciled)
  refine ⟨?_, recorded_append _ _ _, rfl⟩
  convert he using 1
  simp only [view_appendAgentJobEvent, view_insertServerAuditEvent, view_putSlot]
  rfl

theorem reconcile_effects {serverID : String} {presented : Digest} {fence : Nat} (hinv : Inv (view db))
    (h : reconcile now db serverID presented environmentID attemptID fence = .ok (db', ())) :
    Effects now Ordinary (view db) (view db') := by
  simp only [reconcile, bind_eq_ok, require_eq_ok, found_eq_ok] at h
  obtain ⟨_, -, _, -, slot, hslot, attempt, hattempt, _, ⟨-, -, -, hclosed, -⟩, _, -, h⟩ := h
  split at h
  · simp only [bind_eq_ok, pure_eq_ok, Prod.mk.injEq] at h
    obtain ⟨_, -, rfl, -⟩ := h
    exact Effects.refl
  · rename_i hflag
    simp only [ne_eq, not_not] at hflag
    simp only [bind_eq_ok, pure_eq_ok, Prod.mk.injEq] at h
    obtain ⟨_, hclear, rfl, -⟩ := h
    exact Effects.ordinary (clearSlotFlag_effect hslot hflag (resolved_of_closed hinv hslot hflag hattempt hclosed)
      hattempt hclear).1

theorem flaggedJob_eq_ok {jobID : Nat} (h : flaggedJob db attemptID = .ok (jobID, job)) :
    ∃ attempt, db.attempts.get? attemptID = some attempt ∧ attempt.jobID = jobID ∧
      db.jobs.get? attempt.jobID = some job := by
  simp only [flaggedJob, bind_eq_ok, found_eq_ok, pure_eq_ok, Prod.mk.injEq] at h
  obtain ⟨attempt, hattempt, job', hjob, rfl, rfl⟩ := h
  exact ⟨attempt, hattempt, rfl, hjob⟩

theorem markReconciled_effects {p : Principal} {reason : String}
    (h : markReconciled now db p environmentID reason = .ok (db', ())) :
    Effects now Ordinary (view db) (view db') := by
  simp only [markReconciled, bind_eq_ok, require_eq_ok, found_eq_ok, Prod.exists, pure_eq_ok, Prod.mk.injEq] at h
  obtain ⟨_, -, _, -, slot, hslot, attemptID, hflag, jobID, job, hjob, _, -, _, hany, _, hclear, rfl, -⟩ := h
  obtain ⟨attempt, hattempt, rfl, -⟩ := flaggedJob_eq_ok hjob
  exact Effects.ordinary (clearPlainReconciliation_effect hslot hflag (not_unresolved_of_any hany) hattempt hclear).1

theorem declaredSummary_ne_nil {existing : Bytes} (outcome : ActivationOutcome) (h : existing ≠ []) :
    declaredSummary existing outcome ≠ [] := by
  simp only [declaredSummary, h, if_false]
  split
  · exact h
  · simp [h]

theorem declaredSummary_kept (existing : Bytes) (outcome : ActivationOutcome) :
    existing <+: declaredSummary existing outcome := by
  have hkept (full : Prop) [Decidable full] (marker : Bytes) :
      existing <+: if full then existing else existing ++ marker := by
    split
    · exact List.prefix_rfl
    · exact List.prefix_append _ _
  exact hkept _ _

-- The flag of a route head is cleared unless it is clear already.
theorem unflag_eq_ok {head : RouteHead}
    (h : (if (some head).any (fun h => h.reconciliationRequired) then unflagRouteHead now db environmentID
      else pure db) = .ok db')
    (hrow : db.routeHeads.get? environmentID = some head) :
    ∃ heads, db' = setRouteHeads db heads ∧
      heads.get? = update db.routeHeads.get? environmentID (some (unflagged now head)) := by
  split at h
  · rename_i hset
    simp only [Option.any_some] at hset
    simp only [unflagRouteHead, bind_eq_ok, during_eq_ok, Prod.exists, pure_eq_ok] at h
    obtain ⟨_, _, hupdate, _, -, rfl⟩ := h
    obtain ⟨-, rfl, -⟩ := (updateRouteHead_iff hrow (by simp [hset])).1 hupdate
    exact ⟨_, rfl, by simp [unflagged, hset]⟩
  · rename_i hclear
    simp only [Option.any_some, Bool.not_eq_true] at hclear
    simp only [pure_eq_ok] at h
    subst h
    exact ⟨db.routeHeads, rfl, by simp [unflagged, hclear, update_row hrow]⟩

theorem resolveNotActivated_effect {summary : Bytes} {head : RouteHead} {extra : List JobEvent} (hinv : Inv (view db))
    (hsummary : summary ≠ []) (hkept : op.outcomeSummary <+: summary)
    (hopen : Open (view db) attemptID operationID attempt slot job op) (hstate : op.state = .reconciliationRequired)
    (hhead : db.routeHeads.get? attempt.environmentID = some head)
    (h : resolveNotActivated now db attempt.jobID attemptID operationID attempt.environmentID job.deploymentID
      ((some head).any fun h => h.reconciliationRequired) summary = .ok db')
    (hextra : Concerns attempt.jobID attemptID extra) :
    Effect now (view db) .other { view db' with jobEvents := (view db').jobEvents ++ extra } ∧
      Concluded (view db') attemptID operationID attempt job .notActivated := by
  have hholds := hopen.holds
  have hleased := ((hinv.occupancy.holds_fitsJob hholds).leased hholds.leased).1
  have hof := hopen.ofAttemptRow hinv
  have hflag : slot.reconciliationAttemptID = some attemptID := by
    have := (hinv.activations.ofSlot operationID op hopen.operationRow hstate).of_row (hof.environment ▸ hholds.slotRow)
    rw [this, hopen.ofAttempt]
  simp only [resolveNotActivated, bind_eq_ok] at h
  obtain ⟨db₁, hdeployment, db₂, hunflag, h⟩ := h
  obtain ⟨deployments, s, s', rfl, hs, hmove, hget⟩ := transitionDeployment_moves hdeployment hinv.pipeline.stored
  obtain ⟨heads, rfl, hheads⟩ := unflag_eq_ok hunflag hhead
  simp only [during_eq_ok, Prod.exists, pure_eq_ok] at h
  obtain ⟨db₃, _, hoperation, _, -, db₄, _, hattempt, _, -, db₅, _, hslot, _, -, db₆, _, hjob, _, -, rfl⟩ := h
  obtain ⟨hvalid, rfl, -⟩ := (updateOperation_iff (by exact hopen.operationRow) (by simp [hstate])).1 hoperation
  obtain ⟨hchecked, rfl, -⟩ := (updateAttempt_iff (by exact hholds.attemptRow) (by simp [hholds.leased])).1 hattempt
  obtain ⟨-, rfl, -⟩ := (updateSlot_iff (by exact hholds.slotRow) (by simp [hholds.occupies, hflag])).1 hslot
  obtain ⟨-, rfl, -⟩ := (updateJob_iff (by exact hholds.jobRow) (by simp [hleased])).1 hjob
  obtain ⟨events, hevents, -, hview⟩ := view_appendEvents _ attempt.jobID attemptID [.activationNotActivated, .failed]
  simp only [List.foldl_cons, List.foldl_nil] at hview
  have he := Effect.abandon hholds hopen.operationRow hopen.ofAttempt hstate hs hmove hhead
    (validateReleaseOperationUpdate_checked hvalid fun _ => hsummary) (validateAgentJobAttemptUpdate_checked hchecked)
    (hevents.append hextra) hkept
  rw [hview]
  refine ⟨?_, ?_⟩
  · convert he using 1
    simp only [view_putJob, view_putSlot, view_putAttempt, view_putOperation, view_setRouteHeads, view_setDeployments,
      hget, hheads, List.append_assoc]
    rfl
  · simp only [view_putJob, view_putSlot, view_putAttempt, view_putOperation, view_setRouteHeads, view_setDeployments,
      hget, hheads]
    refine ⟨.write_self ⟨hopen.ofAttempt, rfl⟩, .write_self ⟨rfl, rfl⟩, .write_self rfl, .write_self hmove.status,
      .write_self ⟨rfl, rfl⟩, .write_self ?_⟩
    unfold unflagged
    split
    · rfl
    · rename_i hclear
      simpa using hclear

-- The declared resolution of an open activation.
theorem resolveOperation_effect (hinv : Inv (view db))
    (hopen : Open (view db) d.attemptID operationID attempt slot job op)
    (henvironment : d.environmentID = attempt.environmentID) (hjobID : d.jobID = attempt.jobID)
    (haudit : ∀ db, view (d.audit db) = view db)
    (h : resolveOperation now db d job attempt operationID op = .ok db') :
    Effect now (view db) .other (view db') ∧ Recorded (view db') d.jobID d.attemptID ∧
      (d.outcome = .activated → ∀ digest ∈ d.outcomeDigest, digest = op.routeDigest) ∧
      Answers (view db') d.attemptID op.routeDigest d.outcome ∧
      Concluded (view db') d.attemptID operationID attempt job d.outcome := by
  obtain ⟨head, hhead, -⟩ := hopen.head hinv
  have hhead' : db.routeHeads.get? attempt.environmentID = some head := hhead
  simp only [resolveOperation, bind_eq_ok, require_eq_ok] at h
  obtain ⟨_, hoperates, _, hstate, _, -, _, -, _, -, _, -, _, hdigest, deployment, -, _, -, db₁, hbody, _, -, h⟩ := h
  simp only [pure_eq_ok] at h
  subst h
  have hrecorded := recorded_append (d.audit db₁) d.jobID d.attemptID
  have hextra : Concerns attempt.jobID d.attemptID
      [⟨d.jobID, nextSequence (d.audit db₁) d.jobID, .reconciled, some d.attemptID⟩] := by
    simp [Concerns, hjobID]
  by_cases hactivated : d.outcome = .activated
  · rw [if_pos hactivated] at hbody
    have hinput : declaredFinalizeInput d job operationID op =
        openInput d.attemptID operationID attempt job op op.routeDigest (declaredSummary op.outcomeSummary d.outcome) := by
      simp only [declaredFinalizeInput, openInput, henvironment, hjobID, hstate]
    rw [hinput] at hbody
    obtain ⟨he, ⟨o, ho, hof, hsucceeded, hroute⟩, hconcluded⟩ := finalize_effect hinv hopen hbody hextra
    refine ⟨?_, hrecorded, hdigest, ?_, ?_⟩
    · rw [view_appendAgentJobEvent, haudit]
      exact he
    · rw [hactivated, view_appendAgentJobEvent, haudit]
      exact ⟨operationID, o, ho, hof, hsucceeded, hroute⟩
    · rw [hactivated, view_appendAgentJobEvent, haudit]
      exact hconcluded.events _
  · rw [if_neg hactivated] at hbody
    have hnot : d.outcome = .notActivated := by
      cases houtcome : d.outcome with
      | activated => exact absurd houtcome hactivated
      | notActivated => rfl
      | noActivation => exact absurd houtcome hoperates
    simp only [henvironment, hjobID, hhead'] at hbody
    have hsummary := declaredSummary_ne_nil d.outcome
      ((hinv.activations.checked operationID op hopen.operationRow).1.evidence (.inl hstate))
    obtain ⟨he, hconcluded⟩ := resolveNotActivated_effect hinv hsummary
      (declaredSummary_kept _ _) hopen hstate hhead' hbody hextra
    refine ⟨?_, hrecorded, hdigest, ?_, ?_⟩
    · rw [view_appendAgentJobEvent, haudit]
      exact he
    · rw [hnot, view_appendAgentJobEvent, haudit]
      obtain ⟨o, ho, hof, hfailed⟩ := hconcluded.operationRow
      exact ⟨operationID, o, ho, hof, hfailed⟩
    · rw [hnot, view_appendAgentJobEvent, haudit]
      exact hconcluded.events _

theorem unresolvedOperation_none (h : unresolvedOperation db environmentID = none) :
    ¬ Unresolved (view db) environmentID := by
  rintro ⟨id, op, hop, henv, hunresolved⟩
  simpa [henv, hunresolved] using Table.find?_none h hop

theorem unresolvedOperation_some (h : unresolvedOperation db environmentID = some (operationID, op)) :
    db.operations.get? operationID = some op ∧ op.environmentID = environmentID ∧
      unresolvedActivation op.state = true := by
  obtain ⟨hrow, hp⟩ := Table.find?_some h
  simp only [Bool.and_eq_true, beq_iff_eq] at hp
  exact ⟨hrow, hp⟩

-- What a first declared resolution leaves behind.
structure Declares (now : Nat) (db db' : DB) (jobID attemptID : Nat) (outcome : ActivationOutcome)
    (declared : Option Digest) : Prop where
  effect : Effect now (view db) .other (view db')
  recorded : Recorded (view db') jobID attemptID
  answers : ∃ digest, (outcome = .activated → ∀ x ∈ declared, x = digest) ∧
    Answers (view db') attemptID digest outcome

theorem resolveDeclared_declares (hinv : Inv (view db)) (hrecon : Reconciliations (view db))
    (hslot : db.slots.get? d.environmentID = some slot) (hflag : slot.reconciliationAttemptID = some d.attemptID)
    (hattempt : db.attempts.get? d.attemptID = some attempt) (hjobID : d.jobID = attempt.jobID)
    (haudit : ∀ db, view (d.audit db) = view db)
    (hplain : ∀ db', d.clearPlain db = .ok db' → ¬ Unresolved (view db) d.environmentID →
      Effect now (view db) .other (view db') ∧ Recorded (view db') d.jobID d.attemptID ∧
        db'.operations = db.operations)
    (h : resolveDeclared now db d = .ok db') :
    Declares now db db' d.jobID d.attemptID d.outcome d.outcomeDigest := by
  simp only [resolveDeclared, bind_eq_ok, found_eq_ok] at h
  obtain ⟨job, hjob, attempt', hattempt', _, -, h⟩ := h
  rw [hattempt] at hattempt'
  cases hattempt'
  split at h
  · rename_i hnone
    simp only [bind_eq_ok, require_eq_ok] at h
    obtain ⟨_, houtcome, _, -, hclear⟩ := h
    have hresolved := unresolvedOperation_none hnone
    obtain ⟨he, hrecorded, hoperations⟩ := hplain db' hclear hresolved
    refine ⟨he, hrecorded, d.outcomeDigest.getD (Sha256.sum []), by simp [houtcome], ?_⟩
    rw [houtcome]
    intro id op hrow
    have hrow' : (view db).operations id = some op := by
      rw [← show (view db').operations = (view db).operations from congrArg Table.get? hoperations]
      exact hrow
    exact hrecon.no_activation hinv hslot hflag hresolved hattempt hrow'
  · rename_i operationID op hfind
    simp only [bind_eq_ok, require_eq_ok] at h
    obtain ⟨_, hof, h⟩ := h
    obtain ⟨hoperation, henvironment, hunresolved⟩ := unresolvedOperation_some hfind
    obtain ⟨attempt', slot', job', hholds, hofAttempt, -⟩ :=
      hinv.activations.holds hinv.occupancy hoperation hunresolved
    have hrow : db.attempts.get? op.attemptID = some attempt' := hholds.attemptRow
    rw [hof, hattempt] at hrow
    cases hrow
    have hjobRow : db.jobs.get? attempt.jobID = some job' := hholds.jobRow
    rw [← hjobID, hjob] at hjobRow
    cases hjobRow
    obtain ⟨he, hrecorded, hdigest, hanswers, -⟩ := resolveOperation_effect hinv
      ⟨hof ▸ hholds, hoperation, hof, hunresolved⟩ (henvironment.symm.trans hofAttempt.environment) hjobID haudit h
    exact ⟨he, hrecorded, op.routeDigest, hdigest, hanswers⟩

-- The administrator's resolution: of the attempt that flags the environment, or a repeat.
theorem resolveActivation_cases {p : Principal} {outcome : ActivationOutcome} {reason : String}
    (hinv : Inv (view db)) (hrecon : Reconciliations (view db))
    (h : resolveActivation now db p environmentID outcome reason = .ok (db', ())) :
    ∃ slot, db.slots.get? environmentID = some slot ∧
      ((slot.reconciliationAttemptID = none ∧ db' = db ∧
          confirmResolvedOutcome db p environmentID outcome = .ok ()) ∨
        ∃ attemptID attempt, slot.reconciliationAttemptID = some attemptID ∧
          db.attempts.get? attemptID = some attempt ∧ Declares now db db' attempt.jobID attemptID outcome none) := by
  simp only [resolveActivation, bind_eq_ok, found_eq_ok] at h
  obtain ⟨_, -, _, -, _, -, slot, hslot, h⟩ := h
  refine ⟨slot, hslot, ?_⟩
  split at h
  · rename_i hnone
    simp only [bind_eq_ok, pure_eq_ok, Prod.mk.injEq] at h
    obtain ⟨_, hconfirm, rfl, -⟩ := h
    exact .inl ⟨hnone, rfl, hconfirm⟩
  · rename_i attemptID hflag
    simp only [bind_eq_ok, Prod.exists, pure_eq_ok, Prod.mk.injEq] at h
    obtain ⟨jobID, job, hjob, _, -, _, hdeclared, rfl, -⟩ := h
    obtain ⟨attempt, hattempt, rfl, -⟩ := flaggedJob_eq_ok hjob
    refine .inr ⟨attemptID, attempt, hflag, hattempt, ?_⟩
    exact resolveDeclared_declares hinv hrecon (by exact hslot) hflag (by exact hattempt) rfl (fun _ => rfl)
      (fun _ hclear hresolved => clearPlainReconciliation_effect hslot hflag hresolved hattempt hclear) hdeclared

-- The agent's resolution: of the attempt it names, or a repeat.
theorem reconcileActivation_cases {serverID : String} {presented digest : Digest} {fence : Nat}
    {outcome : ActivationOutcome} (hinv : Inv (view db)) (hrecon : Reconciliations (view db))
    (h : reconcileActivation now db serverID presented environmentID attemptID fence outcome digest = .ok (db', ())) :
    ∃ slot attempt, db.slots.get? environmentID = some slot ∧ db.attempts.get? attemptID = some attempt ∧
      (attempt.serverID = serverID ∧ attempt.environmentID = environmentID ∧ attempt.fence = fence) ∧
      ((db' = db ∧ reconciledEvent db attempt.jobID attemptID = true ∧
          agreeResolvedOutcome db attemptID outcome (some digest) = .ok ()) ∨
        Declares now db db' attempt.jobID attemptID outcome (some digest)) := by
  simp only [reconcileActivation, bind_eq_ok, found_eq_ok] at h
  obtain ⟨_, -, _, -, slot, hslot, h⟩ := h
  split at h
  · simp only [bind_eq_ok, found_eq_ok, require_eq_ok, pure_eq_ok, Prod.mk.injEq] at h
    obtain ⟨attempt, hattempt, _, hauthorized, _, -, _, hevent, _, hagree, rfl, -⟩ := h
    exact ⟨slot, attempt, hslot, hattempt, hauthorized, .inl ⟨rfl, hevent, hagree⟩⟩
  · rename_i hflag
    simp only [ne_eq, not_not] at hflag
    simp only [bind_eq_ok, found_eq_ok, require_eq_ok, pure_eq_ok, Prod.mk.injEq] at h
    obtain ⟨attempt, hattempt, _, hauthorized, _, hdeclared, rfl, -⟩ := h
    refine ⟨slot, attempt, hslot, hattempt, hauthorized, .inr ?_⟩
    exact resolveDeclared_declares hinv hrecon (by exact hslot) hflag (by exact hattempt) rfl (fun _ => rfl)
      (fun _ hclear hresolved => clearSlotFlag_effect hslot hflag hresolved hattempt hclear) hdeclared

end

end AutoDeploy.Protocol
