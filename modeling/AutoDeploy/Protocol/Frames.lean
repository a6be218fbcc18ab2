import AutoDeploy.Protocol.Clock

namespace AutoDeploy.Protocol

open Lib Lib.Result Queue Store Deployment

-- What the lease transactions leave alone: who may call, the deployments they do not move, and the frozen bindings.

section

-- A property of the administrators, the servers, the credentials, the deployments and the frozen bindings.
variable {db : DB} {Q : Administration → Table String Server → Table Nat Credential → Table String Snapshot →
  Table Nat (List FrozenBinding) → Prop}

def Framed (Q : Administration → Table String Server → Table Nat Credential → Table String Snapshot →
    Table Nat (List FrozenBinding) → Prop) (db : DB) : Prop :=
  Q db.administration db.servers db.credentials db.deployments db.frozenBindings

-- ... that a deployment moved to one status does not break.
def Absorbs (Q : Administration → Table String Server → Table Nat Credential → Table String Snapshot →
    Table Nat (List FrozenBinding) → Prop) (target : Status) : Prop :=
  ∀ administration servers credentials deployments frozen id s, s.status = target →
    Q administration servers credentials deployments frozen →
    Q administration servers credentials (deployments.put id s) frozen

-- ... that the freezing of a new attempt's inputs does not break.
def Freezes (Q : Administration → Table String Server → Table Nat Credential → Table String Snapshot →
    Table Nat (List FrozenBinding) → Prop) : Prop :=
  ∀ db config jobID job plan, Framed Q db → planFreeze db config jobID job = .ok (some plan) →
    ∀ db' attemptID, Framed Q db' → Returns (fun r => Framed Q r.1) (freeze db' attemptID plan)

theorem during_keeps {α : Type} {P : α → Prop} {message : String} {x : Except DbError α} (h : Returns P x) :
    Returns P (during message x) :=
  h.mapError

theorem committed_keeps {α : Type} {x : Except Error (DB × α)} (h : Framed Q db)
    (hx : Returns (fun r => Framed Q r.1) x) : Framed Q (committed db x).1 := by
  cases x with
  | error e => exact h
  | ok r => exact hx r rfl

-- The statements.

theorem updateJob_keeps {id : Nat} {condition : Job → Bool} {set : Job → Job} (h : Framed Q db) :
    Returns (fun r => Framed Q r.1) (updateJob db id condition set) :=
  .bind_any fun _ => .pure h

theorem updateAttempt_keeps {id : Nat} {condition : Attempt → Bool} {set : Attempt → Attempt} (h : Framed Q db) :
    Returns (fun r => Framed Q r.1) (updateAttempt db id condition set) :=
  .bind_any fun _ => .pure h

theorem updateSlot_keeps {id : String} {condition : Slot → Bool} {set : Slot → Slot} (h : Framed Q db) :
    Returns (fun r => Framed Q r.1) (updateSlot db id condition set) :=
  .bind_any fun _ => .pure h

theorem updateRelease_keeps {id : String} {condition : Release → Bool} {set : Release → Release}
    (h : Framed Q db) : Returns (fun r => Framed Q r.1) (updateRelease db id condition set) :=
  .bind_any fun _ => .pure h

theorem updateOperation_keeps {id : Nat} {condition : Operation → Bool} {set : Operation → Operation}
    (h : Framed Q db) : Returns (fun r => Framed Q r.1) (updateOperation db id condition set) :=
  .bind_any fun _ => .pure h

theorem updateRouteHead_keeps {id : String} {condition : RouteHead → Bool} {set : RouteHead → RouteHead}
    (h : Framed Q db) : Returns (fun r => Framed Q r.1) (updateRouteHead db id condition set) :=
  .bind_any fun _ => .pure h

theorem insertAttempt_keeps {a : Attempt} (h : Framed Q db) :
    Returns (fun r => Framed Q r.1) (insertAttempt db a) :=
  .bind_any fun _ => .pure h

theorem insertOperation_keeps {op : Operation} (h : Framed Q db) :
    Returns (fun r => Framed Q r.1) (insertOperation db op) :=
  .bind_any fun _ => .bind_any fun _ => .bind_any fun _ => .bind_any fun _ => .bind_any fun _ => .bind_any fun _ =>
    .bind_any fun _ => .pure h

theorem insertRelease_keeps {id : String} {r : Release} (h : Framed Q db) :
    Returns (Framed Q) (insertRelease db id r) :=
  .bind_any fun _ => .bind_any fun _ => .bind_any fun _ => .pure h

theorem insertRouteHead_keeps {id : String} {head : RouteHead} (h : Framed Q db) :
    Returns (Framed Q) (insertRouteHead db id head) :=
  .bind_any fun _ => .bind_any fun _ => .pure h

theorem transitionDeployment_keeps {id : String} {target : Status} {at_ : Nat} (hQ : Absorbs Q target) (h : Framed Q db) :
    Returns (Framed Q) (transitionDeployment db id target at_) := by
  intro db' hmoved
  simp only [transitionDeployment, bind_eq_ok, mapError_eq_ok] at hmoved
  obtain ⟨row, -, current, -, next, hnext, hmoved⟩ := hmoved
  have hstatus : next.status = target := by
    obtain ⟨-, ⟨rfl, rfl⟩ | ⟨-, -, -, -, rfl⟩⟩ := Aggregate.transition_cases hnext
    · rfl
    · rfl
  split at hmoved
  · cases hmoved
    exact h
  · simp only [saveTx, bind_eq_ok, mapError_eq_ok, pure_eq_ok] at hmoved
    obtain ⟨snapshot, hsnapshot, stored, -, _, -, _, -, _, -, events, -, rfl⟩ := hmoved
    have hsaved : snapshot.status = next.status := by
      unfold Aggregate.snapshot at hsnapshot
      split at hsnapshot
      · cases hsnapshot
      · cases hsnapshot
        rfl
    exact hQ _ _ _ _ _ _ _ (hsaved.trans hstatus) h

-- The transactions on one lease.

variable {now draw jobID attemptID fence : Nat} {serverID environmentID : String} {presented : Digest}

theorem freeSlot_keeps (h : Framed Q db) :
    Returns (Framed Q) (freeSlot now db environmentID attemptID) :=
  .bind (during_keeps (updateSlot_keeps h)) fun _ h => .pure h

theorem closeJob_keeps {state : JobState} (h : Framed Q db) :
    Returns (Framed Q) (closeJob now db jobID state) :=
  .bind (during_keeps (updateJob_keeps h)) fun _ h => .pure h

theorem endJob_keeps {state : JobState} {availableAt : Nat} (h : Framed Q db) :
    Returns (Framed Q) (endJob now db jobID state availableAt) :=
  .ite (.bind (during_keeps (updateJob_keeps h)) fun _ h => .pure h) (closeJob_keeps h)

theorem renew_keeps {sequence : Nat} (h : Framed Q db) :
    Returns (fun r => Framed Q r.1) (renew now db serverID presented attemptID fence sequence) := by
  unfold renew
  refine .bind_any fun _ => .bind_any fun _ => .bind_any fun _ => .ite (.pure h) (.bind_any fun _ => ?_)
  exact .bind (during_keeps (updateAttempt_keeps h)) fun _ h => .pure h

theorem complete_keeps {r : CompletionReport} (hfailed : Absorbs Q .failed) (h : Framed Q db) :
    Returns (fun r => Framed Q r.1) (complete now draw db serverID presented attemptID fence r) := by
  unfold complete
  refine .bind_any fun _ => .bind_any fun _ => .ite (.bind_any fun _ => .pure h) (.bind_any fun _ => .bind_any fun _ => ?_)
  refine .bind (during_keeps (updateAttempt_keeps h)) fun _ h => .bind (freeSlot_keeps h) fun _ h => ?_
  exact .bind (endJob_keeps h) fun _ h =>
    .bind (.ite (transitionDeployment_keeps hfailed h) (.pure h)) fun _ h => .pure h

theorem requestCancellation_keeps {p : Principal} (hcancelled : Absorbs Q .cancelled) (h : Framed Q db) :
    Returns (fun r => Framed Q r.1) (requestCancellation now db p jobID) := by
  unfold requestCancellation
  refine .bind_any fun _ => .bind_any fun _ => .bind_any fun job => .bind_any fun _ => ?_
  cases job.state with
  | queued | retryWait =>
      exact .bind (during_keeps (updateJob_keeps h)) fun _ h =>
        .bind (transitionDeployment_keeps hcancelled h) fun _ h => .pure h
  | leased =>
      refine .ite (.pure h) (.bind_any fun _ => .bind_any fun _ => .bind_any fun _ => ?_)
      exact .bind (during_keeps (updateJob_keeps h)) fun _ h =>
        .bind (during_keeps (updateAttempt_keeps h)) fun _ h => .pure h
  | cancelled => exact .pure h
  | _ => exact .error _

theorem acknowledgeCancellation_keeps {operationID : String} {resultDigest : Digest} (hcancelled : Absorbs Q .cancelled) 
    (h : Framed Q db) :
    Returns (fun r => Framed Q r.1)
      (acknowledgeCancellation now db serverID presented attemptID fence operationID resultDigest) := by
  unfold acknowledgeCancellation
  refine .bind_any fun _ => .bind_any fun _ => .ite (.bind_any fun _ => .pure h) (.bind_any fun _ => .bind_any fun _ => ?_)
  refine .bind (during_keeps (updateAttempt_keeps h)) fun _ h => .bind (freeSlot_keeps h) fun _ h => ?_
  exact .bind (closeJob_keeps h) fun _ h => .bind (transitionDeployment_keeps hcancelled h) fun _ h => .pure h

theorem reportProgress_keeps {phase : Status} (hphase : agentReportablePhase phase = true → Absorbs Q phase)
    (h : Framed Q db) :
    Returns (fun r => Framed Q r.1) (reportProgress now db serverID presented attemptID fence phase) := by
  unfold reportProgress
  refine .bind (P := fun _ => agentReportablePhase phase = true) (fun _ hphase => (require_eq_ok.1 hphase)) fun _ hreportable => ?_
  refine .bind_any fun _ => .bind_any fun _ => .bind_any fun _ => .ite (.pure h) (.bind_any fun _ => ?_)
  exact .bind (transitionDeployment_keeps (hphase hreportable) h) fun _ h => .pure h

-- Claims.

theorem freeze_keeps {plan : FreezePlan} (h : ∀ bindings, Q db.administration db.servers db.credentials db.deployments
    (db.frozenBindings.put attemptID bindings)) :
    Returns (fun r => Framed Q r.1) (freeze db attemptID plan) := by
  cases plan with
  | fresh execution bindings literals => exact .pure (h bindings)
  | copy previous => exact .bind_any fun _ => .pure (h _)

theorem ensureRelease_keeps {deploymentID commitSHA : String} {strategy : ReleaseStrategy} {digest : Digest}
    (h : Framed Q db) :
    Returns (Framed Q) (ensureRelease now db deploymentID environmentID commitSHA strategy digest) := by
  unfold ensureRelease
  split
  · exact during_keeps (insertRelease_keeps h)
  · exact .bind_any fun _ => .pure h

theorem tryClaim_keeps (hassigned : Absorbs Q .assigned) (hfreezes : Freezes Q) (h : Framed Q db) :
    Returns (fun r => Framed Q r.1) (tryClaim now db serverID jobID environmentID) := by
  unfold tryClaim
  split
  · exact .pure h
  · rename_i config slot job hclaimable
    refine .bind (P := fun plan => planFreeze db config jobID job = .ok plan) (fun _ hplan => hplan) fun plan hplan => ?_
    cases plan with
    | none => exact .pure h
    | some plan =>
        have hfreeze := hfreezes db config jobID job plan h hplan
        unfold leaseCandidate
        refine .bind (during_keeps (updateSlot_keeps h)) fun _ h => .bind (updateJob_keeps h).mapError fun _ h => ?_
        refine .ite (.pure h) (.bind (during_keeps (insertAttempt_keeps h)) fun _ h => ?_)
        refine .bind (during_keeps (updateSlot_keeps h)) fun _ h => ?_
        refine .bind (.ite (transitionDeployment_keeps hassigned h) (.pure h)) fun _ h => ?_
        refine .bind (hfreeze _ _ h) fun _ h => .bind (ensureRelease_keeps h) fun _ h => .pure h

theorem claimLoop_keeps {limit : Nat} {candidates : List (Nat × String)} {claimed : List ClaimedLease}
    (hassigned : Absorbs Q .assigned) (hfreezes : Freezes Q) (h : Framed Q db) :
    Returns (fun r => Framed Q r.1) (claimLoop now serverID limit candidates db claimed) := by
  induction candidates generalizing db claimed with
  | nil => exact .pure h
  | cons c rest ih => exact .ite (.pure h) (.bind (tryClaim_keeps hassigned hfreezes h) fun _ h => ih h)

theorem openSlots_frames (environments : List String) (h : Framed Q db) :
    Framed Q (environments.foldl (ensureSlot now) db) := by
  induction environments generalizing db with
  | nil => exact h
  | cons e rest ih =>
      refine ih ?_
      unfold ensureSlot
      split
      · exact h
      · exact h

theorem claim_keeps {limit : Nat} (hassigned : Absorbs Q .assigned) (hfreezes : Freezes Q) (h : Framed Q db) :
    Framed Q (claim now db serverID presented limit).1 := by
  obtain ⟨hsame, -⟩ | ⟨environments, ⟨hopened, -⟩ | ⟨limit', candidates, leases, hloop, -⟩⟩ :=
    claim_cases (Prod.mk.eta.symm : claim now db serverID presented limit = _)
  · rw [hsame]
    exact h
  · rw [hopened]
    exact openSlots_frames environments h
  · exact claimLoop_keeps hassigned hfreezes (openSlots_frames environments h) _ hloop

-- Activations.

variable {operationID : Nat} {summary : Bytes}

theorem readyCandidate_keeps {releaseID : String} {release : Release} {imageDigest : Digest} (h : Framed Q db) :
    Returns (Framed Q) (readyCandidate now db releaseID release imageDigest) := by
  unfold readyCandidate
  split
  · exact .bind (during_keeps (updateRelease_keeps h)) fun _ h => .pure h
  · exact .bind_any fun _ => .pure h
  · exact .error _

theorem retainPredecessor_keeps {predecessor : Option String} (h : Framed Q db) :
    Returns (Framed Q) (retainPredecessor now db predecessor) := by
  cases predecessor with
  | none => exact .pure h
  | some id => exact .bind_any fun _ => .bind (during_keeps (updateRelease_keeps h)) fun _ h => .pure h

theorem flagRouteHead_keeps (h : Framed Q db) :
    Returns (Framed Q) (flagRouteHead now db environmentID) :=
  .bind (during_keeps (updateRouteHead_keeps h)) fun _ h => .bind_any fun _ => .pure h

theorem unflagRouteHead_keeps (h : Framed Q db) :
    Returns (Framed Q) (unflagRouteHead now db environmentID) :=
  .bind (during_keeps (updateRouteHead_keeps h)) fun _ h => .bind_any fun _ => .pure h

theorem activate_keeps {imageDigest : Digest} (hactivating : Absorbs Q .activating) (h : Framed Q db) :
    Returns (fun r => Framed Q r.1) (activate now db serverID presented attemptID fence imageDigest) := by
  unfold activate
  refine .bind_any fun _ => .bind_any fun l => .bind_any fun _ => .bind_any fun _ => ?_
  split
  · exact .bind_any fun _ => .pure h
  · unfold authorizeActivation
    refine .bind_any fun _ => .bind (transitionDeployment_keeps hactivating h) fun _ h => ?_
    refine .bind_any fun _ => .bind_any fun _ => .bind_any fun _ => .bind (readyCandidate_keeps h) fun _ h => .bind_any fun _ => .bind_any fun _ => ?_
    exact .bind (insertOperation_keeps h).mapError fun _ h => .bind_any fun _ => .pure h

theorem block_keeps (h : Framed Q db) : Returns (Framed Q)
    (blockActivationForReconciliation now db jobID attemptID operationID environmentID summary) := by
  unfold blockActivationForReconciliation
  refine .bind (during_keeps (updateOperation_keeps h)) fun _ h => .bind_any fun _ => ?_
  refine .bind (.ite (flagRouteHead_keeps h) (.pure h)) fun _ h => ?_
  exact .bind (during_keeps (updateSlot_keeps h)) fun _ h => .bind_any fun _ => .pure h

theorem finalize_keeps {i : FinalizeInput} (hhealthy : Absorbs Q .healthy) (h : Framed Q db) :
    Returns (Framed Q) (finalizeActivationSucceeded now db i) := by
  unfold finalizeActivationSucceeded
  refine .bind_any fun _ => .bind (transitionDeployment_keeps hhealthy h) fun _ h => ?_
  refine .bind_any fun _ => .bind_any fun _ => .bind_any fun _ => .bind_any fun _ => .bind (retainPredecessor_keeps h) fun _ h => ?_
  refine .bind (during_keeps (updateRelease_keeps h)) fun _ h => ?_
  refine .bind (during_keeps (updateRouteHead_keeps h)) fun _ h => .bind_any fun _ => ?_
  refine .bind (during_keeps (updateOperation_keeps h)) fun _ h => .bind_any fun _ => ?_
  refine .bind (during_keeps (updateAttempt_keeps h)) fun _ h => .bind_any fun _ => ?_
  refine .bind (during_keeps (updateSlot_keeps h)) fun _ h => .bind_any fun _ => ?_
  exact .bind (during_keeps (updateJob_keeps h)) fun _ h => .bind_any fun _ => .pure h

-- The end of a lease.

theorem appendEvents_keeps (types : List JobEventType) (h : Framed Q db) :
    Framed Q (types.foldl (fun db t => appendAgentJobEvent db jobID (some attemptID) t) db) := by
  induction types generalizing db with
  | nil => exact h
  | cons t rest ih => exact ih h

theorem closeExpiredOrRevokedAttempt_keeps {attemptNumber : Nat} {deploymentID : String} {cancelRequested : Bool}
    (hcancelled : Absorbs Q .cancelled) (hfailed : Absorbs Q .failed) (h : Framed Q db) : Returns (fun r => Framed Q r.1) (closeExpiredOrRevokedAttempt now draw db jobID attemptID
      environmentID attemptNumber deploymentID cancelRequested) := by
  have hdivert : Returns (fun r => Framed Q r.1)
      (divertUnresolvedActivation now db jobID attemptID environmentID) := by
    unfold divertUnresolvedActivation
    split
    · exact .pure h
    · exact .ite (.pure h) (.bind (block_keeps h) fun _ h => .pure h)
  refine .bind hdivert fun _ h => .ite (.pure h) (.bind ?_ fun _ h => .pure h)
  unfold closeAttemptOrdinary
  refine .bind (during_keeps (updateAttempt_keeps h)) fun _ h => .bind (during_keeps (updateSlot_keeps h)) fun _ h => ?_
  refine .bind (endJob_keeps h) fun _ h => .bind (.ite (transitionDeployment_keeps hcancelled h) (.ite ?_ (.pure h))) fun _ h => ?_
  · exact transitionDeployment_keeps hfailed h
  · exact .pure (appendEvents_keeps _ h)

theorem expireOne_keeps (hcancelled : Absorbs Q .cancelled) (hfailed : Absorbs Q .failed) (h : Framed Q db) :
    Returns (fun r => Framed Q r.1) (expireOne now draw db attemptID) := by
  unfold expireOne
  split
  · exact .pure h
  · exact .ite (.pure h) (.bind (closeExpiredOrRevokedAttempt_keeps hcancelled hfailed h) fun _ h => .pure h)

theorem revokeLoop_keeps {draws : Nat → Nat} {attempts : List Nat} (hcancelled : Absorbs Q .cancelled) (hfailed : Absorbs Q .failed) 
    (h : Framed Q db) :
    Returns (Framed Q) (revokeLoop now draws attempts db) := by
  induction attempts generalizing db with
  | nil => exact .pure h
  | cons attemptID rest ih =>
      unfold revokeLoop
      split
      · exact ih h
      · exact .bind (closeExpiredOrRevokedAttempt_keeps hcancelled hfailed h) fun _ h => ih h

-- Reconciliations and declared resolutions.

theorem clearSlotFlag_keeps (h : Framed Q db) :
    Returns (Framed Q) (clearSlotFlag now db environmentID jobID attemptID) :=
  .bind (during_keeps (updateSlot_keeps h)) fun _ h => .pure h

theorem clearPlainReconciliation_keeps {p : Principal} {reason : String} (h : Framed Q db) :
    Returns (Framed Q) (clearPlainReconciliation now db p environmentID jobID attemptID reason) :=
  .bind (during_keeps (updateSlot_keeps h)) fun _ h => .pure h

theorem reconcile_keeps (h : Framed Q db) :
    Returns (fun r => Framed Q r.1) (reconcile now db serverID presented environmentID attemptID fence) := by
  unfold reconcile
  refine .bind_any fun _ => .bind_any fun _ => .bind_any fun _ => .bind_any fun _ => .bind_any fun _ => .bind_any fun _ => ?_
  exact .ite (.bind_any fun _ => .pure h) (.bind (clearSlotFlag_keeps h) fun _ h => .pure h)

theorem markReconciled_keeps {p : Principal} {reason : String} (h : Framed Q db) :
    Returns (fun r => Framed Q r.1) (markReconciled now db p environmentID reason) := by
  unfold markReconciled
  refine .bind_any fun _ => .bind_any fun _ => .bind_any fun _ => .bind_any fun _ => .bind_any fun _ => .bind_any fun _ => ?_
  exact .bind_any fun _ => .bind (clearPlainReconciliation_keeps h) fun _ h => .pure h

theorem resolveNotActivated_keeps {deploymentID : String} {headFlagged : Bool} (hfailed : Absorbs Q .failed) (h : Framed Q db) :
    Returns (Framed Q) (resolveNotActivated now db jobID attemptID operationID environmentID
      deploymentID headFlagged summary) := by
  unfold resolveNotActivated
  refine .bind (transitionDeployment_keeps hfailed h) fun _ h => ?_
  refine .bind (.ite (unflagRouteHead_keeps h) (.pure h)) fun _ h => ?_
  refine .bind (during_keeps (updateOperation_keeps h)) fun _ h => .bind_any fun _ => ?_
  refine .bind (during_keeps (updateAttempt_keeps h)) fun _ h => .bind_any fun _ => ?_
  refine .bind (during_keeps (updateSlot_keeps h)) fun _ h => .bind_any fun _ => ?_
  exact .bind (during_keeps (updateJob_keeps h)) fun _ h => .bind_any fun _ => .pure h

theorem resolveDeclared_keeps {d : DeclaredResolution} (hhealthy : d.outcome = .activated → Absorbs Q .healthy)
    (hfailed : Absorbs Q .failed) (h : Framed Q db)
    (hclear : Returns (Framed Q) (d.clearPlain db))
    (haudit : ∀ db', Framed Q db' → Framed Q (d.audit db')) :
    Returns (Framed Q) (resolveDeclared now db d) := by
  unfold resolveDeclared
  refine .bind_any fun _ => .bind_any fun _ => .bind_any fun _ => ?_
  split
  · exact .bind_any fun _ => .bind_any fun _ => hclear
  · unfold resolveOperation
    refine .bind_any fun _ => .bind_any fun _ => .bind_any fun _ => .bind_any fun _ => .bind_any fun _ => ?_
    refine .bind_any fun _ => .bind_any fun _ => .bind_any fun _ => .bind_any fun _ => .bind_any fun _ => ?_
    refine .bind ?_ fun _ h => .bind_any fun _ => .pure (haudit _ h)
    by_cases houtcome : d.outcome = .activated
    · rw [if_pos houtcome]
      exact finalize_keeps (hhealthy houtcome) h
    · rw [if_neg houtcome]
      exact resolveNotActivated_keeps hfailed h

theorem resolveActivation_keeps {p : Principal} {outcome : ActivationOutcome} {reason : String}
    (hhealthy : outcome = .activated → Absorbs Q .healthy) (hfailed : Absorbs Q .failed) (h : Framed Q db) :
    Returns (fun r => Framed Q r.1) (resolveActivation now db p environmentID outcome reason) := by
  unfold resolveActivation
  refine .bind_any fun _ => .bind_any fun _ => .bind_any fun _ => .bind_any fun _ => ?_
  split
  · exact .bind_any fun _ => .pure h
  · refine .bind_any fun _ => .bind_any fun _ => .bind ?_ fun _ h => .pure h
    exact resolveDeclared_keeps hhealthy hfailed h (clearPlainReconciliation_keeps h) fun _ h => h

theorem reconcileActivation_keeps {outcome : ActivationOutcome} {outcomeDigest : Digest}
    (hhealthy : outcome = .activated → Absorbs Q .healthy) (hfailed : Absorbs Q .failed) (h : Framed Q db) :
    Returns (fun r => Framed Q r.1)
      (reconcileActivation now db serverID presented environmentID attemptID fence outcome outcomeDigest) := by
  unfold reconcileActivation
  refine .bind_any fun _ => .bind_any fun _ => .bind_any fun _ => .ite ?_ ?_
  · refine .bind_any fun _ => .bind_any fun _ => .bind_any fun _ => .bind_any fun _ => .bind_any fun _ => .pure h
  · refine .bind_any fun _ => .bind_any fun _ => .bind ?_ fun _ h => .pure h
    exact resolveDeclared_keeps hhealthy hfailed h (clearSlotFlag_keeps h) fun _ h => h

theorem assignRouteHostname_keeps {p : Principal} {hostname : String} {expectedRevision : Option Nat}
    (h : Framed Q db) : Framed Q (assignRouteHostname now db p environmentID hostname expectedRevision).1 := by
  unfold assignRouteHostname
  simp only
  split
  · cases expectedRevision with
    | none =>
        unfold createRouteHead
        simp only
        split
        · split
          · exact h
          · exact h
        · rename_i hinsert
          have hkept := insertRouteHead_keeps h _ hinsert
          exact hkept
    | some revision =>
        unfold updateRouteHeadHostname
        simp only
        split
        · exact h
        · split
          · exact h
          · split
            · exact h
            · split
              · split
                · exact h
                · exact h
              · rename_i hupdate
                have hkept := updateRouteHead_keeps h _ hupdate
                exact hkept
  · exact h

-- Reports. What a report leaves is what it found, or what one of its writes returned.

variable {f : Faults} {q : ReportRequest} {c : ReportContext}

theorem commitTx_keeps {after db' : DB} {deferred r : Except DbError Unit} (h : Framed Q db)
    (hafter : Framed Q after) (hcommit : f.commitTx db after deferred = (db', r)) : Framed Q db' := by
  rcases commitTx_cases hcommit with ⟨rfl, -⟩ | ⟨rfl, -⟩
  · exact h
  · exact hafter

theorem commitUnchecked_keeps {after : DB} {message : String} {r : Except Error Unit} (h : Framed Q db)
    (hafter : Framed Q after) : Framed Q (commitUnchecked f db after message r).db := by
  unfold commitUnchecked
  split
  · rename_i hcommit
    exact commitTx_keeps h hafter hcommit
  · rename_i hcommit
    exact commitTx_keeps h hafter hcommit

theorem blockWithFaults_keeps (h : Framed Q db) : Returns (Framed Q)
    (blockWithFaults f now db jobID attemptID operationID environmentID summary) :=
  .bind_any fun _ => block_keeps h

theorem writeLateEvidence_keeps {existing : Bytes} {r : ActivationReport} (h : Framed Q db) :
    Returns (fun after => ∀ db' ∈ after, Framed Q db')
      (writeLateEvidence f db jobID attemptID operationID existing r) := by
  unfold writeLateEvidence
  split
  · exact .pure (by simp)
  · refine .bind_any fun _ => .bind (during_keeps (updateOperation_keeps h)) fun ⟨db', _⟩ h => ?_
    refine .bind_any fun _ => .bind_any fun _ => .pure fun _ hmem => ?_
    cases hmem
    exact h

theorem traceDeclaredContradiction_keeps (h : Framed Q db) :
    Framed Q (traceDeclaredContradiction f db jobID attemptID).db := by
  unfold traceDeclaredContradiction
  simp only
  split
  · exact h
  · split
    · exact h
    · split
      · exact h
      · exact commitUnchecked_keeps h h

theorem recordLateReport_keeps (h : Framed Q db) : Framed Q (recordLateReport f db q c).db := by
  unfold recordLateReport
  split
  · split
    · exact h
    · exact h
    · rename_i after hwrite
      exact commitUnchecked_keeps h (writeLateEvidence_keeps h _ hwrite after rfl)
  · exact h

theorem abortAndBlock_keeps {cause : Error} (h : Framed Q db) : Framed Q (abortAndBlock db cause).db := by
  unfold abortAndBlock
  split
  · exact h
  · exact h

theorem refuseAmbiguous_keeps {evidence : String} {refusal : Error} (h : Framed Q db) :
    Framed Q (refuseAmbiguous f now db q c evidence refusal).db := by
  unfold refuseAmbiguous
  simp only
  split
  · exact h
  · rename_i after hblock
    have hafter := blockWithFaults_keeps h after hblock
    split
    · rename_i hcommit
      exact commitTx_keeps h hafter hcommit
    · rename_i hcommit
      have hkept := commitTx_keeps h hafter hcommit
      split
      · exact hkept
      · exact hkept

theorem reportFailure_keeps (h : Framed Q db) : Framed Q (reportFailure f now db q c).db := by
  unfold reportFailure
  split
  · exact h
  · rename_i after hblock
    have hafter := blockWithFaults_keeps h after hblock
    split
    · rename_i hcommit
      exact commitTx_keeps h hafter hcommit
    · rename_i hcommit
      have hkept := commitTx_keeps h hafter hcommit
      simp only
      split
      · exact hkept
      · exact hkept

theorem blockAfterFinalizeFailure_keeps {cause : Error} (h : Framed Q db) :
    Framed Q (blockAfterFinalizeFailure f now db q c cause).db := by
  unfold blockAfterFinalizeFailure
  split
  · exact h
  · split
    · exact h
    · simp only
      split
      · exact h
      · rename_i after hblock
        have hafter := blockWithFaults_keeps h after hblock
        split
        · rename_i hcommit
          exact commitTx_keeps h hafter hcommit
        · rename_i hcommit
          have hkept := commitTx_keeps h hafter hcommit
          split
          · exact hkept
          · exact hkept

theorem reportFinalize_keeps (hhealthy : Absorbs Q .healthy) (h : Framed Q db) : Framed Q (reportFinalize f now db q c).db := by
  unfold reportFinalize
  simp only
  split
  · exact blockAfterFinalizeFailure_keeps h
  · split
    · exact blockAfterFinalizeFailure_keeps h
    · rename_i after hfinalize
      have hreturns : Returns (Framed Q) (do
          f.runAll .finalize 1 (finalizeStatements (reportFinalizeInput q c).deploymentID)
          finalizeActivationSucceeded now db (reportFinalizeInput q c) : Except Error DB) :=
        .bind_any fun _ => finalize_keeps hhealthy h
      have hafter := hreturns after hfinalize
      split
      · rename_i hcommit
        exact commitTx_keeps h hafter hcommit
      · rename_i hcommit
        have hkept := commitTx_keeps h hafter hcommit
        split
        · exact hkept
        · exact hkept

theorem reportSuccess_keeps (hhealthy : Absorbs Q .healthy) (h : Framed Q db) : Framed Q (reportSuccess f now db q c).db := by
  unfold reportSuccess
  simp only
  split
  · exact abortAndBlock_keeps h
  · split
    · exact abortAndBlock_keeps h
    · split
      · exact refuseAmbiguous_keeps h
      · split
        · exact refuseAmbiguous_keeps h
        · split
          · exact abortAndBlock_keeps h
          · exact reportFinalize_keeps hhealthy h

theorem reportOpen_keeps (hhealthy : c.report.succeeded = true → Absorbs Q .healthy) (h : Framed Q db) :
    Framed Q (reportOpen f now db q c).db := by
  unfold reportOpen
  split
  · exact reportFailure_keeps h
  · rename_i hsucceeded
    split
    · exact refuseAmbiguous_keeps h
    · exact reportSuccess_keeps (hhealthy (by simpa using hsucceeded)) h

theorem lockReport_succeeded (h : lockReport f db q = .ok c) : c.report.succeeded = q.succeeded := by
  simp only [lockReport, bind_eq_ok, pure_eq_ok, Prod.exists] at h
  obtain ⟨_, -, _, -, _, -, _, -, _, -, _, -, _, _, -, _, -, rfl⟩ := h
  rfl

theorem reportTx_keeps (hhealthy : q.succeeded = true → Absorbs Q .healthy) (h : Framed Q db) :
    Framed Q (reportTx f now db q).db := by
  unfold reportTx
  split
  · exact h
  · rename_i c hlock
    split
    · split
      · exact commitUnchecked_keeps h h
      · exact traceDeclaredContradiction_keeps h
    · split
      · exact traceDeclaredContradiction_keeps h
      · exact h
    · split
      · exact commitUnchecked_keeps h h
      · exact recordLateReport_keeps h
    · exact h
    · split
      · exact reportOpen_keeps (fun hc => hhealthy (lockReport_succeeded hlock ▸ hc)) h
      · exact h

theorem commitBlock_keeps {after : DB} {message : String} {outcome : BlockOutcome} (h : Framed Q db)
    (hafter : Framed Q after) : Framed Q (commitBlock f db after message outcome).1 := by
  unfold commitBlock
  split
  · rename_i hcommit
    exact commitTx_keeps h hafter hcommit
  · rename_i hcommit
    exact commitTx_keeps h hafter hcommit

theorem recordBlock_keeps {q : BlockRequest} (h : Framed Q db) :
    Framed Q (recordBlockInFreshTransaction f now db q).1 := by
  unfold recordBlockInFreshTransaction
  split
  · exact h
  · simp only
    split
    · exact h
    · split
      · split
        · exact h
        · split
          · exact h
          · split
            · exact h
            · exact h
            · rename_i after hwrite
              exact commitBlock_keeps h (writeLateEvidence_keeps h _ hwrite after rfl)
      · split
        · exact h
        · split
          · exact h
          · rename_i after hblock
            exact commitBlock_keeps h (blockWithFaults_keeps h after hblock)

-- The statuses a transaction can move a deployment to.
def Txn.moves : Txn → Status → Prop
  | .claim _ _ _, target => target = .assigned
  | .complete _ _ _ _ _ _, target => target = .failed
  | .activate _ _ _ _ _, target => target = .activating
  | .report _ request, target => target = .healthy ∧ request.succeeded = true
  | .requestCancellation _ _, target => target = .cancelled
  | .acknowledgeCancellation _ _ _ _ _ _, target => target = .cancelled
  | .reportProgress _ _ _ _ phase, target => target = phase ∧ agentReportablePhase phase = true
  | .expireOne _ _, target => target = .cancelled ∨ target = .failed
  | .revokeServer _ _ _ _, target => target = .cancelled ∨ target = .failed
  | .resolveActivation _ _ outcome _, target => target = .healthy ∧ outcome = .activated ∨ target = .failed
  | .reconcileActivation _ _ _ _ _ outcome _, target => target = .healthy ∧ outcome = .activated ∨ target = .failed
  | _, _ => False

-- The transactions that write servers and credentials.
def Txn.regrants : Txn → Prop
  | .revokeServer _ _ _ _ => True
  | .administer _ _ _ => True
  | _ => False

-- Every other transaction keeps what absorbs the moves it can make.
theorem exec_keeps {txn : Txn} (htxn : ¬ txn.regrants) (hmoves : ∀ target, txn.moves target → Absorbs Q target)
    (hfreezes : txn.isClaim → Freezes Q) (h : Framed Q db) : Framed Q (exec now db txn) := by
  cases txn with
  | claim serverID presented limit => exact claim_keeps (hmoves _ rfl) (hfreezes trivial) h
  | renew serverID presented attemptID fence sequence => exact committed_keeps h (renew_keeps h)
  | complete draw serverID presented attemptID fence r => exact committed_keeps h (complete_keeps (hmoves _ rfl) h)
  | activate serverID presented attemptID fence imageDigest =>
      exact committed_keeps h (activate_keeps (hmoves _ rfl) h)
  | report faults request => exact reportTx_keeps (fun hsucceeded => hmoves _ ⟨rfl, hsucceeded⟩) h
  | recordBlock faults request hevidence => exact recordBlock_keeps h
  | requestCancellation p jobID => exact committed_keeps h (requestCancellation_keeps (hmoves _ rfl) h)
  | acknowledgeCancellation serverID presented attemptID fence operationID resultDigest =>
      exact committed_keeps h (acknowledgeCancellation_keeps (hmoves _ rfl) h)
  | reportProgress serverID presented attemptID fence phase =>
      exact committed_keeps h (reportProgress_keeps (fun hphase => hmoves _ ⟨rfl, hphase⟩) h)
  | expireOne draw attemptID =>
      exact committed_keeps h (expireOne_keeps (hmoves _ (.inl rfl)) (hmoves _ (.inr rfl)) h)
  | revokeServer draws p serverID reason => exact absurd trivial htxn
  | reconcile serverID presented environmentID attemptID fence => exact committed_keeps h (reconcile_keeps h)
  | markReconciled p environmentID reason => exact committed_keeps h (markReconciled_keeps h)
  | resolveActivation p environmentID outcome reason =>
      exact committed_keeps h
        (resolveActivation_keeps (fun houtcome => hmoves _ (.inl ⟨rfl, houtcome⟩)) (hmoves _ (.inr rfl)) h)
  | reconcileActivation serverID presented environmentID attemptID fence outcome outcomeDigest =>
      exact committed_keeps h
        (reconcileActivation_keeps (fun houtcome => hmoves _ (.inl ⟨rfl, houtcome⟩)) (hmoves _ (.inr rfl)) h)
  | assignRouteHostname p environmentID hostname expectedRevision => exact assignRouteHostname_keeps h
  | administer administration servers credentials => exact absurd trivial htxn

end

-- Every transaction leaves a deployment as it was, or moves it to one of these statuses.
theorem exec_moves {now : Nat} {db : DB} {txn : Txn} {id : String} {s : Snapshot}
    (hrow : (exec now db txn).deployments.get? id = some s) :
    db.deployments.get? id = some s ∨ txn.moves s.status := by
  let Q : Administration → Table String Server → Table Nat Credential → Table String Snapshot →
      Table Nat (List FrozenBinding) → Prop :=
    fun _ _ _ deployments _ => ∀ id s, deployments.get? id = some s → db.deployments.get? id = some s ∨ txn.moves s.status
  have habsorbs : ∀ target, txn.moves target → Absorbs Q target := by
    intro target hmove _ _ _ deployments _ key row hstatus h id s hrow
    by_cases hid : id = key
    · subst hid
      rw [Table.get?_put_self] at hrow
      cases hrow
      exact .inr (hstatus ▸ hmove)
    · rw [Table.get?_put, if_neg hid] at hrow
      exact h id s hrow
  have hfreezes : Freezes Q := fun _ _ _ _ plan _ _ db' _ h => freeze_keeps fun _ => h
  have hstart : Framed Q db := fun id s hrow => .inl hrow
  by_cases hregrants : txn.regrants
  · cases txn with
    | revokeServer draws p serverID reason =>
        have hkeeps : Returns (fun r => Framed Q r.1) (revokeServer now draws db p serverID reason) := by
          unfold revokeServer
          refine .bind_any fun _ => .bind_any fun _ => .bind_any fun _ => .bind_any fun _ => .bind_any fun _ => ?_
          refine .bind (revokeLoop_keeps (habsorbs _ (.inl rfl)) (habsorbs _ (.inr rfl)) ?_) fun _ h => .pure h
          split <;> exact hstart
        exact committed_keeps hstart hkeeps id s hrow
    | administer administration servers credentials => exact .inl hrow
    | _ => exact absurd hregrants fun h => h
  · exact exec_keeps hregrants habsorbs (fun _ => hfreezes) hstart id s hrow

end AutoDeploy.Protocol
