import AutoDeploy.Protocol.Refinement.Resolution

namespace AutoDeploy.Protocol

open Function Lib Lib.Result Queue Store Deployment

-- What the two transactions of an activation report do to the protocol's rows, whatever fails in them.

-- A transaction of a report leaves the database alone or has one effect.
def Lands (now : Nat) (db db' : DB) : Prop := db' = db ∨ Effect now (view db) .other (view db')

section

variable {db db' : DB} {now attemptID operationID : Nat} {attempt : Attempt} {slot : Slot} {job : Job} {op : Operation}
  {f : Faults} {q : ReportRequest} {c : ReportContext}

theorem Lands.effects (h : Lands now db db') : Effects now Ordinary (view db) (view db') := by
  rcases h with rfl | he
  · exact Effects.refl
  · exact Effects.ordinary he

-- COMMIT keeps the old database with an error, or installs the new one.
theorem commitTx_cases {before after : DB} {deferred r : Except DbError Unit}
    (h : f.commitTx before after deferred = (db', r)) :
    (db' = before ∧ ∃ e, r = .error e) ∨ (db' = after ∧ deferred = .ok ()) := by
  unfold Faults.commitTx at h
  split at h
  · obtain ⟨rfl, rfl⟩ := Prod.mk.inj h
    exact .inr ⟨rfl, rfl⟩
  · obtain ⟨rfl, rfl⟩ := Prod.mk.inj h
    exact .inl ⟨rfl, _, rfl⟩
  · obtain ⟨rfl, rfl⟩ := Prod.mk.inj h
    exact .inr ⟨rfl, rfl⟩
  · obtain ⟨rfl, rfl⟩ := Prod.mk.inj h
    exact .inl ⟨rfl, _, rfl⟩

theorem commitTx_ok {before after : DB} {deferred : Except DbError Unit}
    (h : f.commitTx before after deferred = (db', .ok ())) : db' = after := by
  obtain ⟨-, e, he⟩ | ⟨rfl, -⟩ := commitTx_cases h
  · cases he
  · rfl

-- The rows a report has locked.
structure Locked (db : DB) (q : ReportRequest) (c : ReportContext) : Prop where
  attemptRow : db.attempts.get? q.attemptID = some c.lease.attempt
  slotRow : db.slots.get? c.lease.attempt.environmentID = some c.lease.slot
  jobRow : db.jobs.get? c.lease.attempt.jobID = some c.lease.job
  fence : c.lease.attempt.fence = q.fence
  operationRow : db.operations.get? c.operationID = some c.operation
  ofAttempt : c.operation.attemptID = q.attemptID
  operationFence : c.operation.fence = q.fence
  reported : c.report = ⟨q.succeeded, c.operation.routeDigest == q.observedRouteDigest, q.observedRouteDigest,
    failureOutcomeSummary q.failureSummary⟩

theorem lockReport_locked (h : lockReport f db q = .ok c) : Locked db q c := by
  simp only [lockReport, bind_eq_ok, require_eq_ok, found_eq_ok, Prod.exists, pure_eq_ok] at h
  obtain ⟨_, -, parsed, -, _, -, l, hl, _, hfence, _, -, id, op, hfind, _, -, rfl⟩ := h
  obtain ⟨-, hattempt, -, hslot, hjob⟩ := lockLease_eq_ok hl
  obtain ⟨hop, hof⟩ := Table.find?_some hfind
  simp only [Bool.and_eq_true, beq_iff_eq] at hof
  exact ⟨hattempt, hslot, hjob, hfence, hop, hof.1, hof.2, rfl⟩

theorem Locked.opens (h : Locked db q c) (hoccupies : c.lease.occupies q.attemptID q.fence)
    (hstate : unresolvedActivation c.operation.state = true) :
    Open (view db) q.attemptID c.operationID c.lease.attempt c.lease.slot c.lease.job c.operation :=
  ⟨⟨h.attemptRow, h.slotRow, h.jobRow, hoccupies.1, hoccupies.2.2⟩, h.operationRow, h.ofAttempt, hstate⟩

theorem blockWithFaults_effect {summary : Bytes} (hinv : Inv (view db))
    (hopen : Open (view db) attemptID operationID attempt slot job op) (hstate : op.state = .switchAuthorized)
    (hsummary : summary ≠ [])
    (h : blockWithFaults f now db attempt.jobID attemptID operationID attempt.environmentID summary = .ok db') :
    Effect now (view db) .other (view db') ∧
      At (view db').operations operationID fun o =>
        o.state = .reconciliationRequired ∧ o.outcomeSummary = summary := by
  simp only [blockWithFaults, bind_eq_ok] at h
  obtain ⟨_, -, hblock⟩ := h
  exact block_effect hinv hopen hstate hsummary hblock

-- An entry is written behind what the summary says already.
theorem appendLateEvidence_eq_some {existing fingerprint body updated : Bytes} {success : Bool}
    (h : appendLateEvidence existing fingerprint body success = some updated) :
    existing <+: updated ∧ updated ≠ [] := by
  have hseparator : lateReportSeparator ≠ [] := Bytes.ofString_ne_nil (by simp)
  unfold appendLateEvidence at h
  by_cases hmarked : Utf8.contains existing (lateReportMarker fingerprint) = true
  · rw [if_pos hmarked] at h
    cases h
  · rw [if_neg hmarked] at h
    by_cases hroom : maxOutcomeSummaryBytes - (existing.length + lateReportSeparator.length +
        (if success then 0 else lateSuccessReserve)) < (lateReportMarker fingerprint).length
    · rw [if_pos hroom] at h
      cases h
    · rw [if_neg hroom] at h
      rw [← Option.some.inj h, List.append_assoc]
      exact ⟨List.prefix_append _ _, by simp [hseparator]⟩

theorem writeLateEvidence_effect {r : ActivationReport} {jobID : Nat}
    (hrow : db.operations.get? operationID = some op) (hstate : op.state = .reconciliationRequired)
    (h : writeLateEvidence f db jobID attemptID operationID op.outcomeSummary r = .ok (some db')) :
    Effect now (view db) .other (view db') ∧
      At (view db').operations operationID fun o => o.state = .reconciliationRequired := by
  unfold writeLateEvidence at h
  split at h
  · cases h
  · rename_i updated hlate
    obtain ⟨hkept, hne⟩ := appendLateEvidence_eq_some hlate
    simp only [bind_eq_ok, during_eq_ok, Prod.exists, pure_eq_ok, Option.some.injEq] at h
    obtain ⟨_, -, db₁, _, hupdate, _, -, _, -, rfl⟩ := h
    obtain ⟨hvalid, rfl, -⟩ := (updateOperation_iff hrow (by simp [hstate])).1 hupdate
    have he : Effect now (view db) .other _ := Effect.evidence hrow hstate
      (validateReleaseOperationUpdate_checked hvalid fun _ => hne)
      (.one jobID attemptID (nextSequence db jobID) .activationLateReport) (by simp [Unreconciled]) hkept
    simp only [view_appendAgentJobEvent, view_putOperation]
    refine ⟨?_, At.write_self hstate⟩
    convert he using 1
    rfl

theorem commitUnchecked_lands {after : DB} {message : String} {r : Except Error Unit}
    (hafter : after = db ∨ Effect now (view db) .other (view after)) :
    Lands now db (commitUnchecked f db after message r).db := by
  unfold commitUnchecked
  split
  · rename_i hcommit
    rcases commitTx_cases hcommit with ⟨rfl, -⟩ | ⟨rfl, -⟩
    · exact .inl rfl
    · exact hafter
  · rename_i hcommit
    rcases commitTx_cases hcommit with ⟨rfl, -⟩ | ⟨rfl, -⟩
    · exact .inl rfl
    · exact hafter

theorem traceDeclaredContradiction_lands {jobID : Nat} :
    Lands now db (traceDeclaredContradiction f db jobID attemptID).db := by
  unfold traceDeclaredContradiction
  simp only
  split
  · exact .inl rfl
  · split
    · exact .inl rfl
    · split
      · exact .inl rfl
      · refine commitUnchecked_lands (.inr ?_)
        have he : Effect now (view db) .other _ :=
          Effect.trace (.one jobID attemptID (nextSequence db jobID) .activationLateReport) (by simp [Unreconciled])
        exact he

theorem recordLateReport_lands (hlocked : Locked db q c) (hstate : c.operation.state = .reconciliationRequired) :
    Lands now db (recordLateReport f db q c).db := by
  unfold recordLateReport
  split
  · split
    · exact .inl rfl
    · exact .inl rfl
    · rename_i after hwrite
      exact commitUnchecked_lands (.inr (writeLateEvidence_effect hlocked.operationRow hstate hwrite).1)
  · exact .inl rfl

-- The answer asks the agent to repeat the call.
def Retryable (e : Error) : Prop := mapError (classifyActivationResultError e) = .retry

theorem retryable_of_unrecorded {e : Error} (h : e.is .blockUnrecorded = true) : Retryable e := by
  simp [Retryable, classifyActivationResultError, mapError, h]

-- A database error behind one message, or no database error at all.
def Simple (e : Error) : Prop := (∃ message d, e = .wrap message (.db d)) ∨ e.hasDb (fun _ => true) = false

theorem hasDb_eq_false {e : Error} (h : e.hasDb (fun _ => true) = false) (p : DbError → Bool) : e.hasDb p = false := by
  induction e with
  | sentinel s => rfl
  | domain e => rfl
  | db e => simp [Error.hasDb] at h
  | plain text => rfl
  | wrap message inner ih => exact ih h
  | detail inner message ih => exact ih h
  | both first second ih ih' =>
      simp only [Error.hasDb, Bool.or_eq_false_iff] at h ⊢
      exact ⟨ih h.1, ih' h.2⟩
  | after inner quoted ih => exact ih h

theorem asPg_eq_none {e : Error} (h : e.hasDb (fun _ => true) = false) : e.asPg = none := by
  induction e with
  | sentinel s => rfl
  | domain e => rfl
  | db e => simp [Error.hasDb] at h
  | plain text => rfl
  | wrap message inner ih => exact ih h
  | detail inner message ih => exact ih h
  | both first second ih ih' =>
      simp only [Error.hasDb, Bool.or_eq_false_iff] at h
      simp [Error.asPg, ih h.1, ih' h.2]
  | after inner quoted ih => exact ih h

theorem retryable_of_transient {e : Error} (hsimple : Simple e) (h : isTransientActivationFailure e = true) :
    Retryable e := by
  rcases hsimple with ⟨message, d, rfl⟩ | hnone
  · cases d with
    | pg x =>
        have hretry : retryableActivationPgError x = true := by
          simpa [isTransientActivationFailure, Error.hasDb, Error.asPg, connectionFailure] using h
        simp [Retryable, classifyActivationResultError, mapError, Error.is, Error.asPg, isDeploymentDomainError,
          Error.hasDomain, hretry]
    | _ =>
        simp [Retryable, classifyActivationResultError, mapError, Error.is, Error.asPg, isDeploymentDomainError,
          Error.hasDomain]
  · simp [isTransientActivationFailure, hasDb_eq_false hnone, asPg_eq_none hnone] at h

theorem transient_wrap (message : String) (d : DbError) :
    isTransientActivationFailure (.wrap message (.db d)) = isTransientActivationFailure (.db d) := rfl

theorem simple_during {α : Type} {message : String} {x : Except DbError α} : Throws Simple (during message x) :=
  Throws.mapError fun e => .inl ⟨message, e, rfl⟩

theorem saveTx_simple (db : DB) (value : Aggregate) : Throws Simple (saveTx db value) := by
  unfold saveTx
  refine Throws.bind (Throws.mapError fun _ => .inr rfl) fun snapshot => ?_
  refine Throws.bind (Throws.found (.inr rfl)) fun stored => ?_
  refine Throws.bind (Throws.require (.inr rfl)) fun _ => ?_
  refine Throws.bind (Throws.mapError fun _ => .inr rfl) fun _ => ?_
  refine Throws.bind (Throws.require (.inr rfl)) fun _ => ?_
  exact Throws.bind simple_during fun _ => Throws.pure _

theorem transitionDeployment_simple (db : DB) (id : String) (target : Status) (at_ : Nat) :
    Throws Simple (transitionDeployment db id target at_) := by
  unfold transitionDeployment
  refine Throws.bind (Throws.found (.inr rfl)) fun snapshot => ?_
  refine Throws.bind (Throws.mapError fun _ => .inr rfl) fun current => ?_
  refine Throws.bind (Throws.mapError fun _ => .inr rfl) fun next => ?_
  exact Throws.ite (Throws.pure _) (saveTx_simple db next)

theorem retainPredecessor_simple (now : Nat) (db : DB) (predecessor : Option String) :
    Throws Simple (retainPredecessor now db predecessor) := by
  cases predecessor with
  | none => exact Throws.pure _
  | some id =>
      refine Throws.bind (Throws.require (.inr rfl)) fun _ => ?_
      exact Throws.bind simple_during fun _ => Throws.pure _

theorem finalize_simple (now : Nat) (db : DB) (i : FinalizeInput) :
    Throws Simple (finalizeActivationSucceeded now db i) := by
  unfold finalizeActivationSucceeded
  refine Throws.bind (Throws.require (.inr rfl)) fun _ => ?_
  refine Throws.bind (transitionDeployment_simple _ _ _ _) fun db => ?_
  refine Throws.bind (Throws.found (.inr rfl)) fun head => ?_
  refine Throws.bind (Throws.require (.inr rfl)) fun _ => ?_
  refine Throws.bind (Throws.require (.inr rfl)) fun _ => ?_
  refine Throws.bind (Throws.require (.inr rfl)) fun _ => ?_
  refine Throws.bind (retainPredecessor_simple _ _ _) fun db => ?_
  refine Throws.bind simple_during fun _ => ?_
  refine Throws.bind simple_during fun _ => ?_
  refine Throws.bind (Throws.require (.inr rfl)) fun _ => ?_
  refine Throws.bind simple_during fun _ => ?_
  refine Throws.bind (Throws.require (.inr rfl)) fun _ => ?_
  refine Throws.bind simple_during fun _ => ?_
  refine Throws.bind (Throws.require (.inr rfl)) fun _ => ?_
  refine Throws.bind simple_during fun _ => ?_
  refine Throws.bind (Throws.require (.inr rfl)) fun _ => ?_
  refine Throws.bind simple_during fun _ => ?_
  exact Throws.bind (Throws.require (.inr rfl)) fun _ => Throws.pure _

theorem run_simple (f : Faults) (part : Part) (place : Nat) (s : String) : Throws Simple (f.run part place s) := by
  unfold Faults.run
  split
  · exact Throws.error (.inl ⟨s, _, rfl⟩)
  · exact Throws.pure ()

theorem runAll_simple (f : Faults) (part : Part) (place : Nat) (statements : List String) :
    Throws Simple (f.runAll part place statements) := by
  induction statements generalizing place with
  | nil => exact Throws.pure ()
  | cons s rest ih => exact Throws.bind (run_simple f part place s) fun _ => ih (place + 1)

-- The operation is no longer waiting for a report.
def Decided (db : DB) (operationID : Nat) : Prop :=
  At (view db).operations operationID fun op => op.state ≠ .switchAuthorized

-- An open report: its rows, its occupied slot, and an authorization that waits for it.
structure Waiting (db : DB) (q : ReportRequest) (c : ReportContext) : Prop where
  locked : Locked db q c
  occupies : c.lease.occupies q.attemptID q.fence
  state : c.operation.state = .switchAuthorized

theorem Waiting.opens (h : Waiting db q c) :
    Open (view db) q.attemptID c.operationID c.lease.attempt c.lease.slot c.lease.job c.operation :=
  h.locked.opens h.occupies (by simp [h.state])

-- What keeps a success report from its COMMIT: a statement before the savepoint, the clock, or the finalization.
inductive FinalizeFails (f : Faults) (now : Nat) (db : DB) (q : ReportRequest) (c : ReportContext) : Error → Prop
  | deployment {e : Error} (h : f.run .recheck 0 "lock deployment for activation result" = .error e) :
      FinalizeFails f now db q c e
  | routeHead {e : Error} (h : f.run .recheck 1 "lock route head for activation result" = .error e) :
      FinalizeFails f now db q c e
  | savepoint {e : Error} (h : f.run .recheck 2 "savepoint for activation finalize" = .error e) :
      FinalizeFails f now db q c e
  | clock {e : Error} (h : f.run .finalize 0 "agent lease activation result canonical time" = .error e) :
      FinalizeFails f now db q c e
  | finalize {e : Error} (h : (do
        f.runAll .finalize 1 (finalizeStatements (reportFinalizeInput q c).deploymentID)
        finalizeActivationSucceeded now db (reportFinalizeInput q c) : Except Error DB) = .error e) :
      FinalizeFails f now db q c e

-- The evidence a report leaves when it blocks its operation: the failure it tells of, how it disagrees with what was
-- authorized, or what kept it from being finalized.
inductive ReportEvidence (f : Faults) (now : Nat) (db : DB) (q : ReportRequest) (c : ReportContext) : Bytes → Prop
  | failure (h : q.succeeded = false) : ReportEvidence f now db q c (failureOutcomeSummary q.failureSummary)
  | mismatch (h : c.operation.routeDigest ≠ q.observedRouteDigest) :
      ReportEvidence f now db q c (sanitizeOutcomeSummary (Bytes.ofString
        ("route digest mismatch: expected " ++ Traefik.digestText c.operation.routeDigest ++ " observed " ++
          Traefik.digestText q.observedRouteDigest)))
  | missing (h : db.routeHeads.get? c.environmentID = none) :
      ReportEvidence f now db q c (sanitizeOutcomeSummary (Bytes.ofString
        ("environment " ++ c.environmentID ++ " has no route head at activation result")))
  | moved (head : RouteHead) (hhead : db.routeHeads.get? c.environmentID = some head)
      (h : head.activeReleaseID ≠ c.operation.expectedActiveReleaseID ∨
        head.routeRevision ≠ c.operation.expectedRouteRevision) :
      ReportEvidence f now db q c (sanitizeOutcomeSummary (Bytes.ofString
        ("route head moved since authorization: expected revision " ++ toString c.operation.expectedRouteRevision ++
          " active " ++ optionalStringForSummary c.operation.expectedActiveReleaseID ++ ", found revision " ++
          toString head.routeRevision ++ " active " ++ optionalStringForSummary head.activeReleaseID)))
  | finalize (cause : Error) (h : FinalizeFails f now db q c cause) :
      ReportEvidence f now db q c (sanitizeOutcomeSummary (Bytes.ofString ("activation finalize failed: " ++ cause.text)))
  | commit (after : DB) (e : DbError)
      (hfinalize : finalizeActivationSucceeded now db (reportFinalizeInput q c) = .ok after)
      (hcommit : (f.commitTx db after (finalizeCommit after (reportFinalizeInput q c))).2 = .error e) :
      ReportEvidence f now db q c (sanitizeOutcomeSummary (Bytes.ofString
        ("activation finalize failed at commit: " ++ (Error.wrap "commit agent lease activation result" (.db e)).text)))

theorem sanitizeOutcomeSummary_ne_nil {s : String} (b : UInt8) {rest : Bytes} (hs : Bytes.ofString s = b :: rest)
    (t : String) (hascii : b < 0x80) (hencode : String.utf8EncodeChar (Char.ofNat b.toNat) = [b])
    (hcontrol : Utf8.isControl (Char.ofNat b.toNat) = false) (hspace : Utf8.isSpace (Char.ofNat b.toNat) = false) :
    sanitizeOutcomeSummary (Bytes.ofString (s ++ t)) ≠ [] := by
  rw [Bytes.ofString_append, hs, List.cons_append]
  exact sanitizeBoundedText_ne_nil hascii hencode hcontrol hspace (by decide)

theorem ReportEvidence.ne_nil {text : Bytes} (h : ReportEvidence f now db q c text) : text ≠ [] := by
  cases h with
  | failure _ => exact failureOutcomeSummary_ne_nil _
  | mismatch _ =>
      simp only [String.append_assoc]
      exact sanitizeOutcomeSummary_ne_nil 114 rfl _ (by decide) (by decide) (by decide) (by decide)
  | missing _ =>
      rw [String.append_assoc]
      exact sanitizeOutcomeSummary_ne_nil 101 rfl _ (by decide) (by decide) (by decide) (by decide)
  | moved _ _ _ =>
      simp only [String.append_assoc]
      exact sanitizeOutcomeSummary_ne_nil 114 rfl _ (by decide) (by decide) (by decide) (by decide)
  | finalize _ _ => exact sanitizeOutcomeSummary_ne_nil 97 rfl _ (by decide) (by decide) (by decide) (by decide)
  | commit _ _ _ _ => exact sanitizeOutcomeSummary_ne_nil 97 rfl _ (by decide) (by decide) (by decide) (by decide)

-- The operation went through, or was blocked and its summary starts with one of the given texts.
def SettledWith (evidence : Bytes → Prop) (op : Operation) : Prop :=
  op.state = .succeeded ∨ ∃ text, evidence text ∧ HoldsText text op

theorem SettledWith.mono {evidence evidence' : Bytes → Prop} (h : SettledWith evidence op)
    (hmono : ∀ text, evidence text → evidence' text) : SettledWith evidence' op := by
  rcases h with hsucceeded | ⟨text, hevidence, hholds⟩
  · exact .inl hsucceeded
  · exact .inr ⟨text, hmono text hevidence, hholds⟩

theorem SettledWith.moves {evidence : Bytes → Prop} {op' : Operation} (h : SettledWith evidence op)
    (hmoves : OperationMoves op op') : SettledWith evidence op' := by
  obtain ⟨-, hsettled, htext⟩ := hmoves
  rcases h with hsucceeded | ⟨text, hevidence, hholds⟩
  · exact .inl (hsettled (by simp [hsucceeded]) ▸ hsucceeded)
  · exact .inr ⟨text, hevidence, htext text hholds⟩

theorem SettledWith.not_waiting {evidence : Bytes → Prop} (h : SettledWith evidence op) :
    op.state ≠ .switchAuthorized := by
  intro hstate
  rcases h with hsucceeded | ⟨text, -, hholds⟩
  · cases hstate.symm.trans hsucceeded
  · exact not_holdsText_of_waiting hstate hholds

-- Where the transactions of a report can leave its operation.
def Stands (evidence : Bytes → Prop) (db : DB) (operationID : Nat) : Prop :=
  At (view db).operations operationID fun op => op.state = .switchAuthorized ∨ SettledWith evidence op

theorem Stands.mono {evidence evidence' : Bytes → Prop} (h : Stands evidence db operationID)
    (hmono : ∀ text, evidence text → evidence' text) : Stands evidence' db operationID :=
  h.imp fun _ hstands => hstands.imp_right fun hsettled => hsettled.mono hmono

theorem Stands.settled {evidence : Bytes → Prop} (h : Stands evidence db operationID)
    (hdecided : Decided db operationID) : At (view db).operations operationID (SettledWith evidence) := by
  obtain ⟨op, hop, hstands⟩ := h
  exact ⟨op, hop, hstands.resolve_left (hdecided.of_row hop)⟩

theorem SettledWith.of_block {evidence : Bytes → Prop} {summary : Bytes} (hsummary : evidence summary)
    (h : At (view db).operations operationID fun o =>
      o.state = .reconciliationRequired ∧ o.outcomeSummary = summary) :
    At (view db).operations operationID (SettledWith evidence) :=
  h.imp fun _ ⟨hstate, htext⟩ => .inr ⟨summary, hsummary, .inr ⟨.inl hstate, htext ▸ List.prefix_rfl⟩⟩

-- What the first transaction of a report leaves: nothing new, or one effect that settles its operation.
structure Leaves (f : Faults) (now : Nat) (db : DB) (q : ReportRequest) (c : ReportContext) (db' : DB) : Prop where
  lands : Lands now db db'
  stands : Stands (ReportEvidence f now db q c) db' c.operationID

theorem Waiting.leaves (h : Waiting db q c) : Leaves f now db q c db :=
  ⟨.inl rfl, .intro h.locked.operationRow (.inl h.state)⟩

theorem Waiting.commit {after : DB} {deferred r : Except DbError Unit} (h : Waiting db q c)
    (he : Effect now (view db) .other (view after))
    (hsettled : At (view after).operations c.operationID (SettledWith (ReportEvidence f now db q c)))
    (hcommit : f.commitTx db after deferred = (db', r)) : Leaves f now db q c db' := by
  rcases commitTx_cases hcommit with ⟨rfl, -⟩ | ⟨rfl, -⟩
  · exact h.leaves
  · exact ⟨.inr he, hsettled.imp fun _ => .inr⟩

theorem Waiting.block {summary : Bytes} (h : Waiting db q c) (hinv : Inv (view db))
    (hsummary : ReportEvidence f now db q c summary)
    (hblock : blockWithFaults f now db c.jobID q.attemptID c.operationID c.environmentID summary = .ok db') :
    Effect now (view db) .other (view db') ∧
      At (view db').operations c.operationID (SettledWith (ReportEvidence f now db q c)) := by
  obtain ⟨he, hblocked⟩ := blockWithFaults_effect hinv h.opens h.state hsummary.ne_nil hblock
  exact ⟨he, SettledWith.of_block hsummary hblocked⟩

-- How the first transaction of a report on an open operation ends: with the operation decided, with an
-- answer to repeat the call, or with the block handed to a fresh transaction.
structure Handles (f : Faults) (now : Nat) (db : DB) (q : ReportRequest) (c : ReportContext) (step : ReportStep) :
    Prop where
  leaves : Leaves f now db q c step.db
  checked : step.occupantChecked = true
  answer : ∀ r, step.next = .answer r → Decided step.db c.operationID ∨ ∃ e, r = .error e ∧ Retryable e
  fresh : ∀ evidence conclude, step.next = .fresh evidence conclude → ReportEvidence f now db q c evidence ∧
    ∀ e, e.is .blockUnrecorded = true → ∃ e', conclude (.error e) = .error e' ∧ e'.is .blockUnrecorded = true

theorem Handles.decided {after : DB} {r : Except Error Unit} (he : Effect now (view db) .other (view after))
    (hsettled : At (view after).operations c.operationID (SettledWith (ReportEvidence f now db q c))) :
    Handles f now db q c (Store.checked after r) where
  leaves := ⟨.inr he, hsettled.imp fun _ => .inr⟩
  checked := rfl
  answer _ _ := .inl (hsettled.imp fun _ => SettledWith.not_waiting)
  fresh _ _ h := by cases h

theorem Handles.retry {e : Error} (hleaves : Leaves f now db q c db') (hretry : Retryable e) :
    Handles f now db q c (Store.checked db' (.error e)) where
  leaves := hleaves
  checked := rfl
  answer r h := by
    cases h
    exact .inr ⟨e, rfl, hretry⟩
  fresh _ _ h := by cases h

-- A COMMIT that may have gone through is repeated.
theorem Handles.retryCommit {message : String} {e : DbError} (hleaves : Leaves f now db q c db')
    (htransient : ¬ isDeterministicActivationFailure (.db e) = true) :
    Handles f now db q c (Store.checked db' (.error (.wrap message (.db e)))) := by
  refine Handles.retry hleaves (retryable_of_transient (.inl ⟨_, e, rfl⟩) ?_)
  rw [transient_wrap]
  simpa [isDeterministicActivationFailure] using htransient

theorem Handles.block {evidence : Bytes} {conclude : Except Error BlockOutcome → Except Error Unit}
    (hleaves : Leaves f now db q c db') (hevidence : ReportEvidence f now db q c evidence)
    (hconclude : ∀ e, e.is .blockUnrecorded = true →
      ∃ e', conclude (.error e) = .error e' ∧ e'.is .blockUnrecorded = true) :
    Handles f now db q c ⟨db', true, .fresh evidence conclude⟩ where
  leaves := hleaves
  checked := rfl
  answer _ h := by cases h
  fresh _ _ h := by
    cases h
    exact ⟨hevidence, hconclude⟩

theorem concludeAborted_unrecorded (cause e : Error) (h : e.is .blockUnrecorded = true) :
    ∃ e', concludeAborted cause (.error e) = .error e' ∧ e'.is .blockUnrecorded = true :=
  ⟨_, rfl, h⟩

theorem blockAfterAbortedTransaction_handles {start : String} {cause : Error} (hleaves : Leaves f now db q c db')
    (hevidence : ReportEvidence f now db q c (sanitizeOutcomeSummary (Bytes.ofString (start ++ cause.text)))) :
    Handles f now db q c (blockAfterAbortedTransaction db' start cause) :=
  Handles.block hleaves hevidence (concludeAborted_unrecorded cause)

theorem abortAndBlock_handles {cause : Error} (h : Waiting db q c) (hfails : FinalizeFails f now db q c cause)
    (hsimple : Simple cause) :
    Handles f now db q c (abortAndBlock db cause) := by
  unfold abortAndBlock
  split
  · exact blockAfterAbortedTransaction_handles h.leaves (.finalize cause hfails)
  · rename_i htransient
    refine Handles.retry h.leaves (retryable_of_transient hsimple ?_)
    simpa [isDeterministicActivationFailure] using htransient

theorem refuseAmbiguous_handles {evidence : String} {refusal : Error} (h : Waiting db q c) (hinv : Inv (view db))
    (hevidence : ReportEvidence f now db q c (sanitizeOutcomeSummary (Bytes.ofString evidence))) :
    Handles f now db q c (refuseAmbiguous f now db q c evidence refusal) := by
  unfold refuseAmbiguous
  simp only
  split
  · exact Handles.retry h.leaves (retryable_of_unrecorded rfl)
  · rename_i after hblock
    obtain ⟨he, hsettled⟩ := h.block hinv hevidence hblock
    split
    · rename_i db₁ hcommit
      obtain rfl := commitTx_ok hcommit
      exact Handles.decided he hsettled
    · rename_i db₁ e hcommit
      have hleaves := h.commit he hsettled hcommit
      split
      · exact Handles.block hleaves hevidence fun e he => ⟨_, rfl, he⟩
      · rename_i htransient
        exact Handles.retryCommit hleaves htransient

theorem reportFailure_handles (h : Waiting db q c) (hinv : Inv (view db)) (hfailed : c.report.succeeded = false) :
    Handles f now db q c (reportFailure f now db q c) := by
  have hevidence : ReportEvidence f now db q c c.report.failureSummary := by
    rw [h.locked.reported] at hfailed ⊢
    exact .failure hfailed
  unfold reportFailure
  split
  · exact Handles.retry h.leaves (retryable_of_unrecorded rfl)
  · rename_i after hblock
    obtain ⟨he, hsettled⟩ := h.block hinv hevidence hblock
    split
    · rename_i db₁ hcommit
      obtain rfl := commitTx_ok hcommit
      exact Handles.decided he hsettled
    · rename_i db₁ e hcommit
      have hleaves := h.commit he hsettled hcommit
      simp only
      split
      · exact Handles.block hleaves hevidence fun e he => ⟨_, rfl, he⟩
      · rename_i htransient
        exact Handles.retryCommit hleaves htransient

theorem blockAfterFinalizeFailure_handles {cause : Error} (h : Waiting db q c) (hinv : Inv (view db))
    (hfails : FinalizeFails f now db q c cause) (hsimple : Simple cause) :
    Handles f now db q c (blockAfterFinalizeFailure f now db q c cause) := by
  unfold blockAfterFinalizeFailure
  split
  · rename_i htransient
    refine Handles.retry h.leaves (retryable_of_transient hsimple ?_)
    simpa [isDeterministicActivationFailure] using htransient
  · split
    · exact Handles.retry h.leaves (retryable_of_unrecorded rfl)
    · simp only
      split
      · exact Handles.retry h.leaves (retryable_of_unrecorded rfl)
      · rename_i after hblock
        obtain ⟨he, hsettled⟩ := h.block hinv (.finalize cause hfails) hblock
        split
        · rename_i db₁ hcommit
          obtain rfl := commitTx_ok hcommit
          exact Handles.decided he hsettled
        · rename_i db₁ e hcommit
          have hleaves := h.commit he hsettled hcommit
          split
          · exact blockAfterAbortedTransaction_handles hleaves (.finalize cause hfails)
          · exact Handles.retry hleaves (retryable_of_unrecorded rfl)

theorem reportFinalize_handles (h : Waiting db q c) (hinv : Inv (view db)) :
    Handles f now db q c (reportFinalize f now db q c) := by
  unfold reportFinalize
  simp only
  split
  · rename_i e hrun
    exact blockAfterFinalizeFailure_handles h hinv (.clock hrun) (run_simple f _ _ _ e hrun)
  · split
    · rename_i e hfinalize
      refine blockAfterFinalizeFailure_handles h hinv (.finalize hfinalize) ?_
      exact (Throws.bind (runAll_simple f _ _ _) fun _ => finalize_simple now db _) e hfinalize
    · rename_i after hfinalize
      simp only [bind_eq_ok] at hfinalize
      obtain ⟨_, -, hfinalized⟩ := hfinalize
      have hinput : reportFinalizeInput q c = openInput q.attemptID c.operationID c.lease.attempt c.lease.job c.operation
          q.observedRouteDigest
          (Bytes.ofString ("activated route_digest=" ++ Traefik.digestText q.observedRouteDigest)) := by
        simp only [reportFinalizeInput, openInput, h.state, ReportContext.jobID, ReportContext.environmentID]
      obtain ⟨he, ⟨o, ho, -, hsucceeded, -⟩, -⟩ := finalize_effect hinv h.opens (hinput ▸ hfinalized) (concerns_nil _ _)
      simp only [List.append_nil] at he
      have hsettled : At (view after).operations c.operationID (SettledWith (ReportEvidence f now db q c)) :=
        ⟨o, ho, .inl hsucceeded⟩
      split
      · rename_i db₁ hcommit
        obtain rfl := commitTx_ok hcommit
        exact Handles.decided he hsettled
      · rename_i db₁ e hcommit
        have hleaves := h.commit he hsettled hcommit
        split
        · exact blockAfterAbortedTransaction_handles hleaves (.commit after e hfinalized (by rw [hcommit]))
        · rename_i htransient
          exact Handles.retryCommit hleaves htransient

theorem reportSuccess_handles (h : Waiting db q c) (hinv : Inv (view db)) :
    Handles f now db q c (reportSuccess f now db q c) := by
  unfold reportSuccess
  simp only
  split
  · rename_i e hrun
    exact abortAndBlock_handles h (.deployment hrun) (run_simple f _ _ _ e hrun)
  · split
    · rename_i e hrun
      exact abortAndBlock_handles h (.routeHead hrun) (run_simple f _ _ _ e hrun)
    · split
      · rename_i hmissing
        exact refuseAmbiguous_handles h hinv (.missing hmissing)
      · rename_i head hhead
        split
        · rename_i hmoved
          exact refuseAmbiguous_handles h hinv (.moved head hhead hmoved)
        · split
          · rename_i e hrun
            exact abortAndBlock_handles h (.savepoint hrun) (run_simple f _ _ _ e hrun)
          · exact reportFinalize_handles h hinv

theorem reportOpen_handles (h : Waiting db q c) (hinv : Inv (view db)) :
    Handles f now db q c (reportOpen f now db q c) := by
  unfold reportOpen
  split
  · rename_i hfailed
    exact reportFailure_handles h hinv hfailed
  · split
    · rename_i hdiffers
      rw [h.locked.reported] at hdiffers
      exact refuseAmbiguous_handles h hinv (.mismatch (by simpa using hdiffers))
    · exact reportSuccess_handles h hinv

theorem reportTx_lands (hinv : Inv (view db)) : Lands now db (reportTx f now db q).db := by
  unfold reportTx
  split
  · exact .inl rfl
  · rename_i c hlock
    have hlocked := lockReport_locked hlock
    split
    · split
      · exact commitUnchecked_lands (.inl rfl)
      · exact traceDeclaredContradiction_lands
    · split
      · exact traceDeclaredContradiction_lands
      · exact .inl rfl
    · rename_i hstate
      split
      · exact commitUnchecked_lands (.inl rfl)
      · exact recordLateReport_lands hlocked hstate
    · exact .inl rfl
    · rename_i hstate
      split
      · rename_i hoccupies
        exact (reportOpen_handles ⟨hlocked, hoccupies, hstate⟩ hinv).leaves.lands
      · exact .inl rfl

-- The fresh transaction.

theorem lockBlock_eq_ok {q : BlockRequest} {l : Lease} (h : lockBlock f db q = .ok (l, op)) :
    db.attempts.get? q.attemptID = some l.attempt ∧ db.slots.get? l.attempt.environmentID = some l.slot ∧
      db.jobs.get? l.attempt.jobID = some l.job ∧ db.operations.get? q.operationID = some op ∧
      op.attemptID = q.attemptID ∧ op.fence = q.fence := by
  simp only [lockBlock, bind_eq_ok, found_eq_ok, pure_eq_ok, Prod.mk.injEq, Option.filter_eq_some_iff,
    Bool.and_eq_true, beq_iff_eq] at h
  obtain ⟨_, -, attempt, ⟨hattempt, -⟩, slot, hslot, job, hjob, op', ⟨hop, hof⟩, rfl, rfl⟩ := h
  exact ⟨hattempt, hslot, hjob, hop, hof⟩

theorem commitBlock_cases {after : DB} {message : String} {outcome : BlockOutcome} {r : Except Error BlockOutcome}
    (h : commitBlock f db after message outcome = (db', r)) :
    (db' = db ∨ db' = after) ∧ ((∃ e, r = .error e ∧ e.is .blockUnrecorded = true) ∨ r = .ok outcome ∧ db' = after) := by
  unfold commitBlock at h
  split at h
  · rename_i hcommit
    obtain ⟨rfl, rfl⟩ := Prod.mk.inj h
    obtain rfl := commitTx_ok hcommit
    exact ⟨.inr rfl, .inr ⟨rfl, rfl⟩⟩
  · rename_i e hcommit
    obtain ⟨rfl, rfl⟩ := Prod.mk.inj h
    exact ⟨(commitTx_cases hcommit).imp And.left And.left, .inl ⟨_, rfl, rfl⟩⟩

-- What the fresh transaction does: it fails with an answer to repeat the call, or it finds or leaves the operation
-- decided. The text it blocks with is its own.
structure Records (now : Nat) (db : DB) (q : BlockRequest) (db' : DB) (r : Except Error BlockOutcome) : Prop where
  lands : Lands now db db'
  ends : (∃ e, r = .error e ∧ e.is .blockUnrecorded = true) ∨ (∃ outcome, r = .ok outcome) ∧ Decided db' q.operationID
  stands : ∀ evidence, evidence q.evidence → Stands evidence db q.operationID → Stands evidence db' q.operationID

theorem Records.unrecorded {q : BlockRequest} {e : Error} (h : e.is .blockUnrecorded = true) :
    Records now db q db (.error e) :=
  ⟨.inl rfl, .inl ⟨e, rfl, h⟩, fun _ _ h => h⟩

theorem Records.found {q : BlockRequest} {outcome : BlockOutcome} (h : Decided db q.operationID) :
    Records now db q db (.ok outcome) :=
  ⟨.inl rfl, .inr ⟨⟨outcome, rfl⟩, h⟩, fun _ _ h => h⟩

theorem Records.commit {q : BlockRequest} {after : DB} {message : String} {outcome : BlockOutcome}
    {r : Except Error BlockOutcome} (he : Effect now (view db) .other (view after))
    (hdecided : Decided after q.operationID)
    (hstands : ∀ evidence, evidence q.evidence → Stands evidence db q.operationID → Stands evidence after q.operationID)
    (h : commitBlock f db after message outcome = (db', r)) : Records now db q db' r := by
  obtain ⟨rfl | rfl, hends⟩ := commitBlock_cases h
  · refine ⟨.inl rfl, hends.imp_right ?_, fun _ _ h => h⟩
    rintro ⟨rfl, rfl⟩
    exact ⟨⟨outcome, rfl⟩, hdecided⟩
  · refine ⟨.inr he, hends.imp_right ?_, hstands⟩
    rintro ⟨rfl, -⟩
    exact ⟨⟨outcome, rfl⟩, hdecided⟩

theorem recordBlock_records {q : BlockRequest} {r : Except Error BlockOutcome} (hinv : Inv (view db))
    (hevidence : q.evidence ≠ []) (h : recordBlockInFreshTransaction f now db q = (db', r)) :
    Records now db q db' r := by
  unfold recordBlockInFreshTransaction at h
  split at h
  · obtain ⟨rfl, rfl⟩ := Prod.mk.inj h
    exact .unrecorded rfl
  · rename_i l op hlock
    obtain ⟨hattempt, hslot, hjob, hop, hof, hfence⟩ := lockBlock_eq_ok hlock
    have hstays (hstate : op.state ≠ .switchAuthorized) : Decided db q.operationID := ⟨op, hop, hstate⟩
    simp only at h
    split at h
    · rename_i hstate
      obtain ⟨rfl, rfl⟩ := Prod.mk.inj h
      exact .found (hstays (by simp [hstate]))
    · split at h
      · rename_i hstate
        have hdecided := hstays (by simp [hstate])
        split at h
        · obtain ⟨rfl, rfl⟩ := Prod.mk.inj h
          exact .found hdecided
        · split at h
          · obtain ⟨rfl, rfl⟩ := Prod.mk.inj h
            exact .found hdecided
          · split at h
            · obtain ⟨rfl, rfl⟩ := Prod.mk.inj h
              exact .unrecorded rfl
            · obtain ⟨rfl, rfl⟩ := Prod.mk.inj h
              exact .found hdecided
            · rename_i after hwrite
              obtain ⟨he, hlate⟩ := writeLateEvidence_effect hop hstate hwrite
              refine .commit he (hlate.imp fun o ho => by simp [ho]) (fun evidence _ hstands => ?_) h
              -- the entry stands behind the text the operation was blocked with
              obtain ⟨op₁, hop₁, hsettled⟩ := hstands.settled hdecided
              exact (he.operation_moves hop₁).imp fun _ hmoves => .inr (hsettled.moves hmoves)
      · split at h
        · rename_i hother
          obtain ⟨rfl, rfl⟩ := Prod.mk.inj h
          refine .found (hstays fun hstate => ?_)
          -- an open operation belongs to the occupant
          obtain ⟨attempt', slot', job', hholds, hofAttempt, -⟩ :=
            hinv.activations.holds hinv.occupancy hop (by simp [hstate])
          have hfits := hinv.occupancy.holds_fitsSlot hholds
          have hrow : db.attempts.get? op.attemptID = some attempt' := hholds.attemptRow
          rw [hof, hattempt] at hrow
          cases hrow
          have hrow : db.slots.get? l.attempt.environmentID = some slot' := hholds.slotRow
          rw [hslot] at hrow
          cases hrow
          have hoccupies : l.occupies q.attemptID q.fence :=
            ⟨hholds.leased, by rw [(hfits.leased hholds.leased).2, ← hofAttempt.fence, hfence], hof ▸ hholds.occupies⟩
          simp [hstate, hoccupies] at hother
        · rename_i hoccupant
          simp only [ne_eq, not_or, not_not, Bool.not_eq_true', Bool.not_eq_false, decide_eq_true_eq] at hoccupant
          obtain ⟨hstate, hoccupies⟩ := hoccupant
          split at h
          · obtain ⟨rfl, rfl⟩ := Prod.mk.inj h
            exact .unrecorded rfl
          · rename_i after hblock
            obtain ⟨he, hblocked⟩ := blockWithFaults_effect hinv
              ⟨⟨hattempt, hslot, hjob, hoccupies.1, hoccupies.2.2⟩, hop, hof, by simp [hstate]⟩ hstate hevidence hblock
            refine .commit he (hblocked.imp fun o ho => by simp [ho.1]) (fun evidence hown _ => ?_) h
            exact (SettledWith.of_block hown hblocked).imp fun _ => .inr

end

end AutoDeploy.Protocol
