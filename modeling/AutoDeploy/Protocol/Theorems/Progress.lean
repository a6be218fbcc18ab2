import AutoDeploy.Protocol.Frames
import AutoDeploy.Protocol.Theorems.Lifecycles

namespace AutoDeploy.Protocol

open Lib Lib.Result Queue Store Deployment

-- One recorded status after another: one step further along the execution order, or the end of the path. What is
-- off the order is followed by nothing.
def Climbs (e e' : Event) : Prop :=
  ∃ n, executionOrder e.toStatus = some n ∧
    (executionOrder e'.toStatus = some (n + 1) ∨ isTerminal e'.toStatus = true)

-- The transactions that end a switch as successful: a successful report, or a declared activated resolution.
def Txn.concludes : Txn → Prop
  | .report _ request => request.succeeded = true
  | .resolveActivation _ _ outcome _ => outcome = .activated
  | .reconcileActivation _ _ _ _ _ outcome _ => outcome = .activated
  | _ => False

def Txn.isProgress : Txn → Prop
  | .reportProgress _ _ _ _ _ => True
  | _ => False

-- What an event a transaction records may say.
structure RecordedBy (txn : Txn) (e : Event) : Prop where
  activating : e.toStatus = .activating → txn.isActivation
  healthy : e.toStatus = .healthy → txn.concludes
  progress : txn.isProgress → e.toStatus ≠ .activating ∧ e.toStatus ≠ .healthy ∧ isTerminal e.toStatus = false

section

variable {db db' : DB} {now : Nat} {txn : Txn} {name : String} {s s' : Snapshot}

theorem climbs_of_canTransition {source target : Status} (h : canTransition source target = true) :
    ∃ n, executionOrder source = some n ∧ (executionOrder target = some (n + 1) ∨ isTerminal target = true) := by
  cases source <;> cases target <;> first | (cases h; done) | exact ⟨_, rfl, .inl rfl⟩ | exact ⟨_, rfl, .inr rfl⟩

-- The walk over the events climbs.
theorem validateEvents_climbs {first : Event} {events : List Event} {previousAt index : Nat} {last : Status × Nat}
    (h : validateEvents first.toStatus previousAt index events = .ok last) : (first :: events).IsChain Climbs := by
  induction events generalizing first previousAt index with
  | nil => exact .singleton _
  | cons event rest ih =>
      simp only [validateEvents] at h
      split at h
      · cases h
      · split at h
        · cases h
        · rename_i hmove
          simp only [not_or, ne_eq, not_not, Bool.not_eq_false] at hmove
          exact .cons_cons (climbs_of_canTransition hmove.2) (ih h)

theorem DeploymentStored.climbs (h : DeploymentStored name s) :
    s.events.IsChain Climbs ∧ ∃ e, s.events.getLast? = some e ∧ e.toStatus = s.status := by
  have hvalid := h.rehydrates
  unfold rehydrate at hvalid
  split at hvalid
  · cases hvalid
  · split at hvalid
    · cases hvalid
    · rename_i hchecked
      obtain ⟨-, -, -, hhead, hwalk⟩ := Aggregate.validate_eq_ok.1 hchecked
      obtain ⟨rest, hrest⟩ := List.head?_eq_some_iff.1 hhead
      have hevents : s.events = ⟨none, .queued, s.createdAt⟩ :: rest := hrest
      have hwalk : validateEvents .queued s.createdAt 1 s.events.tail = .ok (s.status, s.updatedAt) := hwalk
      rw [hevents] at hwalk
      obtain ⟨e, hlast, hstatus, -⟩ := lastEvent_of_valid hchecked
      exact ⟨hevents ▸ validateEvents_climbs hwalk, e, hlast, hstatus⟩

-- What a transaction has recorded of a deployment so far.
structure Recording (txn : Txn) (s s' : Snapshot) (added : List Event) : Prop where
  events : s'.events = s.events ++ added
  activating : ∀ e ∈ added, e.toStatus = .activating → txn.isActivation
  healthy : ∀ e ∈ added, e.toStatus = .healthy → s'.status = .healthy

-- A healthy deployment takes no further step, so a recorded switch is the last thing recorded.
theorem Recording.advance {added : List Event} {kind : Kind} {s'' : Snapshot} (h : Recording txn s s' added)
    (hpermits : Permits now db txn kind) (hadvances : Advances now kind s' s'') :
    ∃ added', Recording txn s s'' added' := by
  rcases hadvances with rfl | ⟨target, hstep, hactivating, hforward, rfl⟩
  · exact ⟨added, h⟩
  · have hunhealthy : s'.status ≠ .healthy := by
      intro hhealthy
      rw [hhealthy] at hstep
      cases target <;> simp_all [canTransition]
    refine ⟨added ++ [⟨some s'.status, target, now⟩], ?_, fun e he => ?_, fun e he => ?_⟩
    · simp [advanceSnapshot, h.events]
    · rcases List.mem_append.1 he with hold | hnew
      · exact h.activating e hold
      · rw [List.mem_singleton.1 hnew]
        exact fun heq => hpermits.authorizes (hactivating heq)
    · rcases List.mem_append.1 he with hold | hnew
      · exact fun heq => absurd (h.healthy e hold heq) hunhealthy
      · rw [List.mem_singleton.1 hnew]
        exact fun heq => heq

theorem Sound.recording (h : Sound db) (hrow : db.deployments.get? name = some s) :
    ∃ s' added, (Protocol.exec now db txn).deployments.get? name = some s' ∧ Recording txn s s' added := by
  have hstart : At (view db).deployments name fun s' => ∃ added, Recording txn s s' added :=
    .intro hrow ⟨[], by simp, by simp, by simp⟩
  have hend : At (view (Protocol.exec now db txn)).deployments name fun s' => ∃ added, Recording txn s s' added := by
    refine h.exec_preserves (P := fun v => At v.deployments name fun s' => ∃ added, Recording txn s s' added) hstart ?_
    rintro v v' kind hpermits - ⟨s', hrow', added, hrecording⟩ he
    exact (he.deployment_advances hrow').imp fun _ hadvances => hrecording.advance hpermits hadvances
  obtain ⟨s', hrow', added, hrecording⟩ := hend
  exact ⟨s', added, hrow', hrecording⟩

theorem moves_healthy (h : txn.moves .healthy) : txn.concludes := by
  cases txn with
  | report faults request => exact h.2
  | resolveActivation p environmentID outcome reason =>
      rcases h with ⟨-, houtcome⟩ | hfailed
      · exact houtcome
      · cases hfailed
  | reconcileActivation serverID presented environmentID attemptID fence outcome outcomeDigest =>
      rcases h with ⟨-, houtcome⟩ | hfailed
      · exact houtcome
      · cases hfailed
  | reportProgress serverID presented attemptID fence phase =>
      obtain ⟨rfl, hphase⟩ := h
      cases hphase
  | _ => simp [Txn.moves] at h

-- A progress report records its phase or nothing.
theorem reportProgress_records {serverID : String} {presented : Digest} {attemptID fence : Nat} {phase : Status}
    (hinv : Inv (view db)) (h : reportProgress now db serverID presented attemptID fence phase = .ok (db', ()))
    (hrow : db.deployments.get? name = some s) : agentReportablePhase phase = true ∧
      (db'.deployments.get? name = some s ∨ db'.deployments.get? name = some (advanceSnapshot s phase now)) := by
  simp only [reportProgress, bind_eq_ok, require_eq_ok, found_eq_ok] at h
  obtain ⟨_, hphase, l, -, _, -, _, -, h⟩ := h
  refine ⟨hphase, ?_⟩
  split at h
  · cases h
    exact .inl hrow
  · simp only [bind_eq_ok, pure_eq_ok, Prod.mk.injEq] at h
    obtain ⟨_, -, moved, hmove, rfl, -⟩ := h
    obtain ⟨old, hold, ⟨-, rfl⟩ | ⟨-, -, -, rfl⟩⟩ := transitionDeployment_cases
      (fun s hs => hinv.pipeline.stored l.job.deploymentID s hs) hmove
    · exact .inl hrow
    · by_cases hname : name = l.job.deploymentID
      · subst hname
        rw [hrow] at hold
        cases hold
        exact .inr (by simp)
      · refine .inl ?_
        simp only [Table.get?_put, if_neg hname]
        exact hrow

theorem reportable_inner {phase : Status} (h : agentReportablePhase phase = true) :
    phase ≠ .activating ∧ phase ≠ .healthy ∧ isTerminal phase = false := by
  revert h
  cases phase <;> decide

theorem Sound.progress_records (h : Sound db) (hprogress : txn.isProgress) (hrow : db.deployments.get? name = some s) :
    (Protocol.exec now db txn).deployments.get? name = some s ∨ ∃ phase, agentReportablePhase phase = true ∧
      (Protocol.exec now db txn).deployments.get? name = some (advanceSnapshot s phase now) := by
  cases txn with
  | reportProgress serverID presented attemptID fence phase =>
      simp only [Protocol.exec]
      cases hcall : reportProgress now db serverID presented attemptID fence phase with
      | error e => exact .inl hrow
      | ok r =>
          obtain ⟨hphase, hsame | hmoved⟩ := reportProgress_records h.inv hcall hrow
          · exact .inl hsame
          · exact .inr ⟨phase, hphase, hmoved⟩
  | _ => exact absurd hprogress fun h => h

-- Everything a transaction records of a deployment.
theorem Sound.records (h : Sound db) (now : Nat) (txn : Txn) (hrow : db.deployments.get? name = some s) :
    ∃ s' added, (Protocol.exec now db txn).deployments.get? name = some s' ∧ s'.events = s.events ++ added ∧
      ∀ e ∈ added, RecordedBy txn e := by
  obtain ⟨s', added, hrow', hrecording⟩ : ∃ s' added, (Protocol.exec now db txn).deployments.get? name = some s' ∧
    Recording txn s s' added := h.recording hrow
  refine ⟨s', added, hrow', hrecording.events, fun e he => ⟨hrecording.activating e he, fun hhealthy => ?_, fun hprogress => ?_⟩⟩
  · have hstatus := hrecording.healthy e he hhealthy
    rcases exec_moves hrow' with hsame | hmove
    · rw [hrow] at hsame
      cases hsame
      have hnone : added = [] := List.append_right_eq_self.1 hrecording.events.symm
      rw [hnone] at he
      cases he
    · exact moves_healthy (hstatus ▸ hmove)
  · rcases h.progress_records hprogress hrow with hsame | ⟨phase, hphase, hmoved⟩
    · rw [hrow'] at hsame
      cases hsame
      have hnone : added = [] := List.append_right_eq_self.1 hrecording.events.symm
      rw [hnone] at he
      cases he
    · rw [hrow'] at hmoved
      cases hmoved
      have hone : added = [⟨some s.status, phase, now⟩] := (List.append_cancel_left hrecording.events).symm
      rw [hone] at he
      rw [List.mem_singleton.1 he]
      exact reportable_inner hphase

-- What is recorded stays recorded.
theorem Sound.history_grows (h : Sound db) (hrun : leaseSystem.Run db db') (hrow : db.deployments.get? name = some s) :
    ∃ s', db'.deployments.get? name = some s' ∧ s.events <+: s'.events := by
  have hstart : At (view db).deployments name fun s' => s.events <+: s'.events := .intro hrow (List.prefix_refl _)
  refine h.run_preserves (P := fun v => At v.deployments name fun s' => s.events <+: s'.events) hrun hstart ?_
  rintro now v v' kind - - ⟨s', hrow', hprefix⟩ he
  refine (he.deployment_advances hrow').imp fun s'' hadvances => ?_
  rcases hadvances with rfl | ⟨target, -, -, -, rfl⟩
  · exact hprefix
  · exact hprefix.trans (List.prefix_append _ _)

end

-- The history of every deployment climbs the execution order until it ends, it only grows, and each transaction
-- records what it may.
theorem progress_never_goes_back {db : DB} (h : leaseSystem.Reachable db) :
    (∀ name s, db.deployments.get? name = some s →
      s.events.IsChain Climbs ∧ ∃ e, s.events.getLast? = some e ∧ e.toStatus = s.status) ∧
    (∀ db', leaseSystem.Run db db' → ∀ name s, db.deployments.get? name = some s →
      ∃ s', db'.deployments.get? name = some s' ∧ s.events <+: s'.events) ∧
    ∀ now txn name s, db.deployments.get? name = some s →
      ∃ s' added, (exec now db txn).deployments.get? name = some s' ∧ s'.events = s.events ++ added ∧
        ∀ e ∈ added, RecordedBy txn e := by
  have hsound := sound_of_reachable h
  refine ⟨fun name s hrow => ?_, fun db' hrun name s hrow => hsound.history_grows hrun hrow,
    fun now txn name s hrow => hsound.records now txn hrow⟩
  exact DeploymentStored.climbs (hsound.inv.pipeline.stored name s hrow)

theorem progress_never_goes_back_authorized :
    ∃ s s' added, sampleAuthorized.deployments.get? "dep" = some s ∧ s.events.map Event.toStatus =
      [.queued, .assigned, .fetching, .building, .starting, .healthChecking, .activating] ∧ s.events.IsChain Climbs ∧
      (exec 7000 sampleAuthorized (.reportProgress "srv" sampleToken 1 1 .building)).deployments.get? "dep" = some s' ∧
      s'.events = s.events ++ added := by
  have hstored : ((sampleAuthorized.deployments.get? "dep").map fun s => s.events.map Event.toStatus) =
      some [.queued, .assigned, .fetching, .building, .starting, .healthChecking, .activating] := by
    rw [sampleAuthorized_eq]
    decide +kernel
  obtain ⟨s, hs, hevents⟩ := Option.map_eq_some_iff.1 hstored
  obtain ⟨hclimbs, -, hrecords⟩ := progress_never_goes_back sampleAuthorized_reachable
  obtain ⟨s', added, hrow', hadded, -⟩ := hrecords 7000 (.reportProgress "srv" sampleToken 1 1 .building) "dep" s hs
  exact ⟨s, s', added, hs, hevents, (hclimbs "dep" s hs).1, hrow', hadded⟩

end AutoDeploy.Protocol
