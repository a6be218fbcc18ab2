import AutoDeploy.Protocol.System

namespace AutoDeploy.Protocol

open Lib Lib.Result Queue Store Deployment

-- What an activation that is neither succeeded nor failed rests on.
structure Supported (db : DB) (op : Operation) (attempt : Attempt) (slot : Slot) (job : Job) (deployment : Snapshot)
    (release : Release) : Prop where
  attemptRow : db.attempts.get? op.attemptID = some attempt
  slotRow : db.slots.get? op.environmentID = some slot
  jobRow : db.jobs.get? op.jobID = some job
  deploymentRow : db.deployments.get? job.deploymentID = some deployment
  releaseRow : db.releases.get? op.releaseID = some release
  ofAttempt : attempt.environmentID = op.environmentID ∧ attempt.jobID = op.jobID
  leased : attempt.state = .leased
  occupies : slot.currentAttemptID = some op.attemptID
  fences : op.fence = attempt.fence ∧ attempt.fence = slot.fence
  jobLeased : job.state = .leased ∧ job.cancelRequestedAt = none
  activating : deployment.status = .activating
  ready : release.state = .ready
  flagged : op.state = .reconciliationRequired → slot.reconciliationAttemptID = some op.attemptID ∧
    ∃ head, db.routeHeads.get? op.environmentID = some head ∧ head.reconciliationRequired = true

-- The unresolved activation of a deployment.
def ActivationOf (db : DB) (deploymentID : String) (operationID : Nat) : Prop :=
  ∃ op job, db.operations.get? operationID = some op ∧ unresolvedActivation op.state = true ∧
    db.jobs.get? op.jobID = some job ∧ job.deploymentID = deploymentID

section

variable {db db' : DB}

theorem supported_of_unresolved {operationID : Nat} {op : Operation} (hinv : Inv (view db))
    (hrow : db.operations.get? operationID = some op) (hopen : unresolvedActivation op.state = true) :
    ∃ attempt slot job deployment release, Supported db op attempt slot job deployment release := by
  have ha := hinv.activations
  obtain ⟨attempt, slot, job, hholds, hof, hofJob⟩ := ha.holds hinv.occupancy hrow hopen
  obtain ⟨deployment, hdeployment, hactivating⟩ := ha.ofDeployment operationID op hrow hopen
  obtain ⟨release, hrelease, hofRelease⟩ := ha.ofRelease operationID op hrow
  obtain ⟨hoccupies, hfence⟩ := (hinv.occupancy.holds_fitsSlot hholds).leased hholds.leased
  have hslot : db.slots.get? op.environmentID = some slot := hof.environment ▸ hholds.slotRow
  refine ⟨attempt, slot, job, deployment, release,
    { attemptRow := hholds.attemptRow
      slotRow := hslot
      jobRow := hof.job ▸ hholds.jobRow
      deploymentRow := hofJob.release ▸ hdeployment
      releaseRow := hrelease
      ofAttempt := ⟨hof.environment.symm, hof.job.symm⟩
      leased := hholds.leased
      occupies := hoccupies
      fences := ⟨hof.fence, hfence.symm⟩
      jobLeased := ⟨((hinv.occupancy.holds_fitsJob hholds).leased hholds.leased).1, hofJob.unmarked hopen⟩
      activating := hactivating
      ready := hofRelease.ready hopen
      flagged := fun hstate => ?_ }⟩
  obtain ⟨head, hhead, hofHead⟩ := ha.ofHead operationID op hrow
  exact ⟨(ha.ofSlot operationID op hrow hstate).of_row hslot, head, hhead, hofHead.flagged hstate⟩

-- In every state: an unresolved activation is backed by its attempt, slot, job, deployment, release and
-- flags, and an activating deployment has exactly one unresolved activation.
theorem unresolved_activations_supported (h : leaseSystem.Reachable db) :
    (∀ operationID op, db.operations.get? operationID = some op → unresolvedActivation op.state = true →
      ∃ attempt slot job deployment release, Supported db op attempt slot job deployment release) ∧
    (∀ deploymentID s, db.deployments.get? deploymentID = some s → s.status = .activating →
      ∃ operationID, ActivationOf db deploymentID operationID ∧
        ∀ other, ActivationOf db deploymentID other → other = operationID) := by
  have hinv := (sound_of_reachable h).inv
  refine ⟨fun operationID op hrow hopen => supported_of_unresolved hinv hrow hopen, fun deploymentID s hs hstatus => ?_⟩
  obtain ⟨operationID, op, hrow, rfl, hopen⟩ := hinv.activations.activating deploymentID s hs hstatus
  obtain ⟨attempt, slot, job, hholds, hof, hofJob⟩ := hinv.activations.holds hinv.occupancy hrow hopen
  refine ⟨operationID, ⟨op, job, hrow, hopen, hof.job ▸ hholds.jobRow, hofJob.release.symm⟩, ?_⟩
  rintro other ⟨op', job', hrow', hopen', hjob', hsame⟩
  have hrelease := ((hinv.activations.ofJob other op' hrow').of_row hjob').release
  have hattempt := hinv.activations.of_deployment hinv.occupancy hinv.pipeline hholds hrow' hopen'
    (by rw [hrelease, hsame, hofJob.release])
  exact hinv.activations.unique other op' hrow' operationID op hrow hattempt

-- An authorized activation of the sample.
def sampleAuthorized : DB :=
  execAll sampleDB
    [(1000, .claim "srv" sampleToken 1),
      (2000, .reportProgress "srv" sampleToken 1 1 .fetching),
      (3000, .reportProgress "srv" sampleToken 1 1 .building),
      (4000, .reportProgress "srv" sampleToken 1 1 .starting),
      (5000, .reportProgress "srv" sampleToken 1 1 .healthChecking),
      (6000, .activate "srv" sampleToken 1 1 sampleToken)]

theorem sampleAuthorized_reachable : leaseSystem.Reachable sampleAuthorized :=
  reachable_execAll (sampleDB_reachable _) fun _ _ _ => trivial

-- Its rows, written out: what starts from them need not be run from the beginning.
def sampleConfigDigest : Digest :=
  ⟨[36, 74, 19, 80, 132, 33, 120, 83, 61, 250, 87, 73, 42, 113, 234, 53, 57, 52, 24, 115, 221, 233, 153, 35, 100, 187,
    239, 180, 14, 222, 95, 38], rfl⟩

def sampleDocumentDigest : Digest :=
  ⟨[94, 106, 78, 81, 193, 222, 160, 247, 78, 164, 209, 142, 191, 128, 246, 63, 229, 45, 19, 12, 245, 223, 27, 25, 41,
    175, 82, 113, 109, 214, 44, 149], rfl⟩

def authorizedRows : DB :=
  { sampleDB with
    deployments := Table.empty.put "dep"
      ⟨1, ⟨"dep", "prj", "env", "srv", "c0ffee"⟩, .activating, 1, 6000, 7,
        [⟨none, .queued, 1⟩, ⟨some .queued, .assigned, 1000⟩, ⟨some .assigned, .fetching, 2000⟩,
          ⟨some .fetching, .building, 3000⟩, ⟨some .building, .starting, 4000⟩, ⟨some .starting, .healthChecking, 5000⟩,
          ⟨some .healthChecking, .activating, 6000⟩]⟩
    jobs := Table.empty.put 1
      ⟨"own", "prj", "env", "srv", "dep", 1, "refs/heads/main", "c0ffee", 0, 1, 1, .leased, 1, none, 1000⟩
    slots := Table.empty.put "env" ⟨1, some 1, none, 1000⟩
    attempts := Table.empty.put 1 ⟨1, 1, "srv", "env", 1, .leased, 0, 90001000, 90001000, none, none, none, none, 1000⟩
    executions := Table.empty.put 1 sampleSettings
    frozenBindings := Table.empty.put 1 []
    frozenLiterals := Table.empty.put 1 []
    releases := Table.empty.put "dep"
      ⟨"dep", "env", some sampleToken, sampleConfigDigest, "c0ffee", .blueGreen, .ready, 1000, 6000⟩
    operations := Table.empty.put 1
      ⟨"dep", 1, 1, 1, sampleToken, .switchAuthorized, [], 6000, none, "env", none, 0, sampleDocumentDigest⟩
    jobEvents := [⟨1, 1, .claimed, some 1⟩, ⟨1, 2, .activationAuthorized, some 1⟩] }

attribute [ext] Administration DB

def sameAdministration (a b : Administration) : Bool :=
  a.users.rows == b.users.rows && a.sessions.rows == b.sessions.rows && a.runtimeConfigs.rows == b.runtimeConfigs.rows &&
    a.bindings.rows == b.bindings.rows && a.secretHeads.rows == b.secretHeads.rows &&
    a.secretVersions.rows == b.secretVersions.rows

def sameRows (a b : DB) : Bool :=
  sameAdministration a.administration b.administration && a.servers.rows == b.servers.rows &&
    a.credentials.rows == b.credentials.rows && a.deployments.rows == b.deployments.rows && a.jobs.rows == b.jobs.rows &&
    a.slots.rows == b.slots.rows && a.attempts.rows == b.attempts.rows && a.executions.rows == b.executions.rows &&
    a.frozenBindings.rows == b.frozenBindings.rows && a.frozenLiterals.rows == b.frozenLiterals.rows &&
    a.releases.rows == b.releases.rows && a.operations.rows == b.operations.rows &&
    a.routeHeads.rows == b.routeHeads.rows && a.jobEvents == b.jobEvents && a.routeEvents == b.routeEvents &&
    a.routeHeadAuditEvents == b.routeHeadAuditEvents && a.serverAuditEvents == b.serverAuditEvents

theorem eq_of_sameAdministration {a b : Administration} (h : sameAdministration a b = true) : a = b := by
  simp only [sameAdministration, Bool.and_eq_true, beq_iff_eq] at h
  obtain ⟨⟨⟨⟨⟨husers, hsessions⟩, hconfigs⟩, hbindings⟩, hheads⟩, hversions⟩ := h
  exact Administration.ext (Table.eq_of_rows husers) (Table.eq_of_rows hsessions) (Table.eq_of_rows hconfigs)
    (Table.eq_of_rows hbindings) (Table.eq_of_rows hheads) (Table.eq_of_rows hversions)

theorem eq_of_sameRows {a b : DB} (h : sameRows a b = true) : a = b := by
  simp only [sameRows, Bool.and_eq_true, beq_iff_eq, and_assoc] at h
  obtain ⟨hadministration, hservers, hcredentials, hdeployments, hjobs, hslots, hattempts, hexecutions, hbindings,
    hliterals, hreleases, hoperations, hheads, hjobEvents, hrouteEvents, hauditEvents, hserverEvents⟩ := h
  exact DB.ext (eq_of_sameAdministration hadministration) (Table.eq_of_rows hservers) (Table.eq_of_rows hcredentials)
    (Table.eq_of_rows hdeployments) (Table.eq_of_rows hjobs) (Table.eq_of_rows hslots) (Table.eq_of_rows hattempts)
    (Table.eq_of_rows hexecutions) (Table.eq_of_rows hbindings) (Table.eq_of_rows hliterals)
    (Table.eq_of_rows hreleases) (Table.eq_of_rows hoperations) (Table.eq_of_rows hheads) hjobEvents hrouteEvents
    hauditEvents hserverEvents

theorem sampleAuthorized_eq : sampleAuthorized = authorizedRows := eq_of_sameRows (by decide +kernel)

theorem unresolved_activations_supported_sample :
    ∃ op attempt slot job deployment release, sampleAuthorized.operations.get? 1 = some op ∧
      op.state = .switchAuthorized ∧ Supported sampleAuthorized op attempt slot job deployment release ∧
      ActivationOf sampleAuthorized "dep" 1 := by
  have hstored : ((sampleAuthorized.operations.get? 1).map fun op => op.state) = some .switchAuthorized ∧
      ((sampleAuthorized.deployments.get? "dep").map fun s => s.status) = some .activating ∧
      ∀ row ∈ sampleAuthorized.operations.rows, row.1 = 1 := by
    rw [sampleAuthorized_eq]
    decide +kernel
  obtain ⟨hop, hdeployment, honly⟩ := hstored
  obtain ⟨op, hrow, hstate⟩ := Option.map_eq_some_iff.1 hop
  obtain ⟨s, hs, hstatus⟩ := Option.map_eq_some_iff.1 hdeployment
  obtain ⟨hsupported, hunique⟩ := unresolved_activations_supported sampleAuthorized_reachable
  obtain ⟨attempt, slot, job, deployment, release, hop⟩ := hsupported 1 op hrow (by rw [hstate]; rfl)
  obtain ⟨operationID, hof, -⟩ := hunique "dep" s hs hstatus
  obtain ⟨op', -, hrow', -⟩ := id hof
  have hone : operationID = 1 := honly (operationID, op') ((Table.mem_rows_iff _ _ _).2 hrow')
  exact ⟨op, attempt, slot, job, deployment, release, hrow, hstate, hop, hone ▸ hof⟩

-- Who holds what in one state: the leased attempts are the occupants, and a flagged slot is free or held
-- by the attempt its flag names.
structure Exclusive (db : DB) : Prop where
  leased : ∀ attemptID attempt, db.attempts.get? attemptID = some attempt →
    (attempt.state = .leased ↔
      ∃ slot, db.slots.get? attempt.environmentID = some slot ∧ slot.currentAttemptID = some attemptID)
  occupant : ∀ environmentID slot attemptID, db.slots.get? environmentID = some slot →
    slot.currentAttemptID = some attemptID →
    ∃ attempt job, db.attempts.get? attemptID = some attempt ∧ attempt.environmentID = environmentID ∧
      attempt.state = .leased ∧ attempt.fence = slot.fence ∧
      db.jobs.get? attempt.jobID = some job ∧ job.state = .leased
  one : ∀ attemptID attempt other attempt', db.attempts.get? attemptID = some attempt →
    db.attempts.get? other = some attempt' → attempt.environmentID = attempt'.environmentID →
    attempt.state = .leased → attempt'.state = .leased → attemptID = other
  flagged : ∀ environmentID slot, db.slots.get? environmentID = some slot → slot.reconciliationRequired = true →
    slot.currentAttemptID = none ∨ slot.currentAttemptID = slot.reconciliationAttemptID

theorem exclusive_of_inv (hinv : Inv (view db)) : Exclusive db := by
  have ho := hinv.occupancy
  have hoccupant {environmentID : String} {slot : Slot} {attemptID : Nat}
      (hslot : db.slots.get? environmentID = some slot) (hcurrent : slot.currentAttemptID = some attemptID) :
      ∃ attempt job, Holds (view db) attemptID attempt slot job ∧ attempt.environmentID = environmentID := by
    obtain ⟨attempt, hattempt, rfl, hleased⟩ := ho.occupant environmentID slot hslot attemptID hcurrent
    obtain ⟨slot', job, hholds⟩ := ho.holds hattempt hleased
    have hsame := hholds.slotRow.symm.trans hslot
    cases hsame
    exact ⟨attempt, job, hholds, rfl⟩
  refine ⟨fun attemptID attempt hrow => ⟨fun hleased => ?_, ?_⟩, fun environmentID slot attemptID hslot hcurrent => ?_,
    fun attemptID attempt other attempt' hrow hrow' henv hleased hleased' => ?_,
    fun environmentID slot hslot hflag => ?_⟩
  · obtain ⟨slot, job, hholds⟩ := ho.holds hrow hleased
    exact ⟨slot, hholds.slotRow, hholds.occupies⟩
  · rintro ⟨slot, hslot, hcurrent⟩
    obtain ⟨attempt', job, hholds, -⟩ := hoccupant hslot hcurrent
    have hsame := hholds.attemptRow.symm.trans hrow
    cases hsame
    exact hholds.leased
  · obtain ⟨attempt, job, hholds, henv⟩ := hoccupant hslot hcurrent
    have hfence := ((ho.holds_fitsSlot hholds).leased hholds.leased).2
    have hjob := ((ho.holds_fitsJob hholds).leased hholds.leased).1
    exact ⟨attempt, job, hholds.attemptRow, henv, hholds.leased, hfence.symm, hholds.jobRow, hjob⟩
  · obtain ⟨slot, job, hholds⟩ := ho.holds hrow hleased
    exact (ho.leased_unique hholds hrow' hleased' (.inl henv.symm)).symm
  · obtain ⟨id, hid⟩ := Option.isSome_iff_exists.1 hflag
    rw [hid]
    exact (ho.flag environmentID slot hslot id hid).1

theorem extends_of_run (h : Sound db) (hrun : leaseSystem.Run db db') : Extends (view db) (view db') :=
  h.run_preserves (P := Extends (view db)) hrun .refl fun _ _ _ _ _ _ hext he => hext.effect he

-- Leases are exclusive in every state, fences only grow along every run, and a claim leases only in
-- environments whose slot was free and unflagged.
theorem leases_exclusive (h : leaseSystem.Reachable db) :
    Exclusive db ∧
    (∀ db', leaseSystem.Run db db' →
      (∀ environmentID slot, db.slots.get? environmentID = some slot →
        ∃ slot', db'.slots.get? environmentID = some slot' ∧ slot.fence ≤ slot'.fence) ∧
      (∀ attemptID attempt, db.attempts.get? attemptID = none → db'.attempts.get? attemptID = some attempt →
        ∀ earlier attempt', db.attempts.get? earlier = some attempt' →
          attempt'.environmentID = attempt.environmentID → attempt'.fence < attempt.fence)) ∧
    (∀ now serverID presented limit db' leases,
      claim now db serverID presented limit = (db', .ok leases) → ∀ lease ∈ leases,
        ∀ slot, db.slots.get? lease.environmentID = some slot →
          slot.currentAttemptID = none ∧ slot.reconciliationRequired = false) := by
  have hsound := sound_of_reachable h
  refine ⟨exclusive_of_inv hsound.inv, fun db' hrun => ?_,
    fun now serverID presented limit db' leases hclaim lease hlease slot hslot => ?_⟩
  · have hext := extends_of_run hsound hrun
    have ho := (hsound.run hrun).inv.occupancy
    refine ⟨fun environmentID slot hrow => hext.slots environmentID slot hrow,
      fun attemptID attempt hnone hrow earlier attempt' hrow' henv => ?_⟩
    obtain ⟨later, hlater, henvLater, hfence⟩ := hext.attempts earlier attempt' hrow'
    have hlt := hext.numbered attemptID attempt hrow hnone earlier attempt' hrow'
    rw [← hfence]
    exact ho.fenceOrder earlier later hlater attemptID attempt hrow (henvLater.trans henv) hlt
  · obtain ⟨hfree, hflag⟩ := claim_leasesFree hsound.inv hclaim hlease hslot
    exact ⟨hfree, by rw [Slot.reconciliationRequired, hflag]; rfl⟩

-- The job of the sample: leased, then failed for a reason that may pass and leased again.
def sampleLeased : DB := execAll sampleDB [(1000, .claim "srv" sampleToken 1)]

def sampleRetried : DB :=
  execAll sampleLeased
    [(2000, .complete 7 "srv" sampleToken 1 1 ⟨.failed, some .transient, "first", sampleToken⟩),
      (10 ^ 9, .claim "srv" sampleToken 1)]

theorem leases_exclusive_retried :
    Exclusive sampleLeased ∧
    ∃ first second, sampleLeased.attempts.get? 1 = some first ∧ sampleLeased.attempts.get? 2 = none ∧
      sampleRetried.attempts.get? 2 = some second ∧ first.environmentID = "env" ∧ second.environmentID = "env" ∧
      first.fence < second.fence := by
  have hstored : ((sampleLeased.attempts.get? 1).map fun a => a.environmentID) = some "env" ∧
      sampleLeased.attempts.get? 2 = none ∧
      ((sampleRetried.attempts.get? 2).map fun a => a.environmentID) = some "env" := by
    decide +kernel
  obtain ⟨hfirst, hnone, hsecond⟩ := hstored
  obtain ⟨first, hrow, henv⟩ := Option.map_eq_some_iff.1 hfirst
  obtain ⟨second, hrow', henv'⟩ := Option.map_eq_some_iff.1 hsecond
  have hreachable : leaseSystem.Reachable sampleLeased :=
    reachable_execAll (sampleDB_reachable _) fun _ _ _ => trivial
  obtain ⟨hexclusive, hruns, -⟩ := leases_exclusive hreachable
  refine ⟨hexclusive, first, second, hrow, hnone, hrow', henv, henv', ?_⟩
  exact (hruns sampleRetried (run_execAll fun _ _ _ => trivial)).2 2 second hnone hrow' 1 first hrow (henv.trans henv'.symm)

end

end AutoDeploy.Protocol
