import AutoDeploy.Protocol.Refinement.RouteHeads

namespace AutoDeploy.Protocol

open Lib Lib.Result Queue Store Deployment

-- The lease system: a database, and the transactions that commit on it.

-- A report is two transactions: its first one, and the fresh one its block may need. Any statement of
-- either may fail. `administer` stands for the rest of the product, which writes sessions, settings,
-- servers and credentials but none of the protocol's rows.
inductive Txn where
  | claim (serverID : String) (presented : Digest) (limit : Nat)
  | renew (serverID : String) (presented : Digest) (attemptID fence sequence : Nat)
  | complete (draw : Nat) (serverID : String) (presented : Digest) (attemptID fence : Nat) (r : CompletionReport)
  | activate (serverID : String) (presented : Digest) (attemptID fence : Nat) (imageDigest : Digest)
  | report (faults : Faults) (request : ReportRequest)
  | recordBlock (faults : Faults) (request : BlockRequest) (hevidence : request.evidence ≠ [])
  | requestCancellation (p : Principal) (jobID : Nat)
  | acknowledgeCancellation (serverID : String) (presented : Digest) (attemptID fence : Nat) (operationID : String)
      (resultDigest : Digest)
  | reportProgress (serverID : String) (presented : Digest) (attemptID fence : Nat) (phase : Status)
  | expireOne (draw attemptID : Nat)
  | revokeServer (draws : Nat → Nat) (p : Principal) (serverID reason : String)
  | reconcile (serverID : String) (presented : Digest) (environmentID : String) (attemptID fence : Nat)
  | markReconciled (p : Principal) (environmentID reason : String)
  | resolveActivation (p : Principal) (environmentID : String) (outcome : ActivationOutcome) (reason : String)
  | reconcileActivation (serverID : String) (presented : Digest) (environmentID : String) (attemptID fence : Nat)
      (outcome : ActivationOutcome) (outcomeDigest : Digest)
  | assignRouteHostname (p : Principal) (environmentID hostname : String) (expectedRevision : Option Nat)
  | administer (administration : Administration) (servers : Table String Server) (credentials : Table Nat Credential)

-- What is in the database once the transaction has ended, committed or not.
def exec (now : Nat) (db : DB) : Txn → DB
  | .claim serverID presented limit => (Store.claim now db serverID presented limit).1
  | .renew serverID presented attemptID fence sequence =>
      (committed db (Store.renew now db serverID presented attemptID fence sequence)).1
  | .complete draw serverID presented attemptID fence r =>
      (committed db (Store.complete now draw db serverID presented attemptID fence r)).1
  | .activate serverID presented attemptID fence imageDigest =>
      (committed db (Store.activate now db serverID presented attemptID fence imageDigest)).1
  | .report faults request => (reportTx faults now db request).db
  | .recordBlock faults request _ => (recordBlockInFreshTransaction faults now db request).1
  | .requestCancellation p jobID => (committed db (Store.requestCancellation now db p jobID)).1
  | .acknowledgeCancellation serverID presented attemptID fence operationID resultDigest =>
      (committed db (Store.acknowledgeCancellation now db serverID presented attemptID fence operationID
        resultDigest)).1
  | .reportProgress serverID presented attemptID fence phase =>
      (committed db (Store.reportProgress now db serverID presented attemptID fence phase)).1
  | .expireOne draw attemptID => (committed db (Store.expireOne now draw db attemptID)).1
  | .revokeServer draws p serverID reason => (committed db (Store.revokeServer now draws db p serverID reason)).1
  | .reconcile serverID presented environmentID attemptID fence =>
      (committed db (Store.reconcile now db serverID presented environmentID attemptID fence)).1
  | .markReconciled p environmentID reason => (committed db (Store.markReconciled now db p environmentID reason)).1
  | .resolveActivation p environmentID outcome reason =>
      (committed db (Store.resolveActivation now db p environmentID outcome reason)).1
  | .reconcileActivation serverID presented environmentID attemptID fence outcome outcomeDigest =>
      (committed db (Store.reconcileActivation now db serverID presented environmentID attemptID fence outcome
        outcomeDigest)).1
  | .assignRouteHostname p environmentID hostname expectedRevision =>
      (Store.assignRouteHostname now db p environmentID hostname expectedRevision).1
  | .administer administration servers credentials =>
      { db with administration := administration, servers := servers, credentials := credentials }

-- A database with enqueued jobs and no attempts. What references an attempt or a release is then empty.
structure Initial (db : DB) : Prop where
  jobs : Every db.jobs.get? fun _ job => job.state = .queued ∧ job.attemptCount = 0 ∧ job.cancelRequestedAt = none ∧
    At db.deployments.get? job.deploymentID fun s => s.status = .queued
  separate : Every db.jobs.get? fun id job => Every db.jobs.get? fun other job' =>
    job.deploymentID = job'.deploymentID → id = other
  deployments : Every db.deployments.get? fun id s => DeploymentStored id s ∧ s.status ≠ .activating
  attempts : ∀ id, db.attempts.get? id = none
  releases : ∀ id, db.releases.get? id = none
  operations : ∀ id, db.operations.get? id = none
  slots : Every db.slots.get? fun _ slot => slot.currentAttemptID = none ∧ slot.reconciliationAttemptID = none
  routeHeads : Every db.routeHeads.get? fun _ head => head.activeReleaseID = none ∧ head.reconciliationRequired = false
  hostnames : Every db.routeHeads.get? fun environmentID head => Every db.routeHeads.get? fun other head' =>
    head.hostname = head'.hostname → environmentID = other
  jobEvents : ∀ e ∈ db.jobEvents, e.attemptID = none

-- The runs in which every transaction is allowed by its clock reading and the database it meets.
def leaseWhere (allowed : Nat → DB → Txn → Prop) : System DB where
  initial := Initial
  next db db' := ∃ now txn, allowed now db txn ∧ db' = exec now db txn

-- ... and all runs. The clock readings of a run are arbitrary.
def leaseSystem : System DB := leaseWhere fun _ _ _ => True

theorem Initial.inv {db : DB} (h : Initial db) : Inv (view db) where
  occupancy :=
    { checked := fun id _ hrow => by cases (h.attempts id).symm.trans hrow
      fitsSlot := fun id _ hrow => by cases (h.attempts id).symm.trans hrow
      fitsJob := fun id _ hrow => by cases (h.attempts id).symm.trans hrow
      occupant := fun env slot hrow id hid => by
        rw [(h.slots env slot hrow).1] at hid
        cases hid
      flag := fun env slot hrow id hid => by
        rw [(h.slots env slot hrow).2] at hid
        cases hid
      flagNewest := fun env slot hrow id hid => by
        rw [(h.slots env slot hrow).2] at hid
        cases hid
      fenceOrder := fun id _ hrow => by cases (h.attempts id).symm.trans hrow
      count := fun id job hrow => by
        show job.attemptCount ≤ maxAttempts
        rw [(h.jobs id job hrow).2.1]
        exact Nat.zero_le _ }
  pipeline :=
    { stored := fun id s hrow => (h.deployments id s hrow).1
      fitsDeployment := fun id job hrow => by
        obtain ⟨hqueued, hcount, -, hdeployment⟩ := h.jobs id job hrow
        refine hdeployment.imp fun s hs => ⟨fun _ => ⟨hs, hcount⟩, fun hstate => ?_⟩
        rw [hqueued] at hstate
        simp at hstate
      separate := h.separate }
  activations :=
    { checked := fun id _ hrow => by cases (h.operations id).symm.trans hrow
      ofAttempt := fun id _ hrow => by cases (h.operations id).symm.trans hrow
      ofJob := fun id _ hrow => by cases (h.operations id).symm.trans hrow
      ofRelease := fun id _ hrow => by cases (h.operations id).symm.trans hrow
      ofHead := fun id _ hrow => by cases (h.operations id).symm.trans hrow
      ofDeployment := fun id _ hrow => by cases (h.operations id).symm.trans hrow
      ofSlot := fun id _ hrow => by cases (h.operations id).symm.trans hrow
      unique := fun id _ hrow => by cases (h.operations id).symm.trans hrow
      activating := fun id s hrow hstatus => absurd hstatus (h.deployments id s hrow).2
      flagHeld := fun env slot hrow id hid => by
        rw [(h.slots env slot hrow).2] at hid
        cases hid }
  routes :=
    { named := fun id _ hrow => by cases (h.releases id).symm.trans hrow
      keyed := fun id _ hrow => by cases (h.releases id).symm.trans hrow
      activeHead := fun id _ hrow => by cases (h.releases id).symm.trans hrow
      headActive := fun env head hrow id hid => by
        rw [(h.routeHeads env head hrow).1] at hid
        cases hid
      documented := fun env head hrow id hid => by
        rw [(h.routeHeads env head hrow).1] at hid
        cases hid
      succeededOnce := fun id _ hrow => by cases (h.operations id).symm.trans hrow
      hostnames := h.hostnames }

theorem Initial.reconciliations {db : DB} (h : Initial db) : Reconciliations (view db) where
  recorded e he _ a ha := by
    rw [h.jobEvents e he] at ha
    cases ha
  settled id _ hrow := by cases (h.operations id).symm.trans hrow

-- A first completion, by the live holder of a lease, that puts a job marked for cancellation back to waiting.
def Revival (now : Nat) (db : DB) : Txn → Prop
  | .complete _ serverID presented attemptID fence r => r.valid = true ∧
      ∃ l, lockLease db "complete" serverID presented attemptID = .ok l ∧ l.live now attemptID fence ∧
        Revives r l.attempt l.job
  | _ => False

-- A change of the hostname of an existing route head.
def Renaming : Txn → Prop
  | .assignRouteHostname _ _ _ expectedRevision => expectedRevision.isSome
  | _ => False

def Txn.isClaim : Txn → Prop
  | .claim _ _ _ => True
  | _ => False

def Txn.isRenewal : Txn → Prop
  | .renew _ _ _ _ _ => True
  | _ => False

def Txn.isActivation : Txn → Prop
  | .activate _ _ _ _ _ => True
  | _ => False

-- The kinds of effect a transaction can have on a database.
structure Permits (now : Nat) (db : DB) (txn : Txn) (kind : Kind) : Prop where
  revives : kind = .revives → Revival now db txn
  renames : kind = .renames → Renaming txn
  leases : kind = .leases → txn.isClaim
  renews : kind = .renews → txn.isRenewal
  authorizes : kind = .authorizes → txn.isActivation

section

variable {db : DB} {now : Nat}

theorem permits_of_ordinary {txn : Txn} {v v' : View} (h : Effects now Ordinary v v') :
    Effects now (Permits now db txn) v v' := by
  refine h.mono fun kind hkind => ?_
  rw [show kind = .other from hkind]
  exact ⟨by simp, by simp, by simp, by simp, by simp⟩

-- A transaction that fails changes nothing.
theorem committed_effects {α : Type} {permitted : Kind → Prop} {x : Except Error (DB × α)}
    (h : ∀ db' a, x = .ok (db', a) → Effects now permitted (view db) (view db')) :
    Effects now permitted (view db) (view (committed db x).1) := by
  cases x with
  | error e => exact Effects.refl
  | ok r => exact h r.1 r.2 rfl

-- Every transaction is a chain of effects, of the kinds its input and the database permit.
theorem exec_effects (hinv : Inv (view db)) (hrecon : Reconciliations (view db)) (txn : Txn) :
    Effects now (Permits now db txn) (view db) (view (exec now db txn)) := by
  cases txn with
  | claim serverID presented limit =>
      refine (claim_effects hinv rfl).mono fun kind hkind => ?_
      rcases hkind with rfl | rfl
      · exact ⟨by simp, by simp, by simp, by simp, by simp⟩
      · exact ⟨by simp, by simp, fun _ => trivial, by simp, by simp⟩
  | renew serverID presented attemptID fence sequence =>
      refine committed_effects fun _ _ h => (renew_effects h).mono fun kind hkind => ?_
      rcases hkind with rfl | rfl
      · exact ⟨by simp, by simp, by simp, by simp, by simp⟩
      · exact ⟨by simp, by simp, by simp, fun _ => trivial, by simp⟩
  | complete draw serverID presented attemptID fence r =>
      refine committed_effects fun db' _ h => ?_
      rcases complete_effect hinv h with rfl | ⟨hvalid, l, hl, hlive, -, -, heffect⟩
      · exact Effects.refl
      · by_cases hrevives : Revives r l.attempt l.job
        · exact Effects.one ⟨fun _ => ⟨hvalid, l, hl, hlive, hrevives⟩, by simp, by simp, by simp, by simp⟩
            (heffect .revives fun h => absurd rfl h)
        · exact permits_of_ordinary (Effects.ordinary (heffect .other fun _ => hrevives))
  | activate serverID presented attemptID fence imageDigest =>
      refine committed_effects fun db' _ h => ?_
      obtain ⟨attempt, slot, job, -, -, -, ⟨rfl, -⟩ | ⟨he, -⟩⟩ := activate_cases hinv h
      · exact Effects.refl
      · exact Effects.one ⟨by simp, by simp, by simp, by simp, fun _ => trivial⟩ he
  | report faults request => exact permits_of_ordinary (reportTx_lands hinv).effects
  | recordBlock faults request hevidence =>
      exact permits_of_ordinary (recordBlock_records hinv hevidence rfl).lands.effects
  | requestCancellation p jobID =>
      exact committed_effects fun _ _ h => permits_of_ordinary (requestCancellation_effects hinv h).1
  | acknowledgeCancellation serverID presented attemptID fence operationID resultDigest =>
      refine committed_effects fun db' _ h => ?_
      rcases acknowledgeCancellation_effects hinv h with rfl | ⟨-, he⟩
      · exact Effects.refl
      · exact permits_of_ordinary (Effects.ordinary he)
  | reportProgress serverID presented attemptID fence phase =>
      exact committed_effects fun _ _ h => permits_of_ordinary (reportProgress_effects hinv h)
  | expireOne draw attemptID =>
      exact committed_effects fun _ _ h => permits_of_ordinary (expireOne_effects hinv h)
  | revokeServer draws p serverID reason =>
      exact committed_effects fun _ _ h => permits_of_ordinary (revokeServer_effects hinv h)
  | reconcile serverID presented environmentID attemptID fence =>
      exact committed_effects fun _ _ h => permits_of_ordinary (reconcile_effects hinv h)
  | markReconciled p environmentID reason =>
      exact committed_effects fun _ _ h => permits_of_ordinary (markReconciled_effects h)
  | resolveActivation p environmentID outcome reason =>
      refine committed_effects fun db' _ h => ?_
      obtain ⟨slot, -, ⟨-, rfl, -⟩ | ⟨attemptID, attempt, -, -, hdeclares⟩⟩ := resolveActivation_cases hinv hrecon h
      · exact Effects.refl
      · exact permits_of_ordinary (Effects.ordinary hdeclares.effect)
  | reconcileActivation serverID presented environmentID attemptID fence outcome outcomeDigest =>
      refine committed_effects fun db' _ h => ?_
      obtain ⟨slot, attempt, -, -, -, ⟨rfl, -⟩ | hdeclares⟩ := reconcileActivation_cases hinv hrecon h
      · exact Effects.refl
      · exact permits_of_ordinary (Effects.ordinary hdeclares.effect)
  | assignRouteHostname p environmentID hostname expectedRevision =>
      obtain hplain | ⟨head, -, hsome, -, he⟩ := assignRouteHostname_cases hinv
        (Prod.mk.eta.symm : Store.assignRouteHostname now db p environmentID hostname expectedRevision = _)
      · exact permits_of_ordinary hplain
      · exact Effects.one ⟨by simp, fun _ => hsome, by simp, by simp, by simp⟩ he
  | administer administration servers credentials => exact Effects.refl

end

section

variable {db db' : DB} {allowed : Nat → DB → Txn → Prop}

-- The two invariants along every run.
structure Sound (db : DB) : Prop where
  inv : Inv (view db)
  reconciliations : Reconciliations (view db)

theorem Sound.exec (h : Sound db) (now : Nat) (txn : Txn) : Sound (exec now db txn) := by
  obtain ⟨hinv, hrecon⟩ := (exec_effects h.inv h.reconciliations txn : Effects now _ _ _).preserves
    (P := Reconciliations) h.inv h.reconciliations fun _ _ _ _ hinv hrecon he => hrecon.effect hinv he
  exact ⟨hinv, hrecon⟩

theorem Sound.run (h : Sound db) (hrun : (leaseWhere allowed).Run db db') : Sound db' := by
  refine chain_preserves ?_ hrun h
  rintro db db' h ⟨now, txn, -, rfl⟩
  exact h.exec now txn

theorem sound_of_reachable (h : (leaseWhere allowed).Reachable db) : Sound db := by
  obtain ⟨db₀, hinit, hrun⟩ := h
  have hinit : Initial db₀ := hinit
  exact Sound.run ⟨hinit.inv, hinit.reconciliations⟩ hrun

-- What each effect of the permitted kinds keeps, a whole transaction keeps.
theorem Sound.exec_preserves {P : View → Prop} {now : Nat} {txn : Txn} (h : Sound db) (hP : P (view db))
    (hstep : ∀ v v' kind, Permits now db txn kind → Inv v → P v → Effect now v kind v' → P v') :
    P (view (Protocol.exec now db txn)) :=
  ((exec_effects h.inv h.reconciliations txn).preserves h.inv hP hstep).2

-- ... and so does a whole run.
theorem Sound.run_preserves {P : View → Prop} (h : Sound db) (hrun : (leaseWhere allowed).Run db db')
    (hP : P (view db))
    (hstep : ∀ now v v' kind, (∃ db txn, allowed now db txn ∧ Permits now db txn kind) → Inv v → P v →
      Effect now v kind v' → P v') : P (view db') := by
  refine (chain_preserves (P := fun db => Sound db ∧ P (view db)) ?_ hrun ⟨h, hP⟩).2
  rintro db db' ⟨h, hP⟩ ⟨now, txn, htxn, rfl⟩
  exact ⟨h.exec now txn, h.exec_preserves hP fun v v' kind hkind => hstep now v v' kind ⟨db, txn, htxn, hkind⟩⟩

end

section

variable {allowed : Nat → DB → Txn → Prop} {db : DB}

theorem reachable_exec (h : (leaseWhere allowed).Reachable db) (now : Nat) {txn : Txn} (htxn : allowed now db txn) :
    (leaseWhere allowed).Reachable (exec now db txn) :=
  h.step ⟨now, txn, htxn, rfl⟩

-- Transactions one after another, each with its clock reading.
def execAll (db : DB) (steps : List (Nat × Txn)) : DB := steps.foldl (fun db step => exec step.1 db step.2) db

theorem run_execAll {steps : List (Nat × Txn)} (hsteps : ∀ step ∈ steps, ∀ db, allowed step.1 db step.2) :
    (leaseWhere allowed).Run db (execAll db steps) := by
  induction steps generalizing db with
  | nil => exact .refl
  | cons step rest ih =>
      obtain ⟨hstep, hrest⟩ := List.forall_mem_cons.1 hsteps
      exact .head ⟨step.1, step.2, hstep db, rfl⟩ (ih hrest)

theorem reachable_execAll {steps : List (Nat × Txn)} (h : (leaseWhere allowed).Reachable db)
    (hsteps : ∀ step ∈ steps, ∀ db, allowed step.1 db step.2) :
    (leaseWhere allowed).Reachable (execAll db steps) :=
  h.run (run_execAll hsteps)

end

-- A database with one server, one administrator, one environment with a hostname, and one job for it.

def sampleToken : Digest := ⟨List.replicate 32 7, rfl⟩

def sampleSettings : ExecutionSnapshot :=
  { containerPort := 8080
    containerScheme := .http
    releaseStrategy := .blueGreen
    drainSeconds := 10
    healthPolicyRevision := 1
    cpuMillis := 500
    memoryBytes := 268435456
    restartPolicy := .unlessStopped
    healthGatePath := "/"
    healthGateHost := ""
    configRevision := 1 }

def samplePrincipal : Principal := ⟨"usr", "own", "ses", 1, true⟩

def sampleDB : DB :=
  { administration :=
      { users := Table.empty.put "usr" ⟨"own", 1, true⟩
        sessions := Table.empty.put "ses" ⟨"usr", "own", 1, 10 ^ 12, 10 ^ 12, false⟩
        runtimeConfigs := Table.empty.put "env" sampleSettings
        bindings := .empty
        secretHeads := .empty
        secretVersions := .empty }
    servers := Table.empty.put "srv" ⟨"own", .active, 1, none⟩
    credentials := Table.empty.put 1 ⟨"srv", sampleToken, .active, 1, none⟩
    deployments := Table.empty.put "dep"
      ⟨1, ⟨"dep", "prj", "env", "srv", "c0ffee"⟩, .queued, 1, 1, 1, [⟨none, .queued, 1⟩]⟩
    jobs := Table.empty.put 1
      ⟨"own", "prj", "env", "srv", "dep", 1, "refs/heads/main", "c0ffee", 0, 1, 1, .queued, 0, none, 1⟩
    slots := .empty
    attempts := .empty
    executions := .empty
    frozenBindings := .empty
    frozenLiterals := .empty
    releases := .empty
    operations := .empty
    routeHeads := Table.empty.put "env" ⟨"app.example", 0, none, false, 1, 1⟩
    jobEvents := []
    routeEvents := []
    routeHeadAuditEvents := []
    serverAuditEvents := [] }

theorem every_single {κ α : Type} [DecidableEq κ] {k : κ} {a : α} {P : κ → α → Prop} (h : P k a) :
    Every (Table.empty.put k a).get? P := by
  intro k' a' hrow
  have hmem := (Table.mem_rows_iff _ k' a').2 hrow
  simp only [Table.put, Table.empty, Table.replace, List.mem_singleton, Prod.mk.injEq] at hmem
  obtain ⟨rfl, rfl⟩ := hmem
  exact h

theorem sampleDB_initial : Initial sampleDB where
  jobs := every_single ⟨rfl, rfl, rfl, _, rfl, rfl⟩
  separate := every_single (every_single fun _ => rfl)
  deployments := every_single ⟨⟨rfl, by decide⟩, by decide⟩
  attempts _ := rfl
  releases _ := rfl
  operations _ := rfl
  slots _ _ h := by cases h
  routeHeads := every_single ⟨rfl, rfl⟩
  hostnames := every_single (every_single fun _ => rfl)
  jobEvents _ h := by cases h

theorem sampleDB_reachable (allowed : Nat → DB → Txn → Prop) : (leaseWhere allowed).Reachable sampleDB :=
  .of_initial sampleDB_initial

end AutoDeploy.Protocol
