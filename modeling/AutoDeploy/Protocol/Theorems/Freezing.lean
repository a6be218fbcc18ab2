import AutoDeploy.Protocol.Freezing
import AutoDeploy.Protocol.Theorems.Lifecycles

namespace AutoDeploy.Protocol

open Function Lib Lib.Result Queue Store Deployment

section

variable {db db' : DB} {now jobID attemptID : Nat} {serverID environmentID : String} {job : Job} {slot : Slot}

theorem Initial.frozen (h : Initial db) : Frozen (view db) where
  executed id _ hrow := by cases (h.attempts id).symm.trans hrow
  same id _ hrow := by cases (h.attempts id).symm.trans hrow
  released id _ hrow := by cases (h.releases id).symm.trans hrow

-- What a claim relies on: besides the two invariants, the life cycles and the frozen inputs.
structure Ready (v : View) : Prop where
  lifecycles : Lifecycles v
  frozen : Frozen v

theorem Ready.effect {v v' : View} {kind : Kind} (h : Ready v) (hinv : Inv v) (he : Effect now v kind v') : Ready v' :=
  ⟨h.lifecycles.effect hinv he, h.frozen.effect hinv.occupancy he⟩

theorem ready_of_reachable (h : leaseSystem.Reachable db) : Ready (view db) := by
  obtain ⟨db₀, hinit, hrun⟩ := h
  have hinit : Initial db₀ := hinit
  exact Sound.run_preserves (P := Ready) ⟨hinit.inv, hinit.reconciliations⟩ hrun ⟨hinit.lifecycles, hinit.frozen⟩
    fun _ _ _ _ _ hinv h he => h.effect hinv he

theorem Ready.effects {v v' : View} {permitted : Kind → Prop} (h : Ready v) (hinv : Inv v)
    (he : Effects now permitted v v') : Ready v' :=
  (he.preserves (P := Ready) hinv h fun _ _ _ _ hinv h he => h.effect hinv he).2

def Uncorrupted (e : Error) : Prop := e.is .corruptState = false

theorem uncorrupted_during {α : Type} {message : String} {x : Except DbError α} :
    Throws Uncorrupted (during message x) :=
  Throws.mapError fun _ => rfl

theorem uncorrupted_saveTx (value : Aggregate) : Throws Uncorrupted (saveTx db value) := by
  unfold saveTx
  refine Throws.bind (Throws.mapError fun _ => rfl) fun snapshot => ?_
  refine Throws.bind (Throws.found rfl) fun stored => ?_
  refine Throws.bind (Throws.require rfl) fun _ => ?_
  refine Throws.bind (Throws.mapError fun _ => rfl) fun _ => ?_
  refine Throws.bind (Throws.require rfl) fun _ => ?_
  exact Throws.bind uncorrupted_during fun _ => Throws.pure _

theorem uncorrupted_transitionDeployment (id : String) (target : Status) (at_ : Nat) :
    Throws Uncorrupted (transitionDeployment db id target at_) := by
  unfold transitionDeployment
  refine Throws.bind (Throws.found rfl) fun snapshot => ?_
  refine Throws.bind (Throws.mapError fun _ => rfl) fun current => ?_
  refine Throws.bind (Throws.mapError fun _ => rfl) fun next => ?_
  exact Throws.ite (Throws.pure _) (uncorrupted_saveTx next)

theorem uncorrupted_leaseJob (state : JobState) : Throws Uncorrupted (leaseJob db now jobID state) := by
  refine Throws.mapError fun e => ?_
  split <;> rfl

theorem uncorrupted_freeze (plan : FreezePlan) : Throws Uncorrupted (freeze db attemptID plan) := by
  cases plan with
  | fresh execution bindings literals => exact Throws.pure _
  | copy previous => exact Throws.bind (Throws.found rfl) fun _ => Throws.pure _

-- The previous attempt of a retry exists.
theorem uncorrupted_planFreeze (config : ExecutionSnapshot) (h : Ready (view db))
    (hjob : db.jobs.get? jobID = some job) : Throws Uncorrupted (planFreeze db config jobID job) := by
  by_cases hfirst : job.attemptCount = 0
  · simp only [planFreeze, hfirst, if_true]
    exact Throws.pure _
  · obtain ⟨id, a, ha, hof, hnumber⟩ := h.lifecycles.numbering.complete jobID job hjob job.attemptCount (by omega)
      (Nat.le_refl _)
    cases hfind : db.attempts.find? fun _ a => a.jobID == jobID && a.attemptNumber == job.attemptCount with
    | none =>
        have := Table.find?_none hfind ha
        simp [hof, hnumber] at this
    | some row =>
        simp only [planFreeze, hfirst, if_false, hfind]
        exact Throws.pure _

-- A release of the job's deployment has the digest of what any attempt of the job runs, and a job without
-- attempts has no release.
theorem Frozen.digest_of_follows {release : Release} {key : String} {execution : ExecutionSnapshot}
    {bindings : List FrozenBinding} {literals : List FrozenLiteral} (h : Frozen (view db)) (hinv : Inv (view db))
    (hjob : db.jobs.get? jobID = some job) (hrow : db.releases.get? key = some release)
    (hof : release.deploymentID = job.deploymentID)
    (hfollows : Follows (view db) jobID job (some execution, bindings, literals)) :
    release.configDigest = computeConfigDigest execution bindings literals := by
  obtain ⟨id, a, job', execution', ha, hjob', hkey, hexecution, hdigest⟩ := h.released key release hrow
  have hsame : a.jobID = jobID := by
    refine hinv.pipeline.separate _ job' hjob' _ job hjob ?_
    rw [hkey, ← hof, hinv.routes.keyed key release hrow]
  have hnumber := ((hinv.occupancy.fitsJob id a ha).of_row (hsame ▸ hjob)).number
  have hpos := (checkAttempt_eq_ok.1 (hinv.occupancy.checked id a ha)).1.1
  obtain ⟨previous, p, hp, hpof, -, hinputs⟩ := hfollows (by omega)
  have hinputs' := hinputs.trans (h.same previous p hp id a ha (hpof.trans hsame.symm))
  have hfst : some execution = some execution' := (congrArg Prod.fst hinputs').trans hexecution
  rw [hdigest, ← hinputs', Option.some.inj hfst]

theorem uncorrupted_ensureRelease {deploymentID commitSHA : String} {strategy : ReleaseStrategy} {digest : Digest}
    (h : ∀ key release, db.releases.get? key = some release → release.deploymentID = deploymentID →
      release.configDigest = digest) :
    Throws Uncorrupted (ensureRelease now db deploymentID environmentID commitSHA strategy digest) := by
  unfold ensureRelease
  split
  · exact uncorrupted_during
  · rename_i key release hfind
    obtain ⟨hrow, hof⟩ := Table.find?_some hfind
    rw [h key release hrow (by simpa using hof)]
    simp only [require, if_true]
    exact Throws.pure _

theorem uncorrupted_leaseCandidate {config : ExecutionSnapshot} {plan : FreezePlan} (h : Ready (view db))
    (hinv : Inv (view db)) (hc : Claimable db now serverID jobID environmentID slot job)
    (hplan : planFreeze db config jobID job = .ok (some plan)) :
    Throws Uncorrupted (leaseCandidate now db serverID jobID job slot plan) := by
  obtain ⟨hslot, hjob, -, -, rfl, rfl, -, -, -⟩ := hc
  unfold leaseCandidate
  refine Throws.bind_of_ok uncorrupted_during fun a₁ h₁ => ?_
  obtain ⟨db₁, n₁⟩ := a₁
  obtain ⟨-, rfl, -⟩ := (updateSlot_iff hslot rfl).1 (during_eq_ok.1 h₁)
  refine Throws.bind_of_ok (uncorrupted_leaseJob _) fun a₂ h₂ => ?_
  obtain ⟨db₂, n₂⟩ := a₂
  obtain ⟨rfl, rfl, -⟩ := leaseJob_eq_ok h₂ hjob rfl
  simp only [Nat.one_ne_zero, if_false]
  refine Throws.bind_of_ok uncorrupted_during fun a₃ h₃ => ?_
  obtain ⟨db₃, attemptID⟩ := a₃
  obtain ⟨rfl, rfl⟩ := insertAttempt_eq_ok (during_eq_ok.1 h₃)
  refine Throws.bind_of_ok uncorrupted_during fun a₄ h₄ => ?_
  obtain ⟨db₄, n₄⟩ := a₄
  obtain ⟨-, rfl, -⟩ := (updateSlot_iff (by exact Table.get?_put_self _ _ _) rfl).1 (during_eq_ok.1 h₄)
  refine Throws.bind_of_ok (Throws.ite (uncorrupted_transitionDeployment _ _ _) (Throws.pure _)) fun db₅ h₅ => ?_
  obtain ⟨deployments, rfl⟩ : ∃ deployments, db₅ = setDeployments _ deployments := by
    split at h₅
    · obtain ⟨deployments, _, _, rfl, -⟩ := transitionDeployment_moves h₅ hinv.pipeline.stored
      exact ⟨deployments, rfl⟩
    · exact ⟨_, (Except.ok.inj h₅).symm⟩
  refine Throws.bind_of_ok (uncorrupted_freeze plan) fun a₆ h₆ => ?_
  obtain ⟨db₆, execution, bindings, literals⟩ := a₆
  have hfollows := planFreeze_follows hplan h₆ rfl
  obtain rfl := freeze_eq_ok h₆
  refine Throws.bind (uncorrupted_ensureRelease fun key release hrow hof => ?_) fun db₇ => Throws.pure _
  exact h.frozen.digest_of_follows hinv hjob hrow hof hfollows

theorem uncorrupted_tryClaim (h : Ready (view db)) (hinv : Inv (view db)) :
    Throws Uncorrupted (tryClaim now db serverID jobID environmentID) := by
  unfold tryClaim
  split
  · exact Throws.pure _
  · rename_i config slot job hclaimable
    have hc := claimable_eq_some hclaimable
    refine Throws.bind_of_ok (uncorrupted_planFreeze config h hc.jobRow) fun plan hplan => ?_
    cases plan with
    | none => exact Throws.pure _
    | some plan => exact uncorrupted_leaseCandidate h hinv hc hplan

theorem uncorrupted_claimLoop (limit : Nat) (candidates : List (Nat × String)) (claimed : List ClaimedLease)
    (h : Ready (view db)) (hinv : Inv (view db)) :
    Throws Uncorrupted (claimLoop now serverID limit candidates db claimed) := by
  induction candidates generalizing db claimed with
  | nil => exact Throws.pure _
  | cons c rest ih =>
      simp only [claimLoop]
      refine Throws.ite (Throws.pure _) (Throws.bind_of_ok (uncorrupted_tryClaim h hinv) fun a htry => ?_)
      obtain ⟨db₁, lease⟩ := a
      obtain ⟨heffects, -⟩ := tryClaim_effects hinv htry
      exact ih _ (h.effects hinv heffects) (hinv.effects heffects)

theorem uncorrupted_lockActiveServerCredential (presented : Digest) :
    Throws Uncorrupted (lockActiveServerCredential db serverID presented) := by
  unfold lockActiveServerCredential
  exact Throws.ite (Throws.found rfl) (Throws.error rfl)

theorem claim_uncorrupted {presented : Digest} {limit : Nat} {e : Error} (h : Ready (view db)) (hinv : Inv (view db))
    (hclaim : claim now db serverID presented limit = (db', .error e)) : Uncorrupted e := by
  unfold claim at hclaim
  split at hclaim
  · cases hclaim
  · split at hclaim
    · cases hclaim
      rfl
    · split at hclaim
      · cases hclaim
        rfl
      · simp only at hclaim
        split at hclaim
        · rename_i htx
          cases hclaim
          have hopen : Effects now Ordinary (view db) _ := openSlots_effects
            (((discoverRunnable db now serverID (min (min limit 50 * claimDiscoveryPerJob) claimDiscoveryMax)).map
              fun row => (row.1, row.2.environmentID)).map Prod.snd)
          refine (?_ : Throws Uncorrupted (claimTx _ _ _ _ _ _)) e htx
          exact Throws.bind (uncorrupted_lockActiveServerCredential presented) fun _ =>
            uncorrupted_claimLoop _ _ _ (h.effects hinv hopen) (hinv.effects hopen)
        · cases hclaim

-- A lease names the inputs frozen for its attempt.
def Reported (v : View) (x : ClaimedLease) : Prop :=
  v.inputs x.attemptID = (some x.execution, x.secretBindings, x.literalBindings) ∧
    At v.attempts x.attemptID fun a => a.jobID = x.jobID

theorem Reported.effects {v v' : View} {permitted : Kind → Prop} {x : ClaimedLease} (h : Reported v x) (hinv : Inv v)
    (he : Effects now permitted v v') : Reported v' x := by
  refine (he.preserves (P := fun v => Reported v x) hinv h fun v v' kind _ _ h he => ?_).2
  obtain ⟨hinputs, a, ha, hof⟩ := h
  exact ⟨(he.inputs_kept ha).trans hinputs, (he.attempt_ages ha).imp fun a' hages => hages.identity.2.2.trans hof⟩

theorem leaseCandidate_reports {plan : FreezePlan} {lease : Option ClaimedLease} (hinv : Inv (view db))
    (hc : Claimable db now serverID jobID environmentID slot job)
    (h : leaseCandidate now db serverID jobID job slot plan = .ok (db', lease)) :
    ∀ x ∈ lease, Reported (view db') x := by
  obtain ⟨hslot, hjob, -, -, rfl, rfl, -, -, -⟩ := hc
  simp only [leaseCandidate, bind_eq_ok, during_eq_ok, Prod.exists] at h
  obtain ⟨db₁, _, hfence, db₂, n, hlease, h⟩ := h
  obtain ⟨-, rfl, -⟩ := (updateSlot_iff hslot rfl).1 hfence
  obtain ⟨rfl, rfl, -⟩ := leaseJob_eq_ok hlease hjob rfl
  simp only [Nat.one_ne_zero, if_false, bind_eq_ok, during_eq_ok, Prod.exists, pure_eq_ok, Prod.mk.injEq] at h
  obtain ⟨db₃, attemptID, hinsert, db₄, _, hoccupy, db₅, hassign, db₆, execution, bindings, literals, hfreeze, db₇,
    hrelease, rfl, rfl⟩ := h
  obtain ⟨rfl, rfl⟩ := insertAttempt_eq_ok hinsert
  obtain ⟨-, rfl, -⟩ := (updateSlot_iff (by exact Table.get?_put_self _ _ _) rfl).1 hoccupy
  obtain ⟨deployments, rfl⟩ : ∃ deployments, db₅ = setDeployments _ deployments := by
    split at hassign
    · obtain ⟨deployments, _, _, rfl, -⟩ := transitionDeployment_moves hassign hinv.pipeline.stored
      exact ⟨deployments, rfl⟩
    · exact ⟨_, (Except.ok.inj hassign).symm⟩
  obtain rfl := freeze_eq_ok hfreeze
  simp only [Option.mem_def, Option.some.injEq, forall_eq']
  -- the release adds no inputs and no attempt
  obtain rfl | ⟨release, rfl, -⟩ := ensureRelease_cases hrelease
  · refine ⟨?_, .intro (Table.get?_put_self _ _ _) rfl⟩
    simp [view, View.inputs, appendAgentJobEvent, putFrozen]
  · refine ⟨?_, .intro (Table.get?_put_self _ _ _) rfl⟩
    simp [view, View.inputs, appendAgentJobEvent, putFrozen, putRelease]

theorem tryClaim_reports {lease : Option ClaimedLease} (hinv : Inv (view db))
    (h : tryClaim now db serverID jobID environmentID = .ok (db', lease)) : ∀ x ∈ lease, Reported (view db') x := by
  unfold tryClaim at h
  split at h
  · simp only [pure_eq_ok, Prod.mk.injEq] at h
    simp [← h.2]
  · rename_i config slot job hclaimable
    simp only [bind_eq_ok] at h
    obtain ⟨plan, -, h⟩ := h
    split at h
    · simp only [pure_eq_ok, Prod.mk.injEq] at h
      simp [← h.2]
    · exact leaseCandidate_reports hinv (claimable_eq_some hclaimable) h

theorem claimLoop_reports {limit : Nat} {candidates : List (Nat × String)} {claimed leases : List ClaimedLease}
    (hinv : Inv (view db)) (hclaimed : ∀ x ∈ claimed, Reported (view db) x)
    (h : claimLoop now serverID limit candidates db claimed = .ok (db', leases)) :
    ∀ x ∈ leases, Reported (view db') x := by
  induction candidates generalizing db claimed with
  | nil =>
      simp only [claimLoop, pure_eq_ok, Prod.mk.injEq] at h
      obtain ⟨rfl, rfl⟩ := h
      exact hclaimed
  | cons c rest ih =>
      simp only [claimLoop] at h
      split at h
      · simp only [pure_eq_ok, Prod.mk.injEq] at h
        obtain ⟨rfl, rfl⟩ := h
        exact hclaimed
      · simp only [bind_eq_ok, Prod.exists] at h
        obtain ⟨db₁, lease, htry, h⟩ := h
        obtain ⟨heffects, -⟩ := tryClaim_effects hinv htry
        refine ih (hinv.effects heffects) (fun x hx => ?_) h
        rcases List.mem_append.1 hx with hx | hx
        · exact (hclaimed x hx).effects hinv heffects
        · exact tryClaim_reports hinv htry x (by simpa using hx)

theorem claim_reports {presented : Digest} {limit : Nat} {leases : List ClaimedLease} (hinv : Inv (view db))
    (h : claim now db serverID presented limit = (db', .ok leases)) : ∀ x ∈ leases, Reported (view db') x := by
  obtain ⟨-, hnone⟩ | ⟨environments, ⟨-, e, he⟩ | ⟨limit, candidates, leases', hloop, hleases⟩⟩ := claim_cases h
  · simp [hnone leases rfl]
  · cases he
  · cases hleases
    have hopen : Effects now Ordinary (view db) _ := openSlots_effects environments
    exact claimLoop_reports (hinv.effects hopen) (by simp) hloop

-- The settings, secret versions and literals an attempt is frozen with.
structure Runs (db : DB) (attemptID : Nat) (execution : ExecutionSnapshot) (bindings : List FrozenBinding)
    (literals : List FrozenLiteral) : Prop where
  execution : db.executions.get? attemptID = some execution
  bindings : (db.frozenBindings.get? attemptID).getD [] = bindings
  literals : (db.frozenLiterals.get? attemptID).getD [] = literals

theorem runs_of_inputs {execution : ExecutionSnapshot} {bindings : List FrozenBinding} {literals : List FrozenLiteral}
    (h : (view db).inputs attemptID = (some execution, bindings, literals)) :
    Runs db attemptID execution bindings literals := by
  simp only [View.inputs, Prod.mk.injEq] at h
  exact ⟨h.1, h.2.1, h.2.2⟩

-- Every attempt of a job runs what the job's first attempt runs.
theorem Ready.first_runs {a : Attempt} (h : Ready (view db)) (hinv : Inv (view db))
    (hrow : db.attempts.get? attemptID = some a) :
    ∃ first f, db.attempts.get? first = some f ∧ f.jobID = a.jobID ∧ f.attemptNumber = 1 ∧
      (view db).inputs first = (view db).inputs attemptID := by
  obtain ⟨job, hjob, hfits⟩ := hinv.occupancy.fitsJob attemptID a hrow
  have hpos := (checkAttempt_eq_ok.1 (hinv.occupancy.checked attemptID a hrow)).1.1
  have hnumber := hfits.number
  obtain ⟨first, f, hf, hof, hone⟩ := h.lifecycles.numbering.complete a.jobID job hjob 1 (by omega) (by omega)
  exact ⟨first, f, hf, hof, hone, h.frozen.same first f hf attemptID a hrow hof⟩

-- Retries run exactly what the first attempt ran, leases report it, and a claim never finds a release that
-- disagrees with it.
theorem retries_run_first_inputs (h : leaseSystem.Reachable db) :
    (∀ attemptID a, db.attempts.get? attemptID = some a →
      ∃ first f execution bindings literals, db.attempts.get? first = some f ∧ f.jobID = a.jobID ∧
        f.attemptNumber = 1 ∧ Runs db first execution bindings literals ∧
        Runs db attemptID execution bindings literals) ∧
    ∀ now serverID presented limit db' answer, claim now db serverID presented limit = (db', answer) →
      (∀ leases, answer = .ok leases → ∀ lease ∈ leases,
        ∃ first f, db'.attempts.get? first = some f ∧ f.jobID = lease.jobID ∧ f.attemptNumber = 1 ∧
          Runs db' first lease.execution lease.secretBindings lease.literalBindings ∧
          Runs db' lease.attemptID lease.execution lease.secretBindings lease.literalBindings) ∧
      (∀ e, answer = .error e → e.is .corruptState = false) := by
  have hinv := (sound_of_reachable h).inv
  have hready := ready_of_reachable h
  refine ⟨fun attemptID a hrow => ?_, fun now serverID presented limit db' answer hclaim =>
    ⟨fun leases hleases lease hlease => ?_, fun e he => ?_⟩⟩
  · obtain ⟨first, f, hf, hof, hone, hinputs⟩ := hready.first_runs hinv hrow
    obtain ⟨execution, hexecution⟩ := Option.ne_none_iff_exists'.1 (hready.frozen.executed attemptID a hrow)
    have hruns : (view db).inputs attemptID =
        (some execution, ((view db).inputs attemptID).2.1, ((view db).inputs attemptID).2.2) := by
      rw [← hexecution]
      rfl
    exact ⟨first, f, execution, _, _, hf, hof, hone, runs_of_inputs (hinputs.trans hruns), runs_of_inputs hruns⟩
  · subst hleases
    obtain ⟨hreported, a, ha, hof⟩ := claim_reports hinv hclaim lease hlease
    have heffects := claim_effects hinv hclaim
    obtain ⟨first, f, hf, hfof, hone, hinputs⟩ := (hready.effects hinv heffects).first_runs (hinv.effects heffects) ha
    exact ⟨first, f, hf, hfof.trans hof, hone, runs_of_inputs (hinputs.trans hreported), runs_of_inputs hreported⟩
  · subst he
    exact claim_uncorrupted hready hinv hclaim

-- The retried job of the sample, whose runtime configuration was changed between its two attempts.
def sampleReconfigured : DB :=
  execAll sampleLeased
    [(2000, .complete 7 "srv" sampleToken 1 1 ⟨.failed, some .transient, "first", sampleToken⟩),
      (3000, .administer
        { sampleDB.administration with
          runtimeConfigs := Table.empty.put "env" { sampleSettings with containerPort := 9090, configRevision := 2 } }
        sampleDB.servers sampleDB.credentials),
      (10 ^ 9, .claim "srv" sampleToken 1)]

theorem retries_run_first_inputs_reconfigured :
    ∃ second execution bindings literals, sampleReconfigured.attempts.get? 2 = some second ∧
      second.attemptNumber = 2 ∧ Runs sampleReconfigured 2 execution bindings literals ∧
      execution.containerPort = 8080 ∧
      ∃ first f, sampleReconfigured.attempts.get? first = some f ∧ f.jobID = second.jobID ∧ f.attemptNumber = 1 ∧
        Runs sampleReconfigured first execution bindings literals := by
  have hstored : ((sampleReconfigured.attempts.get? 2).map fun a => a.attemptNumber) = some 2 ∧
      ((sampleReconfigured.executions.get? 2).map fun e => e.containerPort) = some 8080 := by
    decide +kernel
  obtain ⟨second, hrow, hnumber⟩ := Option.map_eq_some_iff.1 hstored.1
  obtain ⟨stored, hport, hexecution⟩ := Option.map_eq_some_iff.1 hstored.2
  have hreachable : leaseSystem.Reachable sampleReconfigured :=
    reachable_execAll (reachable_execAll (sampleDB_reachable _) fun _ _ _ => trivial) fun _ _ _ => trivial
  obtain ⟨first, f, execution, bindings, literals, hf, hof, hone, hfirst, hsecond⟩ :=
    (retries_run_first_inputs hreachable).1 2 second hrow
  have hsame : stored = execution := Option.some.inj (hport.symm.trans hsecond.execution)
  exact ⟨second, execution, bindings, literals, hrow, hnumber, hsecond, hsame ▸ hexecution, first, f, hf, hof, hone,
    hfirst⟩

end

end AutoDeploy.Protocol
