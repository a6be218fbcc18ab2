import AutoDeploy.Protocol.Access
import AutoDeploy.Protocol.Theorems.Leases

namespace AutoDeploy.Protocol

open Lib Lib.Result Queue Store Deployment

-- A version names a head that exists: the foreign key of secret_versions.
def Headed (a : Administration) : Prop :=
  ∀ id v, a.secretVersions.get? id = some v → ∃ head, a.secretHeads.get? v.secretID = some head

-- What the triggers of secret_versions leave of any edit: no version is deleted, none changes its secret or its
-- scope, and a revoked one stays revoked. Rotations and revocations, and every edit of other tables, are such edits.
structure VersionsKept (old new : Administration) : Prop where
  headed : Headed new
  kept : ∀ id v, old.secretVersions.get? id = some v →
    ∃ state, new.secretVersions.get? id = some { v with state := state } ∧ (v.state = .revoked → state = .revoked)

def secretsGuarded (_ : Nat) (db : DB) : Txn → Prop
  | .administer administration _ _ => VersionsKept db.administration administration
  | _ => True

-- The lease system over a database whose secret tables meet their constraints.
def guardedSystem : System DB where
  initial db := Initial db ∧ Headed db.administration ∧ ∀ id, db.frozenBindings.get? id = none
  next := (leaseWhere secretsGuarded).next

-- Every frozen binding names a version that exists.
def Referenced (administration : Administration) (frozen : Table Nat (List FrozenBinding)) : Prop :=
  ∀ attemptID bindings, frozen.get? attemptID = some bindings → ∀ b ∈ bindings,
    ∃ v, administration.secretVersions.get? b.secretVersionID = some v

section

variable {db db' : DB} {now attemptID fence : Nat} {serverID environmentID : String} {presented : Digest}
  {administration administration' : Administration} {frozen : Table Nat (List FrozenBinding)}

theorem Referenced.put {bindings : List FrozenBinding} (h : Referenced administration frozen)
    (hnew : ∀ b ∈ bindings, ∃ v, administration.secretVersions.get? b.secretVersionID = some v) :
    Referenced administration (frozen.put attemptID bindings) := by
  intro id rows hrows
  by_cases hid : id = attemptID
  · subst hid
    rw [Table.get?_put_self] at hrows
    cases hrows
    exact hnew
  · rw [Table.get?_put, if_neg hid] at hrows
    exact h id rows hrows

theorem Referenced.kept (h : Referenced administration frozen) (hkept : VersionsKept administration administration') :
    Referenced administration' frozen := by
  intro id bindings hrows b hb
  obtain ⟨v, hv⟩ := h id bindings hrows b hb
  obtain ⟨state, hv', -⟩ := hkept.kept b.secretVersionID v hv
  exact ⟨_, hv'⟩

-- What a claim resolves, it has just read.
theorem resolveRuntimeSecretBindings_referenced {bindings : List FrozenBinding}
    (h : resolveRuntimeSecretBindings db environmentID = some bindings) :
    ∀ b ∈ bindings, ∃ v, db.administration.secretVersions.get? b.secretVersionID = some v := by
  unfold resolveRuntimeSecretBindings at h
  simp only [Option.ite_none_right_eq_some, Option.some.injEq] at h
  obtain ⟨-, rfl⟩ := h
  intro b hb
  have hmem := (List.perm_insertionSort _ _).mem_iff.1 hb
  obtain ⟨bound, -, hresolved⟩ := List.mem_filterMap.1 hmem
  obtain ⟨id, hactive, rfl⟩ := Option.map_eq_some_iff.1 hresolved
  simp only [activeVersion, Option.bind_eq_bind, Option.bind_eq_some_iff, Option.ite_none_right_eq_some,
    Option.some.injEq] at hactive
  obtain ⟨head, -, current, -, version, hversion, -, rfl⟩ := hactive
  exact ⟨version, hversion⟩

-- The frozen inputs of a new attempt are resolved or copied.
theorem referenced_freezes : Freezes fun a _ _ _ frozen => a = administration ∧ Referenced a frozen := by
  intro db config jobID job plan h hplan db' attemptID h'
  obtain ⟨hold, -⟩ := h
  obtain ⟨hnew, hreferenced⟩ := h'
  cases plan with
  | fresh execution bindings literals =>
      refine .pure ⟨hnew, Referenced.put hreferenced ?_⟩
      unfold planFreeze at hplan
      split at hplan
      · simp only [pure_eq_ok, Option.map_eq_some_iff, FreezePlan.fresh.injEq] at hplan
        obtain ⟨resolved, hresolved, -, rfl, -⟩ := hplan
        rw [hnew, ← hold]
        exact resolveRuntimeSecretBindings_referenced hresolved
      · split at hplan
        · cases hplan
        · cases hplan
  | copy previous =>
      refine .bind_any fun _ => .pure ⟨hnew, Referenced.put hreferenced fun b hb => ?_⟩
      cases hprevious : db'.frozenBindings.get? previous with
      | none => simp [hprevious] at hb
      | some bindings => exact hreferenced previous bindings hprevious b (by simpa [hprevious] using hb)

theorem referenced_absorbs (target : Status) : Absorbs (fun a _ _ _ frozen => a = administration ∧
    Referenced a frozen) target :=
  fun _ _ _ _ _ _ _ _ h => h

-- A revocation writes neither the secrets nor the frozen bindings.
theorem revokeServer_referenced {draws : Nat → Nat} {p : Principal} {reason : String}
    (h : Referenced db.administration db.frozenBindings) :
    Returns (fun r => r.1.administration = db.administration ∧ Referenced r.1.administration r.1.frozenBindings)
      (revokeServer now draws db p serverID reason) := by
  unfold revokeServer
  refine .bind_any fun _ => .bind_any fun _ => .bind_any fun _ => .bind_any fun _ => .bind_any fun _ => ?_
  refine .bind (revokeLoop_keeps (referenced_absorbs .cancelled) (referenced_absorbs .failed) ?_) fun _ h => .pure h
  split
  · exact ⟨rfl, h⟩
  · exact ⟨rfl, h⟩

structure Guarded (db : DB) : Prop where
  headed : Headed db.administration
  referenced : Referenced db.administration db.frozenBindings

theorem Guarded.exec {txn : Txn} (h : Guarded db) (hallowed : secretsGuarded now db txn) :
    Guarded (exec now db txn) := by
  by_cases hregrants : txn.regrants
  · cases txn with
    | revokeServer draws p serverID reason =>
        simp only [Protocol.exec]
        cases hcall : revokeServer now draws db p serverID reason with
        | error e => exact h
        | ok r =>
            obtain ⟨hsame, hreferenced⟩ := revokeServer_referenced h.referenced r hcall
            exact ⟨by simpa [committed, hsame] using h.headed, hreferenced⟩
    | administer administration servers credentials => exact ⟨hallowed.headed, h.referenced.kept hallowed⟩
    | _ => exact absurd hregrants fun h => h
  · have hkeeps : Framed (fun a _ _ _ frozen => a = db.administration ∧ Referenced a frozen) (Protocol.exec now db txn) :=
      exec_keeps hregrants (fun target _ => referenced_absorbs target) (fun _ => referenced_freezes) ⟨rfl, h.referenced⟩
    obtain ⟨hsame, hreferenced⟩ := hkeeps
    exact ⟨hsame ▸ h.headed, hreferenced⟩

theorem guarded_of_reachable (h : guardedSystem.Reachable db) : Guarded db := by
  refine System.Reachable.invariant (P := Guarded) ?_ ?_ h
  · rintro db ⟨-, hheaded, hnone⟩
    refine ⟨hheaded, fun id bindings hrows => ?_⟩
    rw [hnone id] at hrows
    cases hrows
  · rintro db db' h ⟨now, txn, hallowed, rfl⟩
    exact h.exec hallowed

theorem leaseReachable_of_guarded (h : guardedSystem.Reachable db) : leaseSystem.Reachable db := by
  refine System.Reachable.mono ?_ ?_ h
  · rintro db ⟨hinit, -⟩
    exact hinit
  · rintro db db' ⟨now, txn, -, hexec⟩
    exact ⟨now, txn, trivial, hexec⟩

-- The server holds the environment: its credential is good, its attempt is the leased occupant of the unflagged
-- slot at this fence, its authority has not expired, and no cancellation was requested.
structure Authorized (now : Nat) (db : DB) (serverID : String) (presented : Digest) (attemptID fence : Nat)
    (attempt : Attempt) (slot : Slot) (job : Job) : Prop where
  credential : ∃ ownerID, lockActiveServerCredential db serverID presented = .ok ownerID
  attemptRow : db.attempts.get? attemptID = some attempt
  ofServer : attempt.serverID = serverID
  leased : attempt.state = .leased
  atFence : attempt.fence = fence
  unexpired : now < attempt.authorityExpiresAt
  slotRow : db.slots.get? attempt.environmentID = some slot
  slotFence : slot.fence = fence
  occupant : slot.currentAttemptID = some attemptID
  unflagged : slot.reconciliationRequired = false
  jobRow : db.jobs.get? attempt.jobID = some job
  ofEnvironment : job.environmentID = attempt.environmentID
  uncancelled : job.cancelRequestedAt = none

theorem authorizeLease_authorized {purpose : String} {l : Lease} (hinv : Inv (view db))
    (h : authorizeLease now db purpose serverID presented attemptID fence = .ok l) :
    Authorized now db serverID presented attemptID fence l.attempt l.slot l.job := by
  simp only [authorizeLease, bind_eq_ok, require_eq_ok, pure_eq_ok] at h
  obtain ⟨_, -, l, hl, _, ⟨hunflagged, huncancelled, ⟨hleased, hslotFence, hoccupant⟩, hfence, hlive⟩, rfl⟩ := h
  simp only [lockLease, bind_eq_ok, found_eq_ok, require_eq_ok, pure_eq_ok] at hl
  obtain ⟨ownerID, howner, attempt, hattempt, _, hserver, slot, hslot, job, hjob, rfl⟩ := hl
  have hfits := (hinv.occupancy.fitsJob attemptID attempt hattempt).of_row hjob
  exact ⟨⟨ownerID, howner⟩, hattempt, hserver, hleased, hfence, hlive, hslot, hslotFence, hoccupant, hunflagged, hjob,
    hfits.environment, huncancelled⟩

-- What the answer says about one frozen binding.
structure Materializes (db : DB) (job : Job) (b : FrozenBinding) (x : FrozenSecretReference) : Prop where
  variableName : x.variableName = b.variableName
  deliveryScope : x.deliveryScope = b.deliveryScope
  secretVersionID : x.secretVersionID = b.secretVersionID
  version : ∃ v, db.administration.secretVersions.get? b.secretVersionID = some v ∧ x.secretID = v.secretID ∧
    v.ownerID = job.ownerID ∧ v.projectID = job.projectID ∧ v.environmentID = job.environmentID ∧ v.state ≠ .revoked

theorem materializeReference_of_version {job : Job} {b : FrozenBinding} {r : Option FrozenSecretReference} {v : SecretVersion}
    (hheaded : Headed db.administration) (hv : db.administration.secretVersions.get? b.secretVersionID = some v)
    (h : materializeReference db job b = .ok r) : ∃ x, r = some x ∧ Materializes db job b x := by
  obtain ⟨head, hhead⟩ := hheaded b.secretVersionID v hv
  simp only [materializeReference, hv, hhead, bind_eq_ok, require_eq_ok, pure_eq_ok] at h
  obtain ⟨_, hstate, _, ⟨howner, hproject, henvironment, -⟩, rfl⟩ := h
  exact ⟨_, rfl, rfl, rfl, rfl, v, hv, rfl, howner, hproject, henvironment, hstate⟩

-- One answer for each frozen binding, in order.
theorem materializeReferences_exact {job : Job} {bindings : List FrozenBinding} {secrets : List FrozenSecretReference}
    (hheaded : Headed db.administration)
    (hversions : ∀ b ∈ bindings, ∃ v, db.administration.secretVersions.get? b.secretVersionID = some v)
    (h : materializeReferences db job bindings = .ok secrets) : List.Forall₂ (Materializes db job) bindings secrets := by
  induction bindings generalizing secrets with
  | nil =>
      simp only [materializeReferences, pure_eq_ok] at h
      subst h
      exact .nil
  | cons b rest ih =>
      simp only [materializeReferences, bind_eq_ok, pure_eq_ok] at h
      obtain ⟨reference, hreference, references, hreferences, rfl⟩ := h
      obtain ⟨v, hv⟩ := hversions b List.mem_cons_self
      obtain ⟨x, rfl, hx⟩ := materializeReference_of_version hheaded hv hreference
      exact .cons hx (ih (fun b hb => hversions b (List.mem_cons_of_mem _ hb)) hreferences)

-- A materialization answers the holder of the environment only, and with exactly what the attempt was frozen with;
-- a checkout answers the same holder.
theorem materialization_is_frozen_set (h : guardedSystem.Reachable db) (now : Nat) (serverID : String)
    (presented : Digest) (attemptID fence : Nat) :
    (∀ r, authorizeMaterialization now db serverID presented attemptID fence = .ok r →
      ∃ attempt slot job, Authorized now db serverID presented attemptID fence attempt slot job ∧
        r = ⟨attempt.jobID, job.ownerID, job.projectID, job.environmentID, job.deploymentID, r.secrets⟩ ∧
        List.Forall₂ (Materializes db job) ((db.frozenBindings.get? attemptID).getD []) r.secrets) ∧
    (∀ r, authorizeCheckout now db serverID presented attemptID fence = .ok r →
      ∃ attempt slot job, Authorized now db serverID presented attemptID fence attempt slot job ∧
        r = ⟨attempt.jobID, job.ownerID, job.projectID, job.environmentID, job.deploymentID, job.repositoryID,
          job.commitSHA⟩) := by
  have hinv := (sound_of_reachable (leaseReachable_of_guarded h)).inv
  have hguarded := guarded_of_reachable h
  constructor
  · intro r hr
    simp only [authorizeMaterialization, bind_eq_ok, pure_eq_ok] at hr
    obtain ⟨l, hl, secrets, hsecrets, rfl⟩ := hr
    have hauthorized := authorizeLease_authorized hinv hl
    have hjob : { l.job with environmentID := l.attempt.environmentID } = l.job := by
      rw [← hauthorized.ofEnvironment]
    rw [hjob] at hsecrets
    refine ⟨l.attempt, l.slot, l.job, hauthorized, by rw [hauthorized.ofEnvironment], ?_⟩
    refine materializeReferences_exact hguarded.headed (fun b hb => ?_) hsecrets
    cases hfrozen : db.frozenBindings.get? attemptID with
    | none => simp [hfrozen] at hb
    | some bindings => exact hguarded.referenced attemptID bindings hfrozen b (by simpa [hfrozen] using hb)
  · intro r hr
    simp only [authorizeCheckout, bind_eq_ok, pure_eq_ok] at hr
    obtain ⟨l, hl, rfl⟩ := hr
    have hauthorized := authorizeLease_authorized hinv hl
    exact ⟨l.attempt, l.slot, l.job, hauthorized, by rw [hauthorized.ofEnvironment]⟩

end

-- The sample with one secret, bound to one variable; `current` and `state` describe a rotation after the freeze.
def sampleSecrets (current : String) (state : SecretVersionState) : Administration :=
  { sampleDB.administration with
    bindings := Table.empty.put ("env", "TOKEN") ⟨.runtime, .secret "sec"⟩
    secretHeads := Table.empty.put "sec" ⟨some current, .runtime, .runtime⟩
    secretVersions := (Table.empty.put "ver" ⟨"sec", "own", "prj", "env", state⟩).put "next"
      ⟨"sec", "own", "prj", "env", .active⟩ }

def sampleSecretDB : DB := { sampleDB with administration := sampleSecrets "ver" .active }

def sampleRotated : DB :=
  execAll sampleSecretDB
    [(1000, .claim "srv" sampleToken 1),
      (1500, .administer (sampleSecrets "next" .superseded) sampleDB.servers sampleDB.credentials)]

theorem sampleSecrets_version {current id : String} {state : SecretVersionState} {v : SecretVersion}
    (h : (sampleSecrets current state).secretVersions.get? id = some v) :
    id = "next" ∧ v = ⟨"sec", "own", "prj", "env", .active⟩ ∨ id = "ver" ∧ v = ⟨"sec", "own", "prj", "env", state⟩ := by
  simp only [sampleSecrets, Table.get?_put, Table.get?_empty] at h
  split at h
  · rename_i hid
    exact .inl ⟨hid, (Option.some.inj h).symm⟩
  · split at h
    · rename_i hid
      exact .inr ⟨hid, (Option.some.inj h).symm⟩
    · cases h

theorem sampleSecrets_headed (current : String) (state : SecretVersionState) : Headed (sampleSecrets current state) := by
  intro id v h
  obtain ⟨-, rfl⟩ | ⟨-, rfl⟩ := sampleSecrets_version h
  · exact ⟨_, rfl⟩
  · exact ⟨_, rfl⟩

theorem sampleSecrets_rotated : VersionsKept (sampleSecrets "ver" .active) (sampleSecrets "next" .superseded) := by
  refine ⟨sampleSecrets_headed _ _, fun id v h => ?_⟩
  obtain ⟨rfl, rfl⟩ | ⟨rfl, rfl⟩ := sampleSecrets_version h
  · exact ⟨.active, rfl, by simp⟩
  · exact ⟨.superseded, rfl, by simp⟩

theorem sampleRotated_reachable : guardedSystem.Reachable sampleRotated := by
  have hinit : Initial sampleSecretDB :=
    { jobs := sampleDB_initial.jobs
      separate := sampleDB_initial.separate
      deployments := sampleDB_initial.deployments
      attempts := sampleDB_initial.attempts
      releases := sampleDB_initial.releases
      operations := sampleDB_initial.operations
      slots := sampleDB_initial.slots
      routeHeads := sampleDB_initial.routeHeads
      hostnames := sampleDB_initial.hostnames
      jobEvents := sampleDB_initial.jobEvents }
  have hstart : guardedSystem.Reachable sampleSecretDB :=
    .of_initial ⟨hinit, sampleSecrets_headed _ _, fun _ => rfl⟩
  have hclaimed := hstart.step ⟨1000, .claim "srv" sampleToken 1, trivial, rfl⟩
  have hkept : access (exec 1000 sampleSecretDB (.claim "srv" sampleToken 1)) = access sampleSecretDB :=
    exec_access fun h => h
  have hadministration : (exec 1000 sampleSecretDB (.claim "srv" sampleToken 1)).administration = sampleSecrets "ver" .active :=
    congrArg Prod.fst hkept
  exact hclaimed.step ⟨1500, .administer (sampleSecrets "next" .superseded) sampleDB.servers sampleDB.credentials,
    by rw [secretsGuarded, hadministration]; exact sampleSecrets_rotated, rfl⟩

-- A version superseded after the freeze is still the one that is handed out.
theorem materialization_is_frozen_set_rotated :
    ∃ r, authorizeMaterialization 2000 sampleRotated "srv" sampleToken 1 1 = .ok r ∧
      r.secrets = [⟨"TOKEN", .runtime, "ver", "sec", .runtime⟩] ∧
      ∃ attempt slot job, Authorized 2000 sampleRotated "srv" sampleToken 1 1 attempt slot job ∧
        List.Forall₂ (Materializes sampleRotated job) ((sampleRotated.frozenBindings.get? 1).getD []) r.secrets := by
  have hcall : ((authorizeMaterialization 2000 sampleRotated "srv" sampleToken 1 1).toOption.any fun r =>
      r.secrets == [⟨"TOKEN", .runtime, "ver", "sec", .runtime⟩]) = true := by
    decide +kernel
  obtain ⟨r, hok, hsecrets⟩ := ok_of_any hcall
  obtain ⟨attempt, slot, job, hauthorized, -, hexact⟩ :=
    (materialization_is_frozen_set sampleRotated_reachable 2000 "srv" sampleToken 1 1).1 r hok
  exact ⟨r, hok, by simpa using hsecrets, attempt, slot, job, hauthorized, hexact⟩

end AutoDeploy.Protocol
