import AutoDeploy.Protocol.Theorems.Claims

namespace AutoDeploy.Protocol

open Function Lib Lib.Result Queue Store Deployment

-- A claim leases something whenever a job among those it discovers can be leased.

-- The claim's own checks of a locked candidate.
def Offered (now : Nat) (db : DB) (serverID : String) (jobID : Nat) (environmentID : String) : Prop :=
  ∃ config slot job plan, claimable db now serverID jobID environmentID = some (config, slot, job) ∧
    planFreeze db config jobID job = .ok (some plan)

-- What keeps a runnable job from being leased, apart from the order of the queue.
structure Assignable (db : DB) (job : Job) : Prop where
  unmarked : job.cancelRequestedAt = none
  configured : db.administration.runtimeConfigs.contains job.environmentID = true
  bound : job.attemptCount = 0 → (resolveRuntimeSecretBindings db job.environmentID).isSome = true
  free : ∀ slot, db.slots.get? job.environmentID = some slot →
    slot.currentAttemptID = none ∧ slot.reconciliationRequired = false

section

variable {db db' : DB} {now clock limit jobID : Nat} {serverID environmentID owner : String} {presented : Digest} {job : Job}

-- What the candidates of a claim find: nothing is ahead of the claim's reading.
structure Undisturbed (now : Nat) (serverID : String) (db : DB) : Prop where
  timed : Timed now db
  ready : Ready (view db)
  server : db.servers.contains serverID = true

theorem Undisturbed.effects {permitted : Kind → Prop} (h : Undisturbed now serverID db)
    (he : Effects now permitted (view db) (view db')) (hservers : db'.servers = db.servers) : Undisturbed now serverID db' := by
  have hinv := h.timed.sound.inv
  refine ⟨⟨⟨hinv.effects he, ?_⟩, h.timed.clocked.effects hinv he, h.timed.positive⟩, h.ready.effects hinv he, ?_⟩
  · exact (he.preserves (P := Reconciliations) hinv h.timed.sound.reconciliations
      fun _ _ _ _ hinv hrecon he => hrecon.effect hinv he).2
  · rw [hservers]
    exact h.server

theorem tryClaim_servers {lease : Option ClaimedLease}
    (h : tryClaim now db serverID jobID environmentID = .ok (db', lease)) : db'.servers = db.servers := by
  have hkept := tryClaim_access rfl _ h
  simp only [access, Prod.mk.injEq] at hkept
  exact hkept.2.1

theorem Undisturbed.tryClaim_accepted (h : Undisturbed now serverID db) (jobID : Nat) (environmentID : String) :
    Succeeds (tryClaim now db serverID jobID environmentID) :=
  Protocol.tryClaim_accepted h.timed.sound.inv h.ready h.timed.positive h.server (h.timed.timely serverID jobID environmentID)

-- An offered candidate is leased, any other is passed over.
theorem Undisturbed.tryClaim_offered (h : Undisturbed now serverID db)
    (hoffered : Offered now db serverID jobID environmentID) :
    ∃ db' lease, tryClaim now db serverID jobID environmentID = .ok (db', some lease) := by
  obtain ⟨config, slot, job, plan, hclaimable, hplan⟩ := hoffered
  obtain ⟨⟨db', lease⟩, htry⟩ := h.tryClaim_accepted jobID environmentID
  have htry' := htry
  simp only [tryClaim, hclaimable, hplan, ok_bind] at htry'
  obtain ⟨⟨x, rfl, -⟩, -, -⟩ :=
    leaseCandidate_effects h.timed.sound.inv (claimable_eq_some hclaimable) hplan htry'
  exact ⟨db', x, htry⟩

theorem Undisturbed.tryClaim_passed (h : Undisturbed now serverID db)
    (hnot : ¬ Offered now db serverID jobID environmentID) :
    tryClaim now db serverID jobID environmentID = .ok (db, none) := by
  unfold tryClaim
  split
  · rfl
  · rename_i config slot job hclaimable
    obtain ⟨plan, hplan⟩ := planFreeze_accepted config h.ready.lifecycles (claimable_eq_some hclaimable).jobRow
    cases plan with
    | none =>
        rw [hplan]
        rfl
    | some plan => exact absurd ⟨config, slot, job, plan, hclaimable, hplan⟩ hnot

-- The loop never fails and keeps what it has leased.
theorem Undisturbed.claimLoop_accepted (h : Undisturbed now serverID db) (limit : Nat) (candidates : List (Nat × String))
    (claimed : List ClaimedLease) :
    ∃ db' leases, claimLoop now serverID limit candidates db claimed = .ok (db', claimed ++ leases) := by
  induction candidates generalizing db claimed with
  | nil => exact ⟨db, [], by simp [claimLoop]⟩
  | cons c rest ih =>
      by_cases hfull : limit ≤ claimed.length
      · exact ⟨db, [], by simp [claimLoop, hfull]⟩
      · obtain ⟨⟨db₁, lease⟩, htry⟩ := h.tryClaim_accepted c.1 c.2
        have hnext := h.effects (tryClaim_effects h.timed.sound.inv htry).1 (tryClaim_servers htry)
        obtain ⟨db', leases, hrest⟩ := ih hnext (claimed ++ lease.toList)
        refine ⟨db', lease.toList ++ leases, ?_⟩
        simp only [claimLoop, hfull, if_false, htry, ok_bind, hrest, List.append_assoc]

-- It leases something exactly when a candidate is offered: until the first lease nothing changes.
theorem Undisturbed.claimLoop_leases (h : Undisturbed now serverID db) (limit : Nat) (hlimit : 0 < limit)
    (candidates : List (Nat × String)) :
    ∃ db' leases, claimLoop now serverID limit candidates db [] = .ok (db', leases) ∧
      (leases ≠ [] ↔ ∃ c ∈ candidates, Offered now db serverID c.1 c.2) := by
  induction candidates with
  | nil => exact ⟨db, [], rfl, by simp⟩
  | cons c rest ih =>
      have hmore : ¬ limit ≤ ([] : List ClaimedLease).length := by simpa using Nat.pos_iff_ne_zero.1 hlimit
      by_cases hoffered : Offered now db serverID c.1 c.2
      · obtain ⟨db₁, lease, htry⟩ := h.tryClaim_offered hoffered
        have hnext := h.effects (tryClaim_effects h.timed.sound.inv htry).1 (tryClaim_servers htry)
        obtain ⟨db', leases, hrest⟩ := hnext.claimLoop_accepted limit rest [lease]
        refine ⟨db', [lease] ++ leases, ?_, ?_⟩
        · simp only [claimLoop, hmore, if_false, htry, ok_bind]
          exact hrest
        · exact ⟨fun _ => ⟨c, List.mem_cons_self, hoffered⟩, fun _ => by simp⟩
      · obtain ⟨db', leases, hrest, hleases⟩ := ih
        refine ⟨db', leases, ?_, ?_⟩
        · simp only [claimLoop, hmore, if_false, h.tryClaim_passed hoffered, ok_bind]
          exact hrest
        · rw [hleases]
          simp [hoffered]

theorem openSlots_eq (environments : List String) :
    ∃ slots, environments.foldl (ensureSlot now) db = { db with slots := slots } := by
  induction environments generalizing db with
  | nil => exact ⟨db.slots, rfl⟩
  | cons e rest ih =>
      rw [List.foldl_cons, ensureSlot]
      split
      · exact ih
      · exact @ih { db with slots := db.slots.put e ⟨0, none, none, now⟩ }

-- An opened slot was there before, or is free.
theorem openSlots_opens {environments : List String} (he : environmentID ∈ environments) :
    ∃ slot, (environments.foldl (ensureSlot now) db).slots.get? environmentID = some slot ∧
      (db.slots.get? environmentID = some slot ∨
        (db.slots.get? environmentID = none ∧ slot = ⟨0, none, none, now⟩)) := by
  induction environments generalizing db with
  | nil => cases he
  | cons e rest ih =>
      simp only [List.foldl_cons]
      cases hrow : db.slots.get? environmentID with
      | some slot => exact ⟨slot, openSlots_keeps rest (ensureSlot_keeps hrow), .inl rfl⟩
      | none =>
          by_cases hsame : environmentID = e
          · have hopened : (ensureSlot now db e).slots.get? environmentID = some ⟨0, none, none, now⟩ := by
              simp [ensureSlot, Table.contains, ← hsame, hrow]
            exact ⟨_, openSlots_keeps rest hopened, .inr ⟨rfl, rfl⟩⟩
          · have hstill : (ensureSlot now db e).slots.get? environmentID = none := by
              unfold ensureSlot
              split
              · exact hrow
              · simpa [hsame] using hrow
            obtain ⟨slot, hslot, hold | ⟨-, hnew⟩⟩ := @ih (ensureSlot now db e)
              ((List.mem_cons.1 he).resolve_left hsame)
            · cases hstill.symm.trans hold
            · exact ⟨slot, hslot, .inr ⟨rfl, hnew⟩⟩

theorem planFreeze_some (config : ExecutionSnapshot) (h : Lifecycles (view db)) (hjob : db.jobs.get? jobID = some job)
    (hbound : job.attemptCount = 0 → (resolveRuntimeSecretBindings db job.environmentID).isSome = true) :
    ∃ plan, planFreeze db config jobID job = .ok (some plan) := by
  by_cases hfirst : job.attemptCount = 0
  · obtain ⟨bindings, hbindings⟩ := Option.isSome_iff_exists.1 (hbound hfirst)
    simp only [planFreeze, hfirst, if_true, hbindings, Option.map_some]
    exact ⟨_, rfl⟩
  · obtain ⟨plan, hplan⟩ := planFreeze_accepted config h hjob
    simp only [planFreeze, hfirst, if_false] at hplan ⊢
    split at hplan
    · exact ⟨_, rfl⟩
    · cases hplan

-- A runnable job is offered once the slots are opened exactly when it was assignable before.
theorem offered_iff {environments : List String} (hready : Ready (view db)) (hjob : db.jobs.get? jobID = some job)
    (hserver : job.serverID = serverID) (hidle : job.state = .queued ∨ job.state = .retryWait)
    (havailable : job.availableAt ≤ now) (he : job.environmentID ∈ environments) :
    Offered now (environments.foldl (ensureSlot now) db) serverID jobID job.environmentID ↔ Assignable db job := by
  obtain ⟨slot, hslot, hbefore⟩ := @openSlots_opens db now _ _ he
  obtain ⟨slots, hopened⟩ := @openSlots_eq db now environments
  rw [hopened] at hslot ⊢
  have hslot : slots.get? job.environmentID = some slot := hslot
  constructor
  · rintro ⟨config, slot', job', plan, hclaimable, hplan⟩
    have hc := claimable_eq_some hclaimable
    obtain rfl : job = job' := Option.some.inj (hjob.symm.trans hc.jobRow)
    obtain rfl : slot = slot' := Option.some.inj (hslot.symm.trans hc.slotRow)
    refine ⟨hc.unmarked, ?_, fun hfirst => ?_, fun old hold => ?_⟩
    · simp only [claimable, Option.bind_eq_bind, Option.bind_eq_some_iff] at hclaimable
      obtain ⟨config', hconfig, -⟩ := hclaimable
      simp [Table.contains, hconfig]
    · simp only [planFreeze, hfirst, if_true, pure_eq_ok, Option.map_eq_some_iff] at hplan
      obtain ⟨bindings, hbindings, -⟩ := hplan
      have hbindings : resolveRuntimeSecretBindings db job.environmentID = some bindings := hbindings
      simp [hbindings]
    · rcases hbefore with hkept | ⟨hnone, -⟩
      · obtain rfl : slot = old := Option.some.inj (hkept.symm.trans hold)
        exact ⟨hc.free, by simp [Slot.reconciliationRequired, hc.unflagged]⟩
      · cases hnone.symm.trans hold
  · intro h
    obtain ⟨config, hconfig⟩ := Option.isSome_iff_exists.1 h.configured
    have hfree : slot.currentAttemptID = none ∧ slot.reconciliationRequired = false := by
      rcases hbefore with hkept | ⟨-, rfl⟩
      · exact h.free slot hkept
      · exact ⟨rfl, rfl⟩
    obtain ⟨plan, hplan⟩ := planFreeze_some config hready.lifecycles hjob h.bound
    refine ⟨config, slot, job, plan, ?_, hplan⟩
    simp only [claimable, hconfig, hslot, hjob, Option.bind_eq_bind, Option.bind_some]
    exact if_pos ⟨hfree.1, hfree.2, trivial, hserver, hidle, havailable, h.unmarked⟩

theorem mem_discoverRunnable (h : (jobID, job) ∈ discoverRunnable db now serverID limit) :
    db.jobs.get? jobID = some job ∧ job.serverID = serverID ∧ (job.state = .queued ∨ job.state = .retryWait) ∧
      job.availableAt ≤ now := by
  have hmem := (List.perm_insertionSort _ _).mem_iff.1 (List.mem_of_mem_take h)
  obtain ⟨hrow, hp⟩ := (Table.mem_select _ _ _ _).1 hmem
  simp only [Bool.and_eq_true, Bool.or_eq_true, beq_iff_eq, decide_eq_true_eq] at hp
  exact ⟨hrow, hp.1.1, hp.1.2, hp.2⟩

-- A claim with a valid credential never fails, and leases something exactly when one of the first runnable jobs of
-- the server can be assigned. Discovery reads five jobs for each lease asked for, at most fifty of them, and no more
-- than two hundred.
theorem claim_leases_iff_assignable (h : timedSystem.Reachable (clock, db)) (hle : clock ≤ now)
    (hvalid : validOpaqueID serverID = true) (hlock : lockActiveServerCredential db serverID presented = .ok owner)
    (hlimit : 1 ≤ limit) :
    ∃ db' leases, claim now db serverID presented limit = (db', .ok leases) ∧
      (leases ≠ [] ↔ ∃ jobID job, (jobID, job) ∈ discoverRunnable db now serverID
        (min (min limit 50 * claimDiscoveryPerJob) claimDiscoveryMax) ∧ Assignable db job) := by
  have hstart := claims_of_timed h hlock []
  have hundisturbed : Undisturbed now serverID db :=
    ⟨(timed_of_reachable h).mono hle, hstart.ready, hstart.server⟩
  let window := discoverRunnable db now serverID (min (min limit 50 * claimDiscoveryPerJob) claimDiscoveryMax)
  let candidates := window.map fun row => (row.1, row.2.environmentID)
  let opened := (candidates.map Prod.snd).foldl (ensureSlot now) db
  have hkept : access opened = access db := openSlots_access _ rfl
  simp only [access, Prod.mk.injEq] at hkept
  have hopened : Undisturbed now serverID opened :=
    hundisturbed.effects (openSlots_effects (candidates.map Prod.snd)) hkept.2.1
  have hlock' : lockActiveServerCredential opened serverID presented = .ok owner := by
    simpa only [lockActiveServerCredential, hkept.2.1, hkept.2.2] using hlock
  obtain ⟨db', leases, hloop, hleases⟩ := hopened.claimLoop_leases (min limit 50) (by omega) candidates
  refine ⟨db', leases, ?_, ?_⟩
  · have htx : claimTx now opened serverID presented (min limit 50) candidates = .ok (db', leases) := by
      simp only [claimTx, hlock', ok_bind, hloop]
    have hne : limit ≠ 0 := by omega
    simp only [claim, hne, if_false, hvalid, Bool.true_eq_false, hlock]
    rw [show claimTx now _ serverID presented (min limit 50) _ = .ok (db', leases) from htx]
  · rw [hleases]
    constructor
    · rintro ⟨c, hc, hoffered⟩
      obtain ⟨⟨jobID, job⟩, hrow, rfl⟩ := List.mem_map.1 hc
      obtain ⟨hjob, hserver, hidle, havailable⟩ := mem_discoverRunnable hrow
      refine ⟨jobID, job, hrow, (offered_iff hstart.ready hjob hserver hidle havailable ?_).1 hoffered⟩
      exact List.mem_map.2 ⟨_, hc, rfl⟩
    · rintro ⟨jobID, job, hrow, hassignable⟩
      obtain ⟨hjob, hserver, hidle, havailable⟩ := mem_discoverRunnable hrow
      have hc : (jobID, job.environmentID) ∈ candidates := List.mem_map.2 ⟨(jobID, job), hrow, rfl⟩
      refine ⟨_, hc, (offered_iff hstart.ready hjob hserver hidle havailable ?_).2 hassignable⟩
      exact List.mem_map.2 ⟨_, hc, rfl⟩

end

theorem claim_leases_iff_assignable_sample :
    ∃ db' leases, claim 1000 sampleDB "srv" sampleToken 1 = (db', .ok leases) ∧ leases ≠ [] := by
  have hstored : lockActiveServerCredential sampleDB "srv" sampleToken = .ok "own" ∧ validOpaqueID "srv" = true ∧
      (discoverRunnable sampleDB 1000 "srv" (min (min 1 50 * claimDiscoveryPerJob) claimDiscoveryMax)).map
        (fun row => (row.1, row.2.environmentID, row.2.cancelRequestedAt)) = [(1, "env", none)] ∧
      sampleDB.administration.runtimeConfigs.contains "env" = true ∧
      (resolveRuntimeSecretBindings sampleDB "env").isSome = true := by
    decide +kernel
  obtain ⟨hlock, hvalid, hwindow, hconfigured, hbound⟩ := hstored
  obtain ⟨db', leases, hclaim, hleases⟩ :=
    claim_leases_iff_assignable sampleDB_timed (by norm_num : 1 ≤ 1000) hvalid hlock (Nat.le_refl 1)
  obtain ⟨⟨jobID, job⟩, hrows, hrow⟩ := List.map_eq_singleton_iff.1 hwindow
  obtain ⟨-, henvironment, hunmarked⟩ : jobID = 1 ∧ job.environmentID = "env" ∧ job.cancelRequestedAt = none := by
    simpa using hrow
  refine ⟨db', leases, hclaim, hleases.2 ⟨jobID, job, by rw [hrows]; exact List.mem_singleton_self _, ?_⟩⟩
  exact ⟨hunmarked, henvironment ▸ hconfigured, fun _ => henvironment ▸ hbound, fun slot hslot => by cases hslot⟩

-- The sample with five more jobs, before the first one in the queue, in an environment without settings.

def sampleQueueDeployment (n : Nat) : String := "dep" ++ toString n

def sampleQueue : DB :=
  { sampleDB with
    deployments := sampleDB.deployments.putAll ([2, 3, 4, 5, 6].map fun n => (sampleQueueDeployment n,
      ⟨1, ⟨sampleQueueDeployment n, "prj", "bare", "srv", "c0ffee"⟩, .queued, 1, 1, 1, [⟨none, .queued, 1⟩]⟩))
    jobs := sampleDB.jobs.putAll ([2, 3, 4, 5, 6].map fun n => (n,
      ⟨"own", "prj", "bare", "srv", sampleQueueDeployment n, 1, "refs/heads/main", "c0ffee", 10, 1, 1, .queued, 0, none,
        1⟩)) }

theorem every_of_all {κ α : Type} [DecidableEq κ] {t : Table κ α} {P : κ → α → Prop} (p : κ → α → Bool)
    (h : (t.rows.all fun row => p row.1 row.2) = true) (hp : ∀ k a, p k a = true → P k a) : Every t.get? P := by
  intro k a hrow
  exact hp k a (List.all_eq_true.1 h (k, a) ((Table.mem_rows_iff t k a).2 hrow))

theorem sampleQueue_initial : Initial sampleQueue where
  jobs := by
    refine every_of_all (fun _ job => job.state == .queued && job.attemptCount == 0 && job.cancelRequestedAt.isNone &&
      (sampleQueue.deployments.get? job.deploymentID).any fun s => s.status == .queued) (by decide +kernel) ?_
    intro id job h
    simp only [Bool.and_eq_true, beq_iff_eq, Option.isNone_iff_eq_none, Option.any_eq_true] at h
    obtain ⟨⟨⟨hstate, hcount⟩, hmark⟩, s, hs, hstatus⟩ := h
    exact ⟨hstate, hcount, hmark, s, hs, hstatus⟩
  separate := by
    refine every_of_all (fun id job => sampleQueue.jobs.rows.all fun row =>
      job.deploymentID != row.2.deploymentID || id == row.1) (by decide +kernel) ?_
    intro id job h other job' hrow hsame
    have hall := List.all_eq_true.1 h (other, job') ((Table.mem_rows_iff _ _ _).2 hrow)
    simpa [hsame] using hall
  deployments := by
    refine every_of_all (fun id s => decide (s.identity.deploymentID = id) && decide (rehydrate s = .ok s.aggregate) &&
      s.status != .activating) (by decide +kernel) ?_
    intro id s h
    simp only [Bool.and_eq_true, decide_eq_true_eq, bne_iff_ne] at h
    exact ⟨⟨h.1.1, h.1.2⟩, h.2⟩
  attempts := sampleDB_initial.attempts
  releases := sampleDB_initial.releases
  operations := sampleDB_initial.operations
  slots := sampleDB_initial.slots
  routeHeads := sampleDB_initial.routeHeads
  hostnames := sampleDB_initial.hostnames
  jobEvents := sampleDB_initial.jobEvents

theorem sampleQueue_timed : timedSystem.Reachable (1, sampleQueue) := by
  have hregistered : Registered 1 sampleDB.servers sampleDB.credentials := registered_of_reachable sampleDB_timed
  refine .of_initial ⟨sampleQueue_initial, ?_, hregistered, Nat.one_pos⟩
  refine { (timed_of_reachable sampleDB_timed).clocked with jobs := ?_, deployments := ?_, leases := ?_ }
  · exact every_of_all (fun _ job => decide (job.updatedAt ≤ 1)) (by decide +kernel) fun _ _ h => of_decide_eq_true h
  · exact every_of_all (fun _ s => decide (s.updatedAt ≤ 1)) (by decide +kernel) fun _ _ h => of_decide_eq_true h
  · intro id a hrow
    cases hrow

-- The first job can be assigned, but a claim of one lease looks at five.
theorem claim_misses_assignable_job :
    timedSystem.Reachable (1, sampleQueue) ∧ validOpaqueID "srv" = true ∧
    lockActiveServerCredential sampleQueue "srv" sampleToken = .ok "own" ∧
    (∃ job, sampleQueue.jobs.get? 1 = some job ∧ job.serverID = "srv" ∧ job.state = .queued ∧ job.availableAt ≤ 1000 ∧
      Assignable sampleQueue job) ∧
    ∃ db', claim 1000 sampleQueue "srv" sampleToken 1 = (db', .ok []) := by
  have hstored : validOpaqueID "srv" = true ∧ lockActiveServerCredential sampleQueue "srv" sampleToken = .ok "own" ∧
      sampleQueue.jobs.get? 1 = sampleDB.jobs.get? 1 ∧
      sampleQueue.administration.runtimeConfigs.contains "env" = true ∧
      (resolveRuntimeSecretBindings sampleQueue "env").isSome = true ∧
      (claim 1000 sampleQueue "srv" sampleToken 1).2 = .ok [] := by
    decide +kernel
  obtain ⟨hvalid, hlock, hjob, hconfigured, hbound, hclaim⟩ := hstored
  refine ⟨sampleQueue_timed, hvalid, hlock, ⟨_, hjob.trans rfl, rfl, rfl, by decide, ?_⟩, _, Prod.ext rfl hclaim⟩
  exact ⟨rfl, hconfigured, fun _ => hbound, fun slot hslot => by cases hslot⟩

end AutoDeploy.Protocol
