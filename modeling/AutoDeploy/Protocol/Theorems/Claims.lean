import AutoDeploy.Lib.Interleaving
import AutoDeploy.Protocol.Acceptance
import AutoDeploy.Protocol.Access
import AutoDeploy.Protocol.Theorems.Authority
import AutoDeploy.Protocol.Theorems.Freezing

namespace AutoDeploy.Protocol

open Function Lib Lib.Result Queue Store Deployment

-- A candidate that can be claimed is claimed, as long as no row of it is stamped later than the claim's reading.

-- The rows a claim of the job writes carry no stamp later than its reading. The deployment is written by the first
-- attempt only.
structure Dated (now : Nat) (slot : Slot) (job : Job) (s : Snapshot) : Prop where
  slotDated : slot.updatedAt ≤ now
  jobDated : job.updatedAt ≤ now
  deployment : job.attemptCount = 0 → s.updatedAt ≤ now

section

variable {db db' : DB} {now jobID attemptID : Nat} {serverID environmentID : String} {job : Job} {slot : Slot} {s : Snapshot}

theorem Verdict.waiting {number : Nat} {mark : Option Nat} {state : AttemptState} {c : Option FailureClass}
    {jobState : JobState} (h : Verdict number mark state c jobState) (hidle : jobState = .queued ∨ jobState = .retryWait) :
    number < maxAttempts := by
  cases h with
  | retried hnumber => exact hnumber
  | expired _ hnumber => exact hnumber
  | _ => simp at hidle

-- A waiting job has attempts left.
theorem Lifecycles.waiting_below (h : Lifecycles (view db)) (hinv : Inv (view db)) (hjob : db.jobs.get? jobID = some job)
    (hidle : job.state = .queued ∨ job.state = .retryWait) : job.attemptCount < maxAttempts := by
  by_cases hfirst : job.attemptCount = 0
  · rw [hfirst]
    decide
  · obtain ⟨id, a, ha, hof, hnumber⟩ := h.numbering.complete jobID job hjob job.attemptCount (by omega) (Nat.le_refl _)
    have hclosed : a.state ≠ .leased := by
      intro hleased
      have hstate := (((hinv.occupancy.fitsJob id a ha).of_row (hof ▸ hjob)).leased hleased).1
      rcases hidle with hs | hs
      · cases hs.symm.trans hstate
      · cases hs.symm.trans hstate
    rw [← hnumber]
    cases (h.outcomes.ended id a ha hclosed).of_row (hof ▸ hjob) hnumber with
    | declined _ _ hfailed => rcases hidle with hs | hs <;> cases hs.symm.trans hfailed
    | ended _ hverdict => exact hverdict.waiting hidle
    | withdrawn _ _ hcancelled => rcases hidle with hs | hs <;> cases hs.symm.trans hcancelled

theorem leaseJob_accepted (hjob : db.jobs.get? jobID = some job) (hidle : job.state = .queued ∨ job.state = .retryWait)
    (hcount : job.attemptCount < maxAttempts) (hupdated : job.updatedAt ≤ now) :
    leaseJob db now jobID job.state = .ok (putJob db jobID { job with
      state := .leased, attemptCount := job.attemptCount + 1, updatedAt := now }, 1) := by
  refine mapError_eq_ok.2 ((updateJob_iff hjob (by simp)).2 ⟨validateAgentJobUpdate_eq_ok.2 ?_, rfl, rfl⟩)
  refine ⟨rfl, ?_, ?_, fun hboth => ?_, fun _ => rfl, fun hnot => absurd ⟨rfl, ?_⟩ hnot, by simp, fun _ => rfl,
    fun _ => rfl, hupdated, hcount⟩
  · rcases hidle with hs | hs <;> simp [hs, JobState.terminal]
  · rcases hidle with hs | hs <;> simp [hs, jobTransitionAllowed]
  · rcases hidle with hs | hs <;> cases hs.symm.trans hboth.1
  · rcases hidle with hs | hs <;> simp [hs]

-- The numbers of a job's attempts stay below the next one, and none of them is leased while the job waits.
theorem insertAttempt_accepted {a : Attempt} {slot' : Slot} {job' : Job} (hslot : db.slots.get? a.environmentID = some slot')
    (hfence : a.fence = slot'.fence) (hjob : db.jobs.get? a.jobID = some job')
    (hof : job'.serverID = a.serverID ∧ job'.environmentID = a.environmentID)
    (hnumber : a.attemptNumber = job'.attemptCount) (hchecked : checkAttempt a = .ok ())
    (hothers : ∀ id b, db.attempts.get? id = some b → b.jobID = a.jobID → b.attemptNumber < a.attemptNumber ∧ b.state ≠ .leased)
    (hserver : db.servers.contains a.serverID = true) :
    insertAttempt db a = .ok (putAttempt db db.attempts.nextKey a, db.attempts.nextKey) := by
  have hdistinct : db.attempts.any (fun _ b => b.jobID == a.jobID && b.attemptNumber == a.attemptNumber) = false := by
    refine Table.any_eq_false_of fun id b hrow => ?_
    by_cases hsame : b.jobID = a.jobID
    · have hlt := (hothers id b hrow hsame).1
      simp [Nat.ne_of_lt hlt]
    · simp [hsame]
  have hnobody : db.attempts.any (fun _ b => b.jobID == a.jobID && b.state == .leased) = false := by
    refine Table.any_eq_false_of fun id b hrow => ?_
    by_cases hsame : b.jobID = a.jobID
    · simp [(hothers id b hrow hsame).2]
    · simp [hsame]
  simp only [insertAttempt, validateAgentJobAttemptInsert, hslot, hjob, found_some, ok_bind, require_pos hfence,
    require_pos hof, require_pos hnumber, hchecked, require_pos hdistinct, require_pos hnobody, require_pos hserver]
  rfl

theorem freeze_accepted {config : ExecutionSnapshot} {plan : FreezePlan} {db₁ : DB} (h : Frozen (view db))
    (hplan : planFreeze db config jobID job = .ok (some plan)) (hsame : db₁.executions = db.executions) :
    Succeeds (freeze db₁ attemptID plan) := by
  cases plan with
  | fresh execution bindings literals => exact .pure _
  | copy previous =>
      unfold planFreeze at hplan
      split at hplan
      · simp at hplan
      · split at hplan
        · rename_i id a hfind
          simp only [pure_eq_ok, Option.some.injEq, FreezePlan.copy.injEq] at hplan
          subst hplan
          obtain ⟨execution, hexecution⟩ := Option.ne_none_iff_exists'.1 (h.executed id a (Table.find?_some hfind).1)
          have hrow : db₁.executions.get? id = some execution := hsame ▸ hexecution
          exact .bind (found_eq_ok.2 hrow) (.pure _)
        · cases hplan

theorem ensureRelease_accepted {deploymentID commitSHA : String} {strategy : ReleaseStrategy} {digest : Digest}
    (hkeyed : ∀ key release, db.releases.get? key = some release → release.deploymentID = key)
    (hdeployment : db.deployments.contains deploymentID = true)
    (hdigest : ∀ key release, db.releases.get? key = some release → release.deploymentID = deploymentID →
      release.configDigest = digest) :
    Succeeds (ensureRelease now db deploymentID environmentID commitSHA strategy digest) := by
  unfold ensureRelease
  split
  · rename_i hnone
    have hnot (key : String) (release : Release) (hrow : db.releases.get? key = some release) :
        release.deploymentID ≠ deploymentID := by
      simpa using Table.find?_none hnone hrow
    have hfree : db.releases.contains deploymentID = false := by
      cases hrow : db.releases.get? deploymentID with
      | none => simp [Table.contains, hrow]
      | some release => exact absurd (hkeyed _ release hrow) (hnot _ release hrow)
    have hother : db.releases.any (fun _ x => x.deploymentID == deploymentID) = false :=
      Table.any_eq_false_of fun key release hrow => by simp [hnot key release hrow]
    simp only [insertRelease, require_pos hfree, require_pos hother, require_pos hdeployment, ok_bind]
    exact ⟨_, rfl⟩
  · rename_i key release hfind
    obtain ⟨hrow, hof⟩ := Table.find?_some hfind
    exact .bind (require_pos (hdigest key release hrow (by simpa using hof))) (.pure _)

theorem leaseCandidate_accepted {config : ExecutionSnapshot} {plan : FreezePlan} (hinv : Inv (view db))
    (hready : Ready (view db)) (hpositive : 0 < now) (hc : Claimable db now serverID jobID environmentID slot job)
    (hplan : planFreeze db config jobID job = .ok (some plan)) (hserver : db.servers.contains serverID = true)
    (hs : db.deployments.get? job.deploymentID = some s) (hdated : Dated now slot job s) :
    Succeeds (leaseCandidate now db serverID jobID job slot plan) := by
  obtain ⟨hslot, hjob, hfree, hunflagged, rfl, rfl, hidle, -, -⟩ := hc
  have hcount := hready.lifecycles.waiting_below hinv hjob hidle
  unfold leaseCandidate
  refine .bind (during_eq_ok.2 ((updateSlot_iff hslot (by rfl)).2 ⟨?_, rfl, rfl⟩)) ?_
  · exact accepted_slot (Nat.le_succ _) hdated.slotDated (by simp [hfree]) (by simp [hunflagged])
  refine .bind (leaseJob_accepted (by exact hjob) hidle hcount hdated.jobDated) ?_
  simp only [Nat.one_ne_zero, if_false]
  refine .bind (during_eq_ok.2 (insertAttempt_accepted (Table.get?_put_self _ _ _) rfl (Table.get?_put_self _ _ _)
    ⟨rfl, rfl⟩ rfl ?_ ?_ hserver)) ?_
  · refine checkAttempt_eq_ok.2 ⟨⟨Nat.le_add_left _ _, hcount⟩, Nat.succ_pos _, Nat.le_refl _, by simp, rfl, by simp⟩
  · intro id b hrow hof
    have hfits := (hinv.occupancy.fitsJob id b hrow).of_row (show (view db).jobs b.jobID = some job from hof ▸ hjob)
    refine ⟨Nat.lt_succ_of_le hfits.number, fun hleased => ?_⟩
    rcases hidle with hstate | hstate
    · cases hstate.symm.trans (hfits.leased hleased).1
    · cases hstate.symm.trans (hfits.leased hleased).1
  refine .bind (during_eq_ok.2 ((updateSlot_iff (by exact Table.get?_put_self _ _ _) (by rfl)).2 ⟨?_, rfl, rfl⟩)) ?_
  · exact accepted_slot (Nat.le_refl _) (Nat.le_refl _) (by simp [putAttempt, Table.contains]) (by simp [hunflagged])
  -- the first attempt assigns the deployment of a queued job
  refine .bind_all ?_ fun db₅ h₅ => ?_
  · split
    · rename_i hfirst
      have hqueued : job.state = .queued := by
        rcases hready.lifecycles.outcomes.untried jobID job hjob (by omega) with hstate | hstate
        · exact hstate
        · rcases hidle with hs | hs <;> cases hs.symm.trans hstate
      have hstatus := (((hinv.pipeline.fitsDeployment jobID job hjob).of_row hs).queued hqueued).1
      exact transitionDeployment_succeeds (by exact hs) (hinv.pipeline.stored _ s hs) (.inr (by rw [hstatus]; rfl))
        hpositive (hdated.deployment (by omega))
    · exact .pure _
  obtain ⟨deployments, rfl, hcontains⟩ : ∃ deployments, db₅ = setDeployments _ deployments ∧
      deployments.contains job.deploymentID = true := by
    split at h₅
    · obtain ⟨deployments, _, _, rfl, -, -, hget⟩ := transitionDeployment_moves h₅ hinv.pipeline.stored
      exact ⟨deployments, rfl, by simp [Table.contains, hget]⟩
    · exact ⟨_, (Except.ok.inj h₅).symm, by simp [Table.contains, putSlot, putAttempt, putJob, hs]⟩
  refine .bind_all (freeze_accepted hready.frozen hplan rfl) fun frozen h₆ => ?_
  obtain ⟨db₆, execution, bindings, literals⟩ := frozen
  have hfollows := planFreeze_follows hplan h₆ rfl
  obtain rfl := freeze_eq_ok h₆
  refine .bind_all (ensureRelease_accepted (fun key release hrow => hinv.routes.keyed key release hrow)
    (by exact hcontains) fun key release hrow hof => ?_) fun _ _ => .pure _
  exact hready.frozen.digest_of_follows hinv hjob hrow hof hfollows

theorem planFreeze_accepted (config : ExecutionSnapshot) (h : Lifecycles (view db)) (hjob : db.jobs.get? jobID = some job) :
    Succeeds (planFreeze db config jobID job) := by
  by_cases hfirst : job.attemptCount = 0
  · simp only [planFreeze, hfirst, if_true]
    exact .pure _
  · obtain ⟨id, a, ha, hof, hnumber⟩ := h.numbering.complete jobID job hjob job.attemptCount (by omega) (Nat.le_refl _)
    cases hfind : db.attempts.find? fun _ a => a.jobID == jobID && a.attemptNumber == job.attemptCount with
    | none =>
        have hmissing := Table.find?_none hfind ha
        simp [hof, hnumber] at hmissing
    | some row =>
        simp only [planFreeze, hfirst, if_false, hfind]
        exact .pure _

-- If the locked candidate can be claimed, the rows that a claim of it writes are not ahead of the reading.
def Timely (now : Nat) (db : DB) (serverID : String) (jobID : Nat) (environmentID : String) : Prop :=
  ∀ config slot job, claimable db now serverID jobID environmentID = some (config, slot, job) →
    planFreeze db config jobID job ≠ .ok none → ∀ s, db.deployments.get? job.deploymentID = some s → Dated now slot job s

theorem tryClaim_accepted (hinv : Inv (view db)) (hready : Ready (view db)) (hpositive : 0 < now)
    (hserver : db.servers.contains serverID = true) (htimely : Timely now db serverID jobID environmentID) :
    Succeeds (tryClaim now db serverID jobID environmentID) := by
  unfold tryClaim
  split
  · exact .pure _
  · rename_i config slot job hclaimable
    have hc := claimable_eq_some hclaimable
    obtain ⟨s, hs, -⟩ := hinv.pipeline.fitsDeployment jobID job hc.jobRow
    refine .bind_all (planFreeze_accepted config hready.lifecycles hc.jobRow) fun plan hplan => ?_
    cases plan with
    | none => exact .pure _
    | some plan =>
        exact leaseCandidate_accepted hinv hready hpositive hc hplan hserver hs
          (htimely config slot job hclaimable (by simp [hplan]) s hs)

-- A reading no stamp is ahead of is timely.
theorem Timed.timely (h : Timed now db) (serverID : String) (jobID : Nat) (environmentID : String) :
    Timely now db serverID jobID environmentID := by
  intro config slot job hclaimable _ s hs
  have hc := claimable_eq_some hclaimable
  exact ⟨h.clocked.slots _ slot hc.slotRow, h.clocked.jobs _ job hc.jobRow, fun _ => h.clocked.deployments _ s hs⟩

-- A claim that goes through finds no later stamp.
theorem leaseCandidate_dated {plan : FreezePlan} {lease : Option ClaimedLease}
    (hinv : Inv (view db)) (hready : Ready (view db)) (hc : Claimable db now serverID jobID environmentID slot job)
    (h : leaseCandidate now db serverID jobID job slot plan = .ok (db', lease))
    (hs : db.deployments.get? job.deploymentID = some s) : Dated now slot job s := by
  obtain ⟨hslot, hjob, -, -, rfl, rfl, hidle, -, -⟩ := hc
  simp only [leaseCandidate, bind_eq_ok, during_eq_ok, Prod.exists] at h
  obtain ⟨db₁, _, hfence, db₂, n, hlease, h⟩ := h
  obtain ⟨hadvance, rfl, -⟩ := (updateSlot_iff hslot rfl).1 hfence
  simp only [validateEnvironmentSlotUpdate, bind_eq_ok, require_eq_ok, exists_const] at hadvance
  have hjobDated : job.updatedAt ≤ now := by
    simp only [leaseJob, mapError_eq_ok] at hlease
    obtain ⟨hvalid, -, -⟩ := (updateJob_iff (by exact hjob) (by simp)).1 hlease
    exact (validateAgentJobUpdate_eq_ok.1 hvalid).2.2.2.2.2.2.2.2.2.1
  refine ⟨hadvance.2.1, hjobDated, fun hfirst => ?_⟩
  obtain ⟨rfl, rfl, -⟩ := leaseJob_eq_ok hlease hjob rfl
  simp only [Nat.one_ne_zero, if_false, bind_eq_ok, during_eq_ok, Prod.exists] at h
  obtain ⟨db₃, attemptID, hinsert, db₄, _, hoccupy, db₅, hassign, -⟩ := h
  obtain ⟨rfl, rfl⟩ := insertAttempt_eq_ok hinsert
  obtain ⟨-, rfl, -⟩ := (updateSlot_iff (by exact Table.get?_put_self _ _ _) rfl).1 hoccupy
  split at hassign
  · obtain ⟨_, s', _, -, hs', hmoves, -⟩ := transitionDeployment_moves hassign hinv.pipeline.stored
    have hs' : db.deployments.get? job.deploymentID = some s' := hs'
    obtain rfl : s = s' := Option.some.inj (hs.symm.trans hs')
    cases hmoves with
    | step _ _ hlate => exact hlate
    | same hassigned =>
        -- the deployment of a queued job is not assigned yet
        have hqueued : job.state = .queued := by
          rcases hready.lifecycles.outcomes.untried jobID job hjob hfirst with hstate | hstate
          · exact hstate
          · rcases hidle with hs | hs <;> cases hs.symm.trans hstate
        have hstatus := (((hinv.pipeline.fitsDeployment jobID job hjob).of_row hs).queued hqueued).1
        cases hstatus.symm.trans hassigned
  · rename_i hlater
    exact absurd (by omega) hlater

theorem tryClaim_iff (hinv : Inv (view db)) (hready : Ready (view db)) (hpositive : 0 < now)
    (hserver : db.servers.contains serverID = true) :
    Succeeds (tryClaim now db serverID jobID environmentID) ↔ Timely now db serverID jobID environmentID := by
  refine ⟨?_, tryClaim_accepted hinv hready hpositive hserver⟩
  rintro ⟨⟨db', lease⟩, h⟩ config slot job hclaimable hplanned s hs
  have hc := claimable_eq_some hclaimable
  simp only [tryClaim, hclaimable, bind_eq_ok] at h
  obtain ⟨plan, hplan, h⟩ := h
  cases plan with
  | none => exact absurd hplan hplanned
  | some plan => exact leaseCandidate_dated hinv hready hc h hs

end

-- A claim among other transactions. It reads its clock once, after it has locked the row of its server, and then locks
-- the slots of its candidates one by one. What commits in between may have read its clock at any time and leaves the
-- server's row alone; a locked slot is skipped.
structure ClaimState where
  db : DB
  claimed : List ClaimedLease

def claimCandidate (now : Nat) (serverID : String) (limit : Nat) (state : ClaimState) (c : Nat × String) :
    Except Error ClaimState :=
  if limit ≤ state.claimed.length then pure state
  else do
    let (db, lease) ← tryClaim now state.db serverID c.1 c.2
    pure ⟨db, state.claimed ++ lease.toList⟩

def claimAmong (now : Nat) (serverID : String) (limit : Nat) : Loop ClaimState (Nat × String) Error where
  other state state' := state'.claimed = state.claimed ∧
    state'.db.servers.get? serverID = state.db.servers.get? serverID ∧ ∃ t txn, state'.db = exec t state.db txn
  skips _ _ := True
  step := claimCandidate now serverID limit

section

variable {db db' : DB} {now clock limit : Nat} {serverID owner : String} {presented : Digest}

-- The claim that nothing comes between is one of these.
theorem claimLoop_among {candidates : List (Nat × String)} {claimed leases : List ClaimedLease}
    (h : claimLoop now serverID limit candidates db claimed = .ok (db', leases)) :
    (claimAmong now serverID limit).Run (fun _ _ => True) ⟨⟨db, claimed⟩, candidates, none⟩ ⟨⟨db', leases⟩, [], none⟩ := by
  refine Loop.run_foldlM (fun _ _ => trivial) ?_
  induction candidates generalizing db claimed with
  | nil =>
      simp only [claimLoop, pure_eq_ok, Prod.mk.injEq] at h
      obtain ⟨rfl, rfl⟩ := h
      rfl
  | cons c rest ih =>
      simp only [claimLoop] at h
      split at h
      · rename_i hfull
        simp only [pure_eq_ok, Prod.mk.injEq] at h
        obtain ⟨rfl, rfl⟩ := h
        refine bind_eq_ok.2 ⟨⟨db, claimed⟩, if_pos hfull, ih ?_⟩
        cases rest with
        | nil => rfl
        | cons c' rest' => exact if_pos hfull
      · rename_i hmore
        simp only [bind_eq_ok, Prod.exists] at h
        obtain ⟨db₁, lease, htry, hrest⟩ := h
        refine bind_eq_ok.2 ⟨⟨db₁, claimed ++ lease.toList⟩, ?_, ih hrest⟩
        simp only [claimAmong, claimCandidate, hmore, if_false, bind_eq_ok, Prod.exists]
        exact ⟨db₁, lease, htry, rfl⟩

-- What a claim finds whenever it locks a slot.
structure Claims (serverID : String) (state : ClaimState) : Prop where
  sound : Sound state.db
  ready : Ready (view state.db)
  server : state.db.servers.contains serverID = true

theorem Claims.other {state state' : ClaimState} (h : Claims serverID state)
    (hother : (claimAmong now serverID limit).other state state') : Claims serverID state' := by
  obtain ⟨-, hserver, t, txn, hexec⟩ := hother
  refine ⟨hexec ▸ h.sound.exec t txn, ?_, ?_⟩
  · rw [hexec]
    exact h.sound.exec_preserves h.ready fun _ _ _ _ hinv h he => h.effect hinv he
  · have hcontains := h.server
    simp only [Table.contains, hserver] at hcontains ⊢
    exact hcontains

theorem Claims.step {state state' : ClaimState} {c : Nat × String} (h : Claims serverID state)
    (hstep : claimCandidate now serverID limit state c = .ok state') : Claims serverID state' := by
  unfold claimCandidate at hstep
  split at hstep
  · simp only [pure_eq_ok] at hstep
    exact hstep ▸ h
  · simp only [bind_eq_ok, Prod.exists, pure_eq_ok] at hstep
    obtain ⟨db₁, lease, htry, rfl⟩ := hstep
    obtain ⟨heffects, -, -⟩ := tryClaim_effects h.sound.inv htry
    refine ⟨⟨h.sound.inv.effects heffects, ?_⟩, h.ready.effects h.sound.inv heffects, ?_⟩
    · exact (heffects.preserves (P := Reconciliations) h.sound.inv h.sound.reconciliations
        fun _ _ _ _ hinv hrecon he => hrecon.effect hinv he).2
    · have hkept := tryClaim_access rfl _ htry
      simp only [access, Prod.mk.injEq] at hkept
      simp only [hkept.2.1]
      exact h.server

theorem claims_of_timed (h : timedSystem.Reachable (clock, db))
    (hlock : lockActiveServerCredential db serverID presented = .ok owner) (claimed : List ClaimedLease) :
    Claims serverID ⟨db, claimed⟩ := by
  refine ⟨(timed_of_reachable h).sound, ready_of_reachable (timedSystem_reachable h), ?_⟩
  cases hrow : db.servers.get? serverID with
  | none => simp [lockActiveServerCredential, matchServerCredential, hrow] at hlock
  | some server => simp [Table.contains, hrow]

-- Whatever commits between a claim's clock reading and its slot locks, a candidate is refused by a trigger exactly
-- when it could be claimed and one of the rows the claim writes carries a later stamp. A claim all of whose locked
-- candidates are timely does not fail.
theorem claim_survives_others (h : timedSystem.Reachable (clock, db)) (hle : clock ≤ now)
    (hlock : lockActiveServerCredential db serverID presented = .ok owner) (limit : Nat)
    (candidates : List (Nat × String)) :
    (∀ p, (claimAmong now serverID limit).Run (fun state c => Timely now state.db serverID c.1 c.2)
        ⟨⟨db, []⟩, candidates, none⟩ p → p.failed = none) ∧
      ∀ p c rest, (claimAmong now serverID limit).Run (fun _ _ => True) ⟨⟨db, []⟩, candidates, none⟩ p →
        p.pending = c :: rest → p.state.claimed.length < limit →
        (Succeeds (tryClaim now p.state.db serverID c.1 c.2) ↔ Timely now p.state.db serverID c.1 c.2) := by
  have hpositive : 0 < now := Nat.lt_of_lt_of_le (timed_of_reachable h).positive hle
  have hstart := claims_of_timed h hlock []
  have hother (state state' : ClaimState) (_ : List (Nat × String)) (h : Claims serverID state)
      (hcommit : (claimAmong now serverID limit).other state state') : Claims serverID state' := h.other hcommit
  have hstep (state : ClaimState) (c : Nat × String) (_ : List (Nat × String)) (state' : ClaimState)
      (h : Claims serverID state) (hok : claimCandidate now serverID limit state c = .ok state') :
      Claims serverID state' := h.step hok
  refine ⟨fun p hrun => ?_, fun p c rest hrun _ _ => ?_⟩
  · refine hrun.never_fails (P := fun state _ => Claims serverID state) hother (fun _ _ _ h _ => h)
      (fun state c rest state' h _ hok => hstep state c rest state' h hok) (fun state c _ h htimely => ?_) hstart rfl
    show Succeeds (claimCandidate now serverID limit state c)
    by_cases hfull : limit ≤ state.claimed.length
    · exact ⟨state, if_pos hfull⟩
    · simp only [claimCandidate, hfull, if_false]
      exact .bind_all (tryClaim_accepted h.sound.inv h.ready hpositive h.server htimely) fun _ _ => .pure _
  · have hnow : Claims serverID p.state :=
      hrun.invariant (P := fun state _ => Claims serverID state) hother (fun _ _ _ h _ => h)
        (fun state c rest state' h _ hok => hstep state c rest state' h hok) hstart
    exact tryClaim_iff hnow.sound.inv hnow.ready hpositive hnow.server

-- The lease of the sample expired. Its environment is cleared by the owner after a claim has read its clock.
def sampleExpired : DB := execAll sampleLeased [(100 * second, .expireOne 7 1)]

def sampleCleared : DB := exec (200 * second + 5) sampleExpired (.markReconciled samplePrincipal "env" "checked")

theorem sampleExpired_timed : timedSystem.Reachable (100 * second, sampleExpired) := by
  refine @timed_execAll 1000 sampleLeased [(100 * second, _)] sampleLeased_timed (by simp [second]) fun step hstep => ?_
  rw [List.mem_singleton.1 hstep]
  trivial

theorem sampleCleared_timed : timedSystem.Reachable (200 * second + 5, sampleCleared) :=
  sampleExpired_timed.step ⟨.markReconciled samplePrincipal "env" "checked", by norm_num [second], trivial, rfl⟩

theorem claim_survives_others_cleared :
    ∃ p, (claimAmong (300 * second) "srv" 1).Run (fun state c => Timely (300 * second) state.db "srv" c.1 c.2)
        ⟨⟨sampleCleared, []⟩, [(1, "env")], none⟩ p ∧ p.state.claimed.length = 1 ∧ p.failed = none := by
  have hstored : lockActiveServerCredential sampleCleared "srv" sampleToken = .ok "own" ∧
      ((claimCandidate (300 * second) "srv" 1 ⟨sampleCleared, []⟩ (1, "env")).toOption.any fun state =>
        state.claimed.length == 1) = true := by
    decide +kernel
  obtain ⟨state, hstep, hclaimed⟩ := ok_of_any hstored.2
  have hlater : 200 * second + 5 ≤ 300 * second := by norm_num [second]
  have htimed := (timed_of_reachable sampleCleared_timed).mono hlater
  have hrun : (claimAmong (300 * second) "srv" 1).Run (fun state c => Timely (300 * second) state.db "srv" c.1 c.2)
      ⟨⟨sampleCleared, []⟩, [(1, "env")], none⟩ ⟨state, [], none⟩ := .single (.step (htimed.timely _ _ _) hstep)
  exact ⟨_, hrun, by simpa using hclaimed,
    (claim_survives_others sampleCleared_timed hlater hstored.1 1 [(1, "env")]).1 _ hrun⟩

theorem claim_refused_after_clearing :
    timedSystem.Reachable (100 * second, sampleExpired) ∧
    lockActiveServerCredential sampleExpired "srv" sampleToken = .ok "own" ∧
    (discoverRunnable sampleExpired (200 * second) "srv" claimDiscoveryPerJob).map
      (fun row => (row.1, row.2.environmentID)) = [(1, "env")] ∧
    (claimAmong (200 * second) "srv" 1).Run (fun _ _ => True) ⟨⟨sampleExpired, []⟩, [(1, "env")], none⟩
      ⟨⟨sampleCleared, []⟩, [(1, "env")], some (.wrap "advance environment slot fence"
        (.db (.raised "environment slot updated_at must be monotonic")))⟩ := by
  have hstored : lockActiveServerCredential sampleExpired "srv" sampleToken = .ok "own" ∧
      (discoverRunnable sampleExpired (200 * second) "srv" claimDiscoveryPerJob).map
        (fun row => (row.1, row.2.environmentID)) = [(1, "env")] ∧
      failsWith (tryClaim (200 * second) sampleCleared "srv" 1 "env") (.wrap "advance environment slot fence"
        (.db (.raised "environment slot updated_at must be monotonic"))) = true := by
    decide +kernel
  obtain ⟨hlock, hdiscover, hfails⟩ := hstored
  have hserver : sampleCleared.servers.get? "srv" = sampleExpired.servers.get? "srv" := by
    have hkept : access sampleCleared = access sampleExpired := exec_access id
    simp only [access, Prod.mk.injEq] at hkept
    rw [hkept.2.1]
  have hcommit : (claimAmong (200 * second) "srv" 1).Next (fun _ _ => True) ⟨⟨sampleExpired, []⟩, [(1, "env")], none⟩
      ⟨⟨sampleCleared, []⟩, [(1, "env")], none⟩ :=
    .other ⟨rfl, hserver, 200 * second + 5, .markReconciled samplePrincipal "env" "checked", rfl⟩
  refine ⟨sampleExpired_timed, hlock, hdiscover, .head hcommit (.single (.fail trivial ?_))⟩
  show claimCandidate (200 * second) "srv" 1 ⟨sampleCleared, []⟩ (1, "env") = _
  have herror := error_of_failsWith hfails
  simp only [claimCandidate, List.length_nil, herror]
  rfl

end

end AutoDeploy.Protocol
