import AutoDeploy.Protocol.Lifecycles
import AutoDeploy.Protocol.Theorems.Cancellation

namespace AutoDeploy.Protocol

open Lib Lib.Result Queue Store Deployment

-- The attempt ended because its authority did, not because its activation was declared not to have happened.
def EndedByExpiry (db : DB) (attemptID : Nat) (a : Attempt) : Prop :=
  a.state = .expired ∧ ¬ Declined db.operations.get? attemptID

-- The attempt's activation succeeded.
def Activated (db : DB) (attemptID : Nat) : Prop :=
  ∃ operationID op, db.operations.get? operationID = some op ∧ op.attemptID = attemptID ∧ op.state = .succeeded

-- How a job agrees with its attempts and its deployment.
structure Agrees (db : DB) (jobID : Nat) (job : Job) (s : Snapshot) : Prop where
  numbers : ((db.attempts.select fun _ a => a.jobID == jobID).map fun row => row.2.attemptNumber).Perm
    (List.range' 1 job.attemptCount)
  bound : job.attemptCount ≤ 5
  dead : job.state = .dead ↔ ∃ attemptID a, db.attempts.get? attemptID = some a ∧ a.jobID = jobID ∧
    a.attemptNumber = 5 ∧ (EndedByExpiry db attemptID a ∧ job.cancelRequestedAt = none ∨
      a.state = .failed ∧ a.failureClass = some .transient)
  failed : job.state = .failed ∨ job.state = .dead → s.status = .failed
  cancelled : job.state = .cancelled → s.status = .cancelled
  healthy : ∀ attemptID a, db.attempts.get? attemptID = some a → a.jobID = jobID →
    a.attemptNumber = job.attemptCount → Activated db attemptID → s.status = .healthy
  terminal : s.status = .failed ∨ s.status = .cancelled → job.state.terminal = true

section

variable {db db' : DB} {jobID attemptID : Nat} {job : Job} {a : Attempt} {s : Snapshot}

theorem Initial.lifecycles (h : Initial db) : Lifecycles (view db) where
  numbering :=
    { distinct := fun id _ hrow => by cases (h.attempts id).symm.trans hrow
      complete := fun id job hrow n hpos hle => by
        rw [(h.jobs id job hrow).2.1] at hle
        omega }
  outcomes :=
    { ended := fun id _ hrow => by cases (h.attempts id).symm.trans hrow
      declined := fun id hdeclined => by
        obtain ⟨o, op, hop, -⟩ := hdeclined
        cases (h.operations o).symm.trans hop
      untried := fun id job hrow _ => .inl (h.jobs id job hrow).1 }
  settlements :=
    { settled := fun id job hrow => by
        obtain ⟨hqueued, -, -, hdeployment⟩ := h.jobs id job hrow
        exact hdeployment.imp fun s _ => settled_of_open (by rw [hqueued]; rfl)
      healthy := fun id _ hrow => by cases (h.operations id).symm.trans hrow }

theorem lifecycles_of_reachable (h : leaseSystem.Reachable db) : Lifecycles (view db) := by
  obtain ⟨db₀, hinit, hrun⟩ := h
  have hinit : Initial db₀ := hinit
  exact Sound.run_preserves (P := Lifecycles) ⟨hinit.inv, hinit.reconciliations⟩ hrun hinit.lifecycles
    fun _ _ _ _ _ hinv h he => h.effect hinv he

theorem Lifecycles.numbers (h : Lifecycles (view db)) (ho : Occupancy (view db)) (hjob : db.jobs.get? jobID = some job) :
    ((db.attempts.select fun _ a => a.jobID == jobID).map fun row => row.2.attemptNumber).Perm
      (List.range' 1 job.attemptCount) := by
  have hmem (row : Nat × Attempt) : row ∈ db.attempts.select (fun _ a => a.jobID == jobID) ↔
      db.attempts.get? row.1 = some row.2 ∧ row.2.jobID = jobID := by
    simpa using Table.mem_select db.attempts (fun _ a => a.jobID == jobID) row.1 row.2
  have hnodup : ((db.attempts.select fun _ a => a.jobID == jobID).map fun row => row.2.attemptNumber).Nodup := by
    refine (Table.nodup_select db.attempts _).map_on fun x hx y hy heq => ?_
    obtain ⟨hxrow, hxof⟩ := (hmem x).1 hx
    obtain ⟨hyrow, hyof⟩ := (hmem y).1 hy
    have hid := h.numbering.distinct x.1 x.2 hxrow y.1 y.2 hyrow (hxof.trans hyof.symm) heq
    have hvalue := hxrow.symm.trans (hid ▸ hyrow)
    exact Prod.ext hid (Option.some.inj hvalue)
  refine (List.perm_ext_iff_of_nodup hnodup List.nodup_range').2 fun n => ?_
  simp only [List.mem_map, List.mem_range'_1]
  constructor
  · rintro ⟨row, hrow, rfl⟩
    obtain ⟨hget, hof⟩ := (hmem row).1 hrow
    have hle := ho.numbers_below hjob row.1 row.2 hget hof
    have hpos := (checkAttempt_eq_ok.1 (ho.checked row.1 row.2 hget)).1.1
    omega
  · rintro ⟨hpos, hlt⟩
    obtain ⟨id, a, ha, hof, hn⟩ := h.numbering.complete jobID job hjob n hpos (by omega)
    exact ⟨(id, a), (hmem (id, a)).2 ⟨ha, hof⟩, hn⟩

-- Only the fifth attempt can leave its job dead, and it does so unless it was cancelled or declared.
theorem Outcome.dead_iff {declined : Prop} (h : Outcome declined a job) (hnumber : a.attemptNumber = job.attemptCount)
    (hcount : job.attemptCount ≤ maxAttempts) :
    job.state = .dead ↔ a.attemptNumber = maxAttempts ∧
      ((a.state = .expired ∧ ¬ declined) ∧ job.cancelRequestedAt = none ∨
        a.state = .failed ∧ a.failureClass = some .transient) := by
  cases h with
  | declined hdeclined hattempt hjob => simp [hjob, hattempt, hdeclined]
  | withdrawn hnot hverdict hjob =>
      simp only [hjob, reduceCtorEq, false_iff]
      generalize hstate : a.state = attemptState at hverdict
      generalize hclass : a.failureClass = c at hverdict
      cases hverdict with
      | retried hlt => simp [Nat.ne_of_lt hlt]
      | expired _ hlt => simp [Nat.ne_of_lt hlt]
  | ended hnot hverdict =>
      generalize hstate : a.state = attemptState at hverdict
      generalize hclass : a.failureClass = c at hverdict
      generalize hjob : job.state = jobState at hverdict
      cases hverdict with
      | succeeded => simp
      | failed hne => simp [hne]
      | retried hlt => simp [Nat.ne_of_lt hlt]
      | exhausted hle => simp [show a.attemptNumber = maxAttempts by omega]
      | cancelled _ => simp
      | expired _ hlt => simp [Nat.ne_of_lt hlt]
      | died hmark hle => simp [show a.attemptNumber = maxAttempts by omega, hnot, hmark]

theorem Lifecycles.dead_iff (h : Lifecycles (view db)) (ho : Occupancy (view db))
    (hjob : db.jobs.get? jobID = some job) :
    job.state = .dead ↔ ∃ attemptID a, db.attempts.get? attemptID = some a ∧ a.jobID = jobID ∧
      a.attemptNumber = 5 ∧ (EndedByExpiry db attemptID a ∧ job.cancelRequestedAt = none ∨
        a.state = .failed ∧ a.failureClass = some .transient) := by
  have hcount : job.attemptCount ≤ maxAttempts := ho.count jobID job hjob
  constructor
  · intro hdead
    have htried : job.attemptCount ≠ 0 := by
      intro hzero
      have := h.outcomes.untried jobID job hjob hzero
      simp [hdead] at this
    obtain ⟨attemptID, a, ha, hof, hnumber⟩ := h.numbering.complete jobID job hjob job.attemptCount (by omega)
      (Nat.le_refl _)
    have hclosed : a.state ≠ .leased := by
      intro hleased
      have := (((ho.fitsJob attemptID a ha).of_row (hof ▸ hjob)).leased hleased).1
      simp [hdead] at this
    have hended := (h.outcomes.ended attemptID a ha hclosed).of_row (hof ▸ hjob) hnumber
    obtain ⟨hfive, hcause⟩ := (hended.dead_iff hnumber hcount).1 hdead
    exact ⟨attemptID, a, ha, hof, hfive, hcause⟩
  · rintro ⟨attemptID, a, ha, hof, hfive, hcause⟩
    have hnumber : a.attemptNumber = job.attemptCount := by
      have := ho.numbers_below hjob attemptID a ha hof
      unfold maxAttempts at hcount
      omega
    have hclosed : a.state ≠ .leased := by
      rcases hcause with ⟨⟨hstate, -⟩, -⟩ | ⟨hstate, -⟩ <;> simp [hstate]
    have hended := (h.outcomes.ended attemptID a ha hclosed).of_row (hof ▸ hjob) hnumber
    exact (hended.dead_iff hnumber hcount).2 ⟨hfive, hcause⟩

theorem agrees_of_lifecycles (h : Lifecycles (view db)) (hinv : Inv (view db))
    (hjob : db.jobs.get? jobID = some job) :
    ∃ s, db.deployments.get? job.deploymentID = some s ∧ Agrees db jobID job s := by
  obtain ⟨s, hs, hsettled⟩ := h.settlements.settled jobID job hjob
  have hfits := hinv.pipeline.fits hjob hs
  refine ⟨s, hs, h.numbers hinv.occupancy hjob, hinv.occupancy.count jobID job hjob, h.dead_iff hinv.occupancy hjob,
    hsettled.failed, hsettled.cancelled, fun attemptID a ha hof _ hactivated => ?_, fun hstatus => ?_⟩
  · obtain ⟨operationID, op, hop, rfl, hsucceeded⟩ := hactivated
    have hofAttempt := (hinv.activations.ofAttempt operationID op hop).of_row ha
    have hofJob := (hinv.activations.ofJob operationID op hop).of_row (by rw [hofAttempt.job, hof]; exact hjob)
    exact (h.settlements.healthy operationID op hop hsucceeded).of_row (hofJob.release ▸ hs)
  · by_contra hopen
    cases hstate : job.state with
    | queued => simp [(hfits.queued hstate).1] at hstatus
    | leased =>
        have hrunning := hfits.running (.inl hstate)
        rcases hstatus with hs | hs <;> simp [hs, running] at hrunning
    | retryWait =>
        have hrunning := hfits.running (.inr hstate)
        rcases hstatus with hs | hs <;> simp [hs, running] at hrunning
    | succeeded => simp [hstate, JobState.terminal] at hopen
    | failed => simp [hstate, JobState.terminal] at hopen
    | cancelled => simp [hstate, JobState.terminal] at hopen
    | dead => simp [hstate, JobState.terminal] at hopen

-- What is final: closed jobs, closed attempts and terminal deployments.
structure Kept (db db' : DB) : Prop where
  jobs : ∀ id job, db.jobs.get? id = some job → job.state.terminal = true → db'.jobs.get? id = some job
  attempts : ∀ id a, db.attempts.get? id = some a → a.state ≠ .leased → db'.attempts.get? id = some a
  deployments : ∀ id s, db.deployments.get? id = some s → isTerminal s.status = true → db'.deployments.get? id = some s

theorem kept_of_run (h : Sound db) (hrun : leaseSystem.Run db db') : Kept db db' where
  jobs id job hrow hterminal := by
    refine h.run_preserves (P := fun v => v.jobs id = some job) hrun hrow fun _ v v' kind _ hinv hrow he => ?_
    obtain ⟨job', hrow', hmoves⟩ := he.job_moves hinv.occupancy hrow
    rw [hmoves.closed hterminal] at hrow'
    exact hrow'
  attempts id a hrow hclosed :=
    h.run_preserves (P := fun v => v.attempts id = some a) hrun hrow fun _ v v' kind _ _ hrow he =>
      he.closed_attempt hrow hclosed
  deployments id s hrow hterminal := by
    refine h.run_preserves (P := fun v => v.deployments id = some s) hrun hrow fun _ v v' kind _ _ hrow he => ?_
    obtain ⟨s', hrow', hsteps⟩ := he.deployment_steps hrow
    rw [hsteps.of_terminal hterminal] at hrow'
    exact hrow'

-- In every state a job agrees with its attempts and its deployment, and what is closed stays as it is.
theorem lifecycles_agree (h : leaseSystem.Reachable db) :
    (∀ jobID job, db.jobs.get? jobID = some job →
      ∃ s, db.deployments.get? job.deploymentID = some s ∧ Agrees db jobID job s) ∧
    ∀ db', leaseSystem.Run db db' → Kept db db' := by
  have hsound := sound_of_reachable h
  exact ⟨fun jobID job hjob => agrees_of_lifecycles (lifecycles_of_reachable h) hsound.inv hjob,
    fun db' hrun => kept_of_run hsound hrun⟩

theorem lifecycles_agree_acknowledged :
    ∃ job s, sampleAcknowledged.jobs.get? 1 = some job ∧ job.state = .cancelled ∧ job.attemptCount = 1 ∧
      sampleAcknowledged.deployments.get? job.deploymentID = some s ∧ Agrees sampleAcknowledged 1 job s ∧
      s.status = .cancelled ∧ (exec 5000 sampleAcknowledged (.claim "srv" sampleToken 1)).jobs.get? 1 = some job := by
  have hstored : ((sampleAcknowledged.jobs.get? 1).map fun job => (job.state, job.attemptCount)) =
      some (.cancelled, 1) := by
    decide +kernel
  obtain ⟨job, hjob, hfields⟩ := Option.map_eq_some_iff.1 hstored
  obtain ⟨hstate, hcount⟩ := Prod.mk.inj hfields
  have hreachable : leaseSystem.Reachable sampleAcknowledged :=
    reachable_execAll (reachable_exec (reachable_execAll (sampleDB_reachable _) fun _ _ _ => trivial) 2000 trivial)
      fun _ _ _ => trivial
  obtain ⟨hagrees, hkept⟩ := lifecycles_agree hreachable
  obtain ⟨s, hs, hagree⟩ := hagrees 1 job hjob
  have hlater := hkept _ (.single ⟨5000, .claim "srv" sampleToken 1, trivial, rfl⟩)
  exact ⟨job, s, hjob, hstate, hcount, hs, hagree, hagree.cancelled hstate, hlater.jobs 1 job hjob (by rw [hstate]; rfl)⟩

end

end AutoDeploy.Protocol
