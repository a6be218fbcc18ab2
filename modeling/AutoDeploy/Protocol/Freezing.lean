import AutoDeploy.Protocol.Histories

namespace AutoDeploy.Protocol

open Function Lib Queue Store Deployment

-- All attempts of a job run the same inputs, and the release of its deployment carries their digest.
structure Frozen (v : View) : Prop where
  executed : Every v.attempts fun id _ => v.executions id ≠ none
  same : Every v.attempts fun id a => Every v.attempts fun other b =>
    a.jobID = b.jobID → v.inputs id = v.inputs other
  released : Every v.releases fun key release => ∃ id a job execution, v.attempts id = some a ∧
    v.jobs a.jobID = some job ∧ job.deploymentID = key ∧ v.executions id = some execution ∧
    release.configDigest = computeConfigDigest execution (v.inputs id).2.1 (v.inputs id).2.2

section

variable {now : Nat} {v v' : View} {kind : Kind}

-- Nothing depends on the rest of the rows.
theorem Frozen.keep (h : Frozen v) (hattempts : SameBy Attempt.jobID v'.attempts v.attempts)
    (hjobs : SameBy Job.deploymentID v'.jobs v.jobs) (hreleases : SameBy Release.configDigest v'.releases v.releases)
    (hexecutions : v'.executions = v.executions) (hinputs : v'.inputs = v.inputs) : Frozen v' where
  executed id a hrow := by
    obtain ⟨b, hb, -⟩ := hattempts.symm.forward hrow
    rw [hexecutions]
    exact h.executed id b hb
  same id a hrow other b hrow' hjob := by
    obtain ⟨a₀, ha₀, ha⟩ := hattempts.symm.forward hrow
    obtain ⟨b₀, hb₀, hb⟩ := hattempts.symm.forward hrow'
    rw [hinputs]
    exact h.same id a₀ ha₀ other b₀ hb₀ (ha.trans (hjob.trans hb.symm))
  released key release hrow := by
    obtain ⟨r₀, hr₀, hr⟩ := hreleases.symm.forward hrow
    obtain ⟨id, a, job, execution, ha, hjob, hkey, hexecution, hdigest⟩ := h.released key r₀ hr₀
    obtain ⟨a', ha', hsame⟩ := hattempts.forward ha
    obtain ⟨job', hjob', hdeployment⟩ := hjobs.forward hjob
    refine ⟨id, a', job', execution, ha', hsame ▸ hjob', hdeployment.trans hkey, hexecutions ▸ hexecution, ?_⟩
    rw [hinputs, ← hr, hdigest]

theorem retain_sameBy (now : Nat) (releases : String → Option Release) (predecessor : Option String) :
    SameBy Release.configDigest (retain now releases predecessor) releases := by
  intro id
  unfold retain
  split
  · simp [Option.map_map, Function.comp_def]
  · rfl

theorem Frozen.effect (h : Frozen v) (ho : Occupancy v) (he : Effect now v kind v') : Frozen v' := by
  cases he with
  | openSlot _ => exact h.keep .refl .refl .refl rfl rfl
  | @freeze attemptID _ _ _ hnone =>
      have hne {id : Nat} {a : Attempt} (hrow : v.attempts id = some a) : id ≠ attemptID := by
        rintro rfl
        rw [hnone] at hrow
        cases hrow
      refine ⟨fun id a hrow => ?_, fun id a hrow other b hrow' hjob => ?_, fun key release hrow => ?_⟩
      · simpa [hne hrow] using h.executed id a hrow
      · simpa [View.inputs, hne hrow, hne hrow'] using h.same id a hrow other b hrow' hjob
      · obtain ⟨id, a, job, execution, ha, hjob, hkey, hexecution, hdigest⟩ := h.released key release hrow
        refine ⟨id, a, job, execution, ha, hjob, hkey, by simpa [hne ha] using hexecution, ?_⟩
        simpa [View.inputs, hne ha] using hdigest
  | candidate _ _ _ _ _ _ hdigest =>
      exact ⟨h.executed, h.same, Every.write (fun key release _ hrow => h.released key release hrow) hdigest⟩
  | @lease jobID attemptID job slot _ _ _ hjob _ _ _ _ _ _ _ hfresh _ _ _ _ hfrozen hcopied =>
      have hne {id : Nat} {a : Attempt} (hrow : v.attempts id = some a) : id ≠ attemptID := Nat.ne_of_lt (hfresh hrow)
      -- another attempt of the job ran what the previous attempt ran
      have hothers {id : Nat} {a : Attempt} (hrow : v.attempts id = some a) (hof : a.jobID = jobID) :
          v.inputs attemptID = v.inputs id := by
        have hnumber := ((ho.fitsJob id a hrow).of_row (hof ▸ hjob)).number
        have hpos := (checkAttempt_eq_ok.1 (ho.checked id a hrow)).1.1
        obtain ⟨previous, p, hp, hpof, -, hinputs⟩ := hcopied (by omega)
        exact hinputs.trans (h.same previous p hp id a hrow (hpof.trans hof.symm))
      refine ⟨Every.write (fun id a _ hrow => h.executed id a hrow) hfrozen, ?_, fun key release hrow => ?_⟩
      · refine Every.write (fun id a _ hrow => ?_) ?_
        · refine Every.write (fun other b _ hrow' => h.same id a hrow other b hrow') fun hof => ?_
          exact (hothers hrow hof).symm
        · exact Every.write (fun other b _ hrow' hof => hothers hrow' hof.symm) fun _ => rfl
      · obtain ⟨id, a, j, execution, ha, hj, hkey, hexecution, hdigest⟩ := h.released key release hrow
        have hjobs : SameBy Job.deploymentID (update v.jobs jobID (some { job with
            state := .leased, attemptCount := job.attemptCount + 1, updatedAt := now })) v.jobs := .write hjob rfl
        obtain ⟨j', hj', hsame⟩ := hjobs.forward hj
        exact ⟨id, a, j', execution, (update_of_ne (hne ha) _ _).trans ha, hj', hsame.trans hkey, hexecution, hdigest⟩
  | renew hholds _ => exact h.keep (.write hholds.attemptRow rfl) .refl .refl rfl rfl
  | close hholds _ _ _ _ _ _ _ _ _ _ _ =>
      exact h.keep (.write hholds.attemptRow rfl) (.write hholds.jobRow rfl) .refl rfl rfl
  | cancel hjob _ _ _ _ _ => exact h.keep .refl (.write hjob rfl) .refl rfl rfl
  | mark hjob _ _ hattempt _ _ _ _ _ _ => exact h.keep (.write hattempt rfl) (.write hjob rfl) .refl rfl rfl
  | progress _ _ _ _ => exact h.keep .refl .refl .refl rfl rfl
  | authorize _ _ _ _ _ _ _ _ _ _ hrelease _ _ _ _ _ _ =>
      refine h.keep .refl .refl (.write hrelease ?_) rfl rfl
      unfold readied
      split <;> rfl
  | block _ _ _ _ _ _ _ _ => exact h.keep .refl .refl .refl rfl rfl
  | evidence _ _ _ _ _ => exact h.keep .refl .refl .refl rfl rfl
  | trace _ _ => exact h.keep .refl .refl .refl rfl rfl
  | @activate _ _ _ _ _ _ _ op _ release _ _ _ hholds _ _ _ _ _ _ _ _ hrelease _ _ _ _ _ =>
      have hretained := retain_sameBy now v.releases op.expectedActiveReleaseID
      obtain ⟨r, hr, hsame⟩ := hretained.forward hrelease
      refine h.keep (.write hholds.attemptRow rfl) (.write hholds.jobRow rfl) (.trans (.write hr ?_) hretained) rfl rfl
      exact hsame.symm
  | abandon hholds _ _ _ _ _ _ _ _ _ =>
      exact h.keep (.write hholds.attemptRow rfl) (.write hholds.jobRow rfl) .refl rfl rfl
  | clear _ _ _ _ _ => exact h.keep .refl .refl .refl rfl rfl
  | createHead _ _ => exact h.keep .refl .refl .refl rfl rfl
  | rename _ _ _ _ _ => exact h.keep .refl .refl .refl rfl rfl

-- What an attempt runs never changes.
theorem Effect.inputs_kept {id : Nat} {a : Attempt} (he : Effect now v kind v') (hrow : v.attempts id = some a) :
    v'.inputs id = v.inputs id := by
  cases he with
  | @freeze attemptID _ _ _ hnone =>
      have hne : id ≠ attemptID := by
        rintro rfl
        rw [hnone] at hrow
        cases hrow
      simp [View.inputs, hne]
  | _ => rfl

end

end AutoDeploy.Protocol
