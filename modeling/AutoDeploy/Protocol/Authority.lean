import AutoDeploy.Protocol.Clock

namespace AutoDeploy.Protocol

open Function Lib Queue Store

-- Authority. An attempt may act until its authority expires; after that nothing moves the deadline.

-- The deadline of an attempt whose authority has expired.
def Lapsed (v : View) (attemptID deadline : Nat) : Prop :=
  At v.attempts attemptID fun a => a.authorityExpiresAt = deadline

-- The deadlines when each attempt was last given time at `granted`.
def Granted (granted : Nat → Nat) (v : View) : Prop :=
  Every v.attempts fun id a => a.authorityExpiresAt ≤ granted id + leaseDuration

-- A leased attempt of a job marked for cancellation has the mark's deadline.
def Marked (clock : Nat) (v : View) : Prop :=
  Every v.attempts fun _ a => a.state = .leased → At v.jobs a.jobID fun job =>
    ∀ t ∈ job.cancelRequestedAt, t ≤ clock ∧ a.cancelDeadlineAt = some (t + cancellationGrace)

-- Nothing is given to the job any more: it is marked or closed, and the attempts that were not closed in `v₀` stop by
-- `limit`.
structure Capped (v₀ : View) (jobID limit : Nat) (v : View) : Prop where
  job : At v.jobs jobID fun job => job.cancelRequestedAt.isSome ∨ job.state.terminal = true
  attempts : Every v.attempts fun id a => a.jobID = jobID →
    (At v₀.attempts id fun a => a.state ≠ .leased) ∨ ∃ d ∈ a.cancelDeadlineAt, d ≤ limit

section

variable {clock now deadline attemptID jobID limit : Nat} {v v' v₀ : View} {kind : Kind} {attempt attempt' : Attempt}
  {granted : Nat → Nat}

-- Only a renewal and a cancellation write the deadline: a renewal needs live authority, and a cancellation
-- moves no deadline that has passed.
theorem Ages.lapsed (h : Ages now kind attempt attempt') (hpassed : attempt.authorityExpiresAt ≤ now) :
    attempt'.authorityExpiresAt = attempt.authorityExpiresAt := by
  cases h with
  | same => rfl
  | renew _ _ hlive => omega
  | cap _ => exact Nat.min_eq_left (by omega)
  | close _ _ => rfl

theorem Lapsed.effect (h : Lapsed v attemptID deadline) (hpassed : deadline ≤ now) (he : Effect now v kind v') :
    Lapsed v' attemptID deadline := by
  obtain ⟨a, hrow, rfl⟩ := h
  exact (he.attempt_ages hrow).imp fun a' hages => hages.lapsed hpassed

theorem Lapsed.effects {permitted : Kind → Prop} (h : Lapsed v attemptID deadline) (hpassed : deadline ≤ now)
    (hinv : Inv v) (he : Effects now permitted v v') : Lapsed v' attemptID deadline :=
  (he.preserves (P := fun v => Lapsed v attemptID deadline) hinv h fun _ _ _ _ _ h he => h.effect hpassed he).2

-- Without a renewal no deadline moves up.
theorem Ages.kept (h : Ages now kind attempt attempt') (hkind : kind ≠ .renews) :
    attempt'.authorityExpiresAt ≤ attempt.authorityExpiresAt := by
  cases h with
  | same => exact Nat.le_refl _
  | renew hrenews _ _ => exact absurd hrenews hkind
  | cap _ => exact Nat.min_le_left _ _
  | close _ _ => exact Nat.le_refl _

-- ... and a new attempt has one lease.
theorem Granted.effect (h : Granted granted v) (he : Effect now v kind v') (hkind : kind ≠ .renews)
    (hnew : kind = .leases → ∀ id, v.attempts id = none → granted id = now) : Granted granted v' := by
  intro id a' hrow'
  cases hrow : v.attempts id with
  | some a =>
      have hages := (he.attempt_ages hrow).of_row hrow'
      exact (hages.kept hkind).trans (h id a hrow)
  | none =>
      obtain ⟨hleases, ⟨jobID, job, slot, hlease⟩, -⟩ := he.new_attempt hrow hrow'
      rw [hnew hleases id hrow, hlease.leased]
      exact Nat.le_refl _

-- A whole transaction that renews nothing.
theorem Granted.effects {permitted : Kind → Prop} (h : Granted granted v) (hinv : Inv v) (he : Effects now permitted v v')
    (hrenews : ¬ permitted .renews) :
    Granted (fun id => if v.attempts id = none then now else granted id) v' := by
  refine (he.preserves (P := fun w => Granted (fun id => if v.attempts id = none then now else granted id) w ∧
    ∀ id, w.attempts id = none → v.attempts id = none) hinv ⟨fun id a hrow => ?_, fun _ hnone => hnone⟩ ?_).2.1
  · simpa [hrow] using h id a hrow
  · rintro w w' kind hkind - ⟨hgranted, hkept⟩ hstep
    refine ⟨hgranted.effect hstep (fun hk => hrenews (hk ▸ hkind)) fun _ id hnone => if_pos (hkept id hnone),
      fun id hnone => hkept id ?_⟩
    cases hrow : w.attempts id with
    | none => rfl
    | some a =>
        obtain ⟨a', hrow', -⟩ := hstep.attempt_ages hrow
        rw [hnone] at hrow'
        cases hrow'

-- ... and creates no attempt.
theorem Effects.no_new_attempt {permitted : Kind → Prop} (hinv : Inv v) (he : Effects now permitted v v')
    (hleases : ¬ permitted .leases) {id : Nat} (hnone : v.attempts id = none) : v'.attempts id = none := by
  refine (he.preserves (P := fun w => w.attempts id = none) hinv hnone fun w w' kind hkind _ hnone hstep => ?_).2
  by_contra hsome
  obtain ⟨a, hrow⟩ := Option.ne_none_iff_exists'.1 hsome
  obtain ⟨hk, -⟩ := hstep.new_attempt hnone hrow
  exact hleases (hk ▸ hkind)

-- The mark of a job and the deadline of its attempt are written together.
theorem Marked.write_job {job job' : Job} {id : Nat} {a : Attempt} (h : Marked now v) (hjob : v.jobs jobID = some job)
    (hrow : v.attempts id = some a) (hleased : a.state = .leased) (hmark : job'.cancelRequestedAt = job.cancelRequestedAt) :
    At (update v.jobs jobID (some job')) a.jobID fun job =>
      ∀ t ∈ job.cancelRequestedAt, t ≤ now ∧ a.cancelDeadlineAt = some (t + cancellationGrace) := by
  refine (h id a hrow hleased).write hjob fun _ hold => ?_
  rw [hmark]
  exact hold

theorem Marked.effect (h : Marked now v) (ho : Occupancy v) (he : Effect now v kind v') : Marked now v' := by
  cases he with
  | openSlot _ => exact h
  | freeze _ => exact h
  | candidate _ _ _ _ _ _ _ => exact h
  | @lease jobID _ job _ _ _ _ hjob _ _ _ _ hcancel _ _ _ _ _ _ _ _ _ =>
      refine Every.write (fun id a _ hrow hleased => h.write_job hjob hrow hleased (by rfl)) fun _ => ?_
      refine At.write_self ?_
      simp [hcancel]
  | @renew attemptID attempt _ _ hholds _ => exact Every.put h fun hleased => (h attemptID attempt hholds.attemptRow hleased :)
  | close hholds _ hclosed _ _ _ _ _ _ _ _ _ =>
      refine Every.write (fun id a _ hrow hleased => h.write_job hholds.jobRow hrow hleased (by rfl)) fun hleased => ?_
      exact absurd hleased hclosed
  | cancel hjob hstate _ _ _ _ =>
      -- no attempt of a waiting job is leased
      intro id a hrow hleased
      refine (h id a hrow hleased).write_of_ne fun hof => ?_
      have hjobLeased := (((ho.fitsJob id a hrow).of_row (hof ▸ hjob)).leased hleased).1
      rcases hstate with hs | hs
      · cases hs.symm.trans hjobLeased
      · cases hs.symm.trans hjobLeased
  | @mark jobID attemptID job attempt _ _ hjob _ _ hattempt hleased hof _ _ _ _ =>
      obtain ⟨slot, job₀, hh⟩ := ho.holds hattempt hleased
      refine Every.write (fun id a hne hrow hleased' => ?_) fun _ => ?_
      · refine (h id a hrow hleased').write_of_ne fun hsame => hne ?_
        exact ho.leased_unique hh hrow hleased' (.inr (hsame.trans hof.symm))
      · rw [hof]
        refine At.write_self fun t ht => ?_
        cases ht
        exact ⟨Nat.le_refl _, rfl⟩
  | progress _ _ _ _ => exact h
  | authorize _ _ _ _ _ _ _ _ _ _ _ _ _ _ _ _ _ => exact h
  | block _ _ _ _ _ _ _ _ => exact h
  | evidence _ _ _ _ _ => exact h
  | trace _ _ => exact h
  | activate hholds _ _ _ _ _ _ _ _ _ _ _ _ _ _ =>
      refine Every.write (fun id a _ hrow hleased => h.write_job hholds.jobRow hrow hleased (by rfl)) fun hleased => ?_
      cases hleased
  | abandon hholds _ _ _ _ _ _ _ _ _ =>
      refine Every.write (fun id a _ hrow hleased => h.write_job hholds.jobRow hrow hleased (by rfl)) fun hleased => ?_
      cases hleased
  | clear _ _ _ _ _ => exact h
  | createHead _ _ => exact h
  | rename _ _ _ _ _ => exact h

theorem Marked.mono (h : Marked clock v) (hle : clock ≤ now) : Marked now v := by
  intro id a hrow hleased
  exact (h id a hrow hleased).imp fun job hjob t ht => ⟨((hjob t ht).1).trans hle, (hjob t ht).2⟩

-- A deadline that is set stays: the only effect that sets one is the mark of an unmarked job.
theorem Effect.deadline_kept (ho : Occupancy v) (he : Effect now v kind v') (hrow : v.attempts attemptID = some attempt)
    (hset : attempt.cancelDeadlineAt.isSome) :
    At v'.attempts attemptID fun a => a.cancelDeadlineAt = attempt.cancelDeadlineAt := by
  have hsame : At v.attempts attemptID fun a => a.cancelDeadlineAt = attempt.cancelDeadlineAt := ⟨attempt, hrow, rfl⟩
  cases he with
  | openSlot _ => exact hsame
  | freeze _ => exact hsame
  | candidate _ _ _ _ _ _ _ => exact hsame
  | lease _ _ _ _ _ _ _ _ hfresh _ _ _ _ _ _ => exact hsame.write_of_ne (Nat.ne_of_lt (hfresh hrow))
  | renew hholds _ => exact hsame.write hholds.attemptRow fun _ hold => hold
  | close hholds _ _ _ _ _ _ _ _ _ _ _ => exact hsame.write hholds.attemptRow fun _ hold => hold
  | cancel _ _ _ _ _ _ => exact hsame
  | mark hjob _ hcancel hattempt _ hof _ _ _ _ =>
      refine hsame.write_of_ne fun hid => ?_
      subst hid
      cases hrow.symm.trans hattempt
      obtain ⟨d, hd⟩ := Option.isSome_iff_exists.1 hset
      obtain ⟨t, ht, -⟩ := ((ho.fitsJob _ attempt hrow).of_row (hof ▸ hjob)).deadline d hd
      rw [hcancel] at ht
      cases ht
  | progress _ _ _ _ => exact hsame
  | authorize _ _ _ _ _ _ _ _ _ _ _ _ _ _ _ _ _ => exact hsame
  | block _ _ _ _ _ _ _ _ => exact hsame
  | evidence _ _ _ _ _ => exact hsame
  | trace _ _ => exact hsame
  | activate hholds _ _ _ _ _ _ _ _ _ _ _ _ _ _ => exact hsame.write hholds.attemptRow fun _ hold => hold
  | abandon hholds _ _ _ _ _ _ _ _ _ => exact hsame.write hholds.attemptRow fun _ hold => hold
  | clear _ _ _ _ _ => exact hsame
  | createHead _ _ => exact hsame
  | rename _ _ _ _ _ => exact hsame

theorem Capped.effect (h : Capped v₀ jobID limit v) (ho : Occupancy v) (he : Effect now v kind v') :
    Capped v₀ jobID limit v' where
  job := by
    obtain ⟨job, hjob, hended⟩ := h.job
    refine (he.job_moves ho hjob).imp fun job' hmoves => ?_
    rcases hended with hmark | hclosed
    · rcases hmoves.marked hmark with hsame | hclosed
      · exact .inl (hsame ▸ hmark)
      · exact .inr hclosed
    · rw [hmoves.closed hclosed]
      exact .inr hclosed
  attempts := by
    intro id a' hrow' hof
    cases hrow : v.attempts id with
    | none =>
        -- a marked or closed job is not leased again
        obtain ⟨-, ⟨jobID', job, slot, hlease⟩, -⟩ := he.new_attempt hrow hrow'
        obtain rfl : jobID' = jobID := by rw [← hof, hlease.leased]; rfl
        rcases h.job.of_row hlease.jobRow with hmark | hclosed
        · simp [hlease.unmarked] at hmark
        · rcases hlease.idle with hstate | hstate <;> simp [hstate, JobState.terminal] at hclosed
    | some a =>
        have hages := (he.attempt_ages hrow).of_row hrow'
        rcases h.attempts id a hrow (hages.identity.2.2.symm.trans hof) with hold | ⟨d, hd, hle⟩
        · exact .inl hold
        · have hkept := (he.deadline_kept ho hrow (by simp [Option.mem_def.1 hd])).of_row hrow'
          exact .inr ⟨d, hkept ▸ hd, hle⟩

end

end AutoDeploy.Protocol
