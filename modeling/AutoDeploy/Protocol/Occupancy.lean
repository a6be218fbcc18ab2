import AutoDeploy.Protocol.Effects

namespace AutoDeploy.Protocol

open Function Lib Lib.Result Queue Store Deployment

-- How an attempt agrees with the slot of its environment, and with its job.
structure FitsSlot (attemptID : Nat) (attempt : Attempt) (slot : Slot) : Prop where
  fence : attempt.fence ≤ slot.fence
  leased : attempt.state = .leased → slot.currentAttemptID = some attemptID ∧ slot.fence = attempt.fence

structure FitsJob (attempt : Attempt) (job : Job) : Prop where
  environment : job.environmentID = attempt.environmentID
  server : job.serverID = attempt.serverID
  number : attempt.attemptNumber ≤ job.attemptCount
  leased : attempt.state = .leased → job.state = .leased ∧ job.attemptCount = attempt.attemptNumber
  deadline : ∀ d ∈ attempt.cancelDeadlineAt, ∃ t ∈ job.cancelRequestedAt, d = t + cancellationGrace

-- Jobs, slots and attempts agree on who holds what.
structure Occupancy (v : View) : Prop where
  checked : Every v.attempts fun _ attempt => checkAttempt attempt = .ok ()
  fitsSlot : Every v.attempts fun id attempt => At v.slots attempt.environmentID (FitsSlot id attempt)
  fitsJob : Every v.attempts fun _ attempt => At v.jobs attempt.jobID (FitsJob attempt)
  occupant : Every v.slots fun environmentID slot => ∀ id ∈ slot.currentAttemptID,
    At v.attempts id fun attempt => attempt.environmentID = environmentID ∧ attempt.state = .leased
  flag : Every v.slots fun environmentID slot => ∀ id ∈ slot.reconciliationAttemptID,
    (slot.currentAttemptID = none ∨ slot.currentAttemptID = some id) ∧
      At v.attempts id fun attempt => attempt.environmentID = environmentID
  flagNewest : Every v.slots fun environmentID slot => ∀ id ∈ slot.reconciliationAttemptID,
    Every v.attempts fun other attempt => attempt.environmentID = environmentID → other ≤ id
  fenceOrder : Every v.attempts fun id attempt => Every v.attempts fun other attempt' =>
    attempt.environmentID = attempt'.environmentID → id < other → attempt.fence < attempt'.fence
  count : Every v.jobs fun _ job => job.attemptCount ≤ maxAttempts

section

variable {now : Nat} {v : View} {attemptID : Nat} {attempt : Attempt} {slot : Slot} {job : Job}

theorem Occupancy.holds (h : Occupancy v) (hrow : v.attempts attemptID = some attempt)
    (hleased : attempt.state = .leased) : ∃ slot job, Holds v attemptID attempt slot job := by
  obtain ⟨slot, hslot, hfits⟩ := h.fitsSlot attemptID attempt hrow
  obtain ⟨job, hjob, -⟩ := h.fitsJob attemptID attempt hrow
  exact ⟨slot, job, hrow, hslot, hjob, hleased, (hfits.leased hleased).1⟩

theorem Occupancy.holds_fitsSlot (h : Occupancy v) (hh : Holds v attemptID attempt slot job) :
    FitsSlot attemptID attempt slot :=
  (h.fitsSlot attemptID attempt hh.attemptRow).of_row hh.slotRow

theorem Occupancy.holds_fitsJob (h : Occupancy v) (hh : Holds v attemptID attempt slot job) :
    FitsJob attempt job :=
  (h.fitsJob attemptID attempt hh.attemptRow).of_row hh.jobRow

-- Nobody else holds the environment or the job of a leased attempt.
theorem Occupancy.leased_unique (h : Occupancy v) (hh : Holds v attemptID attempt slot job) {other : Nat}
    {attempt' : Attempt} (hrow : v.attempts other = some attempt') (hleased : attempt'.state = .leased)
    (hsame : attempt'.environmentID = attempt.environmentID ∨ attempt'.jobID = attempt.jobID) :
    other = attemptID := by
  have henvironment : attempt'.environmentID = attempt.environmentID := by
    rcases hsame with henv | hjob
    · exact henv
    · have hfits := (h.fitsJob other attempt' hrow).of_row (hjob ▸ hh.jobRow)
      rw [← hfits.environment, (h.holds_fitsJob hh).environment]
  have hslot := (h.fitsSlot other attempt' hrow).of_row (henvironment ▸ hh.slotRow)
  have hcurrent := (hslot.leased hleased).1
  rw [hh.occupies] at hcurrent
  exact (Option.some.inj hcurrent).symm

-- The holder of a slot is the newest attempt of its environment.
theorem Occupancy.holds_newest (h : Occupancy v) (hh : Holds v attemptID attempt slot job) :
    Every v.attempts fun other attempt' => attempt'.environmentID = attempt.environmentID → other ≤ attemptID := by
  intro other attempt' hrow henvironment
  by_contra hlt
  have horder := h.fenceOrder attemptID attempt hh.attemptRow other attempt' hrow henvironment.symm (by omega)
  have hslot := (h.fitsSlot other attempt' hrow).of_row (henvironment ▸ hh.slotRow)
  have hfence := ((h.holds_fitsSlot hh).leased hh.leased).2
  have := hslot.fence
  omega

theorem checkAttempt_eq_ok {a : Attempt} :
    checkAttempt a = .ok () ↔
      (1 ≤ a.attemptNumber ∧ a.attemptNumber ≤ 5) ∧ 0 < a.fence ∧ a.authorityExpiresAt ≤ a.leaseExpiresAt ∧
        (a.state ≠ .leased ↔ a.closedAt.isSome) ∧ a.shapeAllowed ∧
        ∀ deadline ∈ a.cancelDeadlineAt, a.authorityExpiresAt ≤ deadline := by
  simp [checkAttempt]

-- A leased attempt has no failure class yet.
theorem Occupancy.leased_unclassed (h : Occupancy v) (hh : Holds v attemptID attempt slot job) :
    attempt.failureClass = none := by
  have hshape := (checkAttempt_eq_ok.1 (h.checked attemptID attempt hh.attemptRow)).2.2.2.2.1
  simp only [Attempt.shapeAllowed, hh.leased, Bool.and_eq_true, Option.isNone_iff_eq_none] at hshape
  exact hshape.1

theorem checkAttempt_leasedAttempt {jobID : Nat} (hcount : job.attemptCount < maxAttempts) :
    checkAttempt (leasedAttempt now jobID job slot) = .ok () := by
  unfold maxAttempts at hcount
  rw [checkAttempt_eq_ok]
  simp only [leasedAttempt, Attempt.shapeAllowed, Option.isNone_none, Bool.and_self, Nat.le_refl,
    Option.isSome_none, ne_eq, not_true_eq_false, Bool.false_eq_true, Option.mem_def, reduceCtorEq]
  refine ⟨⟨by omega, by omega⟩, by omega, trivial, trivial, trivial, fun _ hd => hd.elim⟩

theorem Occupancy.openSlot {environmentID : String} (h : Occupancy v) (hnone : v.slots environmentID = none) :
    Occupancy { v with slots := update v.slots environmentID (some ⟨0, none, none, now⟩) } where
  checked := h.checked
  fitsSlot id attempt hrow := (h.fitsSlot id attempt hrow).insert hnone
  fitsJob := h.fitsJob
  occupant := Every.write (fun env slot _ hrow => h.occupant env slot hrow) (by simp)
  flag := Every.write (fun env slot _ hrow => h.flag env slot hrow) (by simp)
  flagNewest := Every.write (fun env slot _ hrow => h.flagNewest env slot hrow) (by simp)
  fenceOrder := h.fenceOrder
  count := h.count

-- A new lease of a free and unflagged slot. The new fence exceeds every fence of the environment,
-- and no other attempt of the environment or of the job is leased.
theorem Occupancy.lease {jobID : Nat} (h : Occupancy v) (hjob : v.jobs jobID = some job)
    (hslot : v.slots job.environmentID = some slot) (hfree : slot.currentAttemptID = none)
    (hunflagged : slot.reconciliationAttemptID = none)
    (hstate : job.state = .queued ∨ job.state = .retryWait) (hcount : job.attemptCount < maxAttempts)
    (hfresh : ∀ {id att}, v.attempts id = some att → id < attemptID) :
    Occupancy { v with
      slots := update v.slots job.environmentID (some { slot with
        fence := slot.fence + 1, currentAttemptID := some attemptID, updatedAt := now })
      jobs := update v.jobs jobID (some { job with
        state := .leased, attemptCount := job.attemptCount + 1, updatedAt := now })
      attempts := update v.attempts attemptID (some (leasedAttempt now jobID job slot)) } := by
  have hnone : v.attempts attemptID = none := by
    cases hrow : v.attempts attemptID with
    | none => rfl
    | some att => exact absurd (hfresh hrow) (Nat.lt_irrefl _)
  have hidle : job.state ≠ .leased := by rcases hstate with hs | hs <;> simp [hs]
  refine ⟨?checked, ?fitsSlot, ?fitsJob, ?occupant, ?flag, ?flagNewest, ?fenceOrder, ?count⟩
  case checked => exact Every.write (fun id att _ hrow => h.checked id att hrow) (checkAttempt_leasedAttempt hcount)
  case fitsSlot =>
    refine Every.write (fun id att _ hrow => ?_) (At.write_self ⟨Nat.le_refl _, fun _ => ⟨rfl, rfl⟩⟩)
    refine (h.fitsSlot id att hrow).write hslot fun _ hfits => ⟨Nat.le_succ_of_le hfits.fence, fun hleased => ?_⟩
    have := (hfits.leased hleased).1
    simp [hfree] at this
  case fitsJob =>
    refine Every.write (fun id att _ hrow => ?_)
      (At.write_self ⟨rfl, rfl, Nat.le_refl _, fun _ => ⟨rfl, rfl⟩, by simp [leasedAttempt]⟩)
    refine (h.fitsJob id att hrow).write hjob fun _ hfits => ?_
    exact ⟨hfits.environment, hfits.server, Nat.le_succ_of_le hfits.number,
      fun hleased => absurd (hfits.leased hleased).1 hidle, hfits.deadline⟩
  case occupant =>
    refine Every.write (fun env slot _ hrow id hid => (h.occupant env slot hrow id hid).insert hnone) ?_
    intro id hid
    cases hid
    exact At.write_self ⟨rfl, rfl⟩
  case flag =>
    refine Every.write (fun env slot _ hrow id hid => ?_) (by simp [hunflagged])
    exact ⟨(h.flag env slot hrow id hid).1, (h.flag env slot hrow id hid).2.insert hnone⟩
  case flagNewest =>
    refine Every.write (fun env slot' henv hrow id hid => ?_) (by simp [hunflagged])
    exact Every.write (fun other att _ hatt => h.flagNewest env slot' hrow id hid other att hatt)
      fun hsame => absurd hsame.symm henv
  case fenceOrder =>
    refine Every.write (fun id att _ hrow => ?_) ?_
    · refine Every.write (fun other att' _ hrow' => h.fenceOrder id att hrow other att' hrow') ?_
      intro hsame _
      have hsame' : att.environmentID = job.environmentID := hsame
      have := ((h.fitsSlot id att hrow).of_row (hsame' ▸ hslot)).fence
      exact Nat.lt_succ_of_le this
    · refine Every.write (fun other att' _ hrow' _ hlt => ?_) fun _ hlt => absurd hlt (Nat.lt_irrefl _)
      exact absurd (hfresh hrow') (by omega)
  case count =>
    exact Every.write (fun id j _ hrow => h.count id j hrow) hcount

-- What may become of a holder, its slot and its job: the holder stays, or everything is let go.
structure Rewrites (attemptID : Nat) (attempt attempt' : Attempt) (slot slot' : Slot) (job job' : Job) :
    Prop where
  attemptIdentity : attempt'.jobID = attempt.jobID ∧ attempt'.environmentID = attempt.environmentID ∧
    attempt'.serverID = attempt.serverID ∧ attempt'.fence = attempt.fence ∧
    attempt'.attemptNumber = attempt.attemptNumber
  jobIdentity : job'.environmentID = job.environmentID ∧ job'.serverID = job.serverID ∧
    job'.attemptCount = job.attemptCount
  checked : checkAttempt attempt' = .ok ()
  fence : slot.fence ≤ slot'.fence
  stays : attempt'.state = .leased →
    slot'.currentAttemptID = some attemptID ∧ slot'.fence = slot.fence ∧ job'.state = .leased
  leaves : attempt'.state ≠ .leased → slot'.currentAttemptID = none
  flag : ∀ id ∈ slot'.reconciliationAttemptID, id ∈ slot.reconciliationAttemptID ∨ id = attemptID
  cancel : ∀ t ∈ job.cancelRequestedAt, t ∈ job'.cancelRequestedAt
  deadline : ∀ d ∈ attempt'.cancelDeadlineAt,
    d ∈ attempt.cancelDeadlineAt ∨ ∃ t ∈ job'.cancelRequestedAt, d = t + cancellationGrace

theorem Occupancy.rewrite (h : Occupancy v) (attempt' : Attempt) (slot' : Slot) (job' : Job)
    (hh : Holds v attemptID attempt slot job) (hw : Rewrites attemptID attempt attempt' slot slot' job job') :
    Occupancy { v with
      attempts := update v.attempts attemptID (some attempt')
      slots := update v.slots attempt.environmentID (some slot')
      jobs := update v.jobs attempt.jobID (some job') } := by
  obtain ⟨hjobID, henv, hserver, hfence, hnumber⟩ := hw.attemptIdentity
  obtain ⟨hjobEnv, hjobServer, hjobCount⟩ := hw.jobIdentity
  have hfitsSlot := h.holds_fitsSlot hh
  have hfitsJob := h.holds_fitsJob hh
  have hslotFence := (hfitsSlot.leased hh.leased).2
  have hflagged : ∀ id ∈ slot'.reconciliationAttemptID, id = attemptID := by
    intro id hid
    rcases hw.flag id hid with hold | hself
    · rcases (h.flag _ slot hh.slotRow id hold).1 with hnone | hsome
      · simp [hh.occupies] at hnone
      · rw [hh.occupies] at hsome
        exact (Option.some.inj hsome).symm
    · exact hself
  have hcurrent : slot'.currentAttemptID = none ∨ slot'.currentAttemptID = some attemptID := by
    by_cases hleased : attempt'.state = .leased
    · exact .inr (hw.stays hleased).1
    · exact .inl (hw.leaves hleased)
  refine ⟨?checked, ?fitsSlot, ?fitsJob, ?occupant, ?flag, ?flagNewest, ?fenceOrder, ?count⟩
  case checked => exact Every.write (fun id att _ hrow => h.checked id att hrow) hw.checked
  case fitsSlot =>
    refine Every.write (fun id att hne hrow => ?_) ?_
    · refine (h.fitsSlot id att hrow).write hh.slotRow fun hsame hfits => ?_
      refine ⟨Nat.le_trans hfits.fence hw.fence, fun hleased => ?_⟩
      exact absurd (h.leased_unique hh hrow hleased (.inl hsame)) hne
    · rw [henv]
      refine At.write_self ⟨hfence ▸ Nat.le_trans hfitsSlot.fence hw.fence, fun hleased => ?_⟩
      obtain ⟨hholds, hsame, -⟩ := hw.stays hleased
      exact ⟨hholds, by rw [hsame, hfence, hslotFence]⟩
  case fitsJob =>
    refine Every.write (fun id att hne hrow => ?_) ?_
    · refine (h.fitsJob id att hrow).write hh.jobRow fun hsame hfits => ?_
      refine ⟨hjobEnv.trans hfits.environment, hjobServer.trans hfits.server, hjobCount ▸ hfits.number,
        fun hleased => ?_, fun d hd => ?_⟩
      · exact absurd (h.leased_unique hh hrow hleased (.inr hsame)) hne
      · obtain ⟨t, ht, hdt⟩ := hfits.deadline d hd
        exact ⟨t, hw.cancel t ht, hdt⟩
    · rw [hjobID]
      refine At.write_self ⟨?_, ?_, ?_, fun hleased => ?_, fun d hd => ?_⟩
      · rw [hjobEnv, henv, hfitsJob.environment]
      · rw [hjobServer, hserver, hfitsJob.server]
      · rw [hjobCount, hnumber]
        exact hfitsJob.number
      · exact ⟨(hw.stays hleased).2.2, by rw [hjobCount, hnumber]; exact (hfitsJob.leased hh.leased).2⟩
      · rcases hw.deadline d hd with hold | hnew
        · obtain ⟨t, ht, hdt⟩ := hfitsJob.deadline d hold
          exact ⟨t, hw.cancel t ht, hdt⟩
        · exact hnew
  case occupant =>
    refine Every.write (fun env slot₀ hne hrow id hid => ?_) fun id hid => ?_
    · refine (h.occupant env slot₀ hrow id hid).write hh.attemptRow fun _ hatt => ?_
      exact absurd hatt.1.symm hne
    · rcases hcurrent with hnone | hsome
      · simp [hnone] at hid
      · have hleased : attempt'.state = .leased := by
          by_contra hne
          simp [hw.leaves hne] at hsome
        rw [hsome] at hid
        cases hid
        exact At.write_self ⟨henv, hleased⟩
  case flag =>
    refine Every.write (fun env slot₀ hne hrow id hid => ?_) fun id hid => ?_
    · refine ⟨(h.flag env slot₀ hrow id hid).1, ?_⟩
      exact (h.flag env slot₀ hrow id hid).2.write hh.attemptRow fun _ hatt => henv.trans hatt
    · rw [hflagged id hid]
      exact ⟨hcurrent, At.write_self henv⟩
  case flagNewest =>
    refine Every.write (fun env slot₀ hne hrow id hid => ?_) fun id hid => ?_
    · refine Every.write (fun other att _ hatt => h.flagNewest env slot₀ hrow id hid other att hatt) fun hsame => ?_
      exact h.flagNewest env slot₀ hrow id hid attemptID attempt hh.attemptRow (henv ▸ hsame)
    · rw [hflagged id hid]
      exact Every.write (fun other att _ hatt => h.holds_newest hh other att hatt) fun _ => Nat.le_refl _
  case fenceOrder =>
    refine Every.write (fun id att hne hrow => ?_) ?_
    · refine Every.write (fun other att' _ hrow' => h.fenceOrder id att hrow other att' hrow') ?_
      rw [henv, hfence]
      exact h.fenceOrder id att hrow attemptID attempt hh.attemptRow
    · refine Every.write (fun other att' _ hrow' => ?_) fun _ hlt => absurd hlt (Nat.lt_irrefl _)
      rw [henv, hfence]
      exact h.fenceOrder attemptID attempt hh.attemptRow other att' hrow'
  case count =>
    exact Every.write (fun id j _ hrow => h.count id j hrow) (hjobCount ▸ h.count _ job hh.jobRow)

-- A job that is not running may be closed.
theorem Occupancy.cancel {jobID : Nat} (h : Occupancy v) (job' : Job) (hjob : v.jobs jobID = some job)
    (hidle : job.state ≠ .leased) (henv : job'.environmentID = job.environmentID)
    (hserver : job'.serverID = job.serverID) (hcount : job'.attemptCount = job.attemptCount)
    (hcancel : job.cancelRequestedAt = none ∨ job'.cancelRequestedAt = job.cancelRequestedAt) :
    Occupancy { v with jobs := update v.jobs jobID (some job') } where
  checked := h.checked
  fitsSlot := h.fitsSlot
  fitsJob id att hrow := by
    refine (h.fitsJob id att hrow).write hjob fun _ hfits => ?_
    refine ⟨henv.trans hfits.environment, hserver.trans hfits.server, hcount ▸ hfits.number,
      fun hleased => absurd (hfits.leased hleased).1 hidle, fun d hd => ?_⟩
    obtain ⟨t, ht, hdt⟩ := hfits.deadline d hd
    rcases hcancel with hnone | hsame
    · simp [hnone] at ht
    · exact ⟨t, hsame ▸ ht, hdt⟩
  occupant := h.occupant
  flag := h.flag
  flagNewest := h.flagNewest
  fenceOrder := h.fenceOrder
  count := Every.write (fun id j _ hrow => h.count id j hrow) (hcount ▸ h.count jobID job hjob)

-- Clearing a flag.
theorem Occupancy.clear {environmentID : String} (h : Occupancy v) (hslot : v.slots environmentID = some slot) :
    Occupancy { v with slots := update v.slots environmentID (some { slot with
      reconciliationAttemptID := none, updatedAt := now }) } where
  checked := h.checked
  fitsSlot id att hrow := (h.fitsSlot id att hrow).write hslot fun _ hfits => ⟨hfits.fence, hfits.leased⟩
  fitsJob := h.fitsJob
  occupant := Every.write (fun env slot _ hrow => h.occupant env slot hrow)
    (h.occupant environmentID slot hslot)
  flag := Every.write (fun env slot _ hrow => h.flag env slot hrow) (by simp)
  flagNewest := Every.write (fun env slot _ hrow => h.flagNewest env slot hrow) (by simp)
  fenceOrder := h.fenceOrder
  count := h.count

-- Only these three tables matter.
theorem Occupancy.congr {v' : View} (h : Occupancy v) (hjobs : v'.jobs = v.jobs) (hslots : v'.slots = v.slots)
    (hattempts : v'.attempts = v.attempts) : Occupancy v' := by
  obtain ⟨h₁, h₂, h₃, h₄, h₅, h₆, h₇, h₈⟩ := h
  constructor <;> simpa only [hjobs, hslots, hattempts]

theorem Occupancy.renew (h : Occupancy v) (hh : Holds v attemptID attempt slot job) :
    Occupancy { v with attempts := update v.attempts attemptID (some { attempt with
      renewalSequence := attempt.renewalSequence + 1
      leaseExpiresAt := renewedExpiry now attempt
      authorityExpiresAt := renewedExpiry now attempt }) } := by
  obtain ⟨hnumber, hfence, -, hclosed, hshape, -⟩ := checkAttempt_eq_ok.1 (h.checked _ _ hh.attemptRow)
  have hcap : ∀ d ∈ attempt.cancelDeadlineAt, renewedExpiry now attempt ≤ d := by
    intro d hd
    have hd' : attempt.cancelDeadlineAt = some d := hd
    simp only [renewedExpiry, hd']
    exact Nat.min_le_left _ _
  have hw := h.rewrite
    { attempt with
      renewalSequence := attempt.renewalSequence + 1
      leaseExpiresAt := renewedExpiry now attempt
      authorityExpiresAt := renewedExpiry now attempt } slot job hh
    { attemptIdentity := ⟨rfl, rfl, rfl, rfl, rfl⟩
      jobIdentity := ⟨rfl, rfl, rfl⟩
      checked := checkAttempt_eq_ok.2 ⟨hnumber, hfence, Nat.le_refl _, hclosed, hshape, hcap⟩
      fence := Nat.le_refl _
      stays := fun _ => ⟨hh.occupies, rfl, ((h.holds_fitsJob hh).leased hh.leased).1⟩
      leaves := fun hne => absurd hh.leased hne
      flag := fun _ hid => .inl hid
      cancel := fun _ ht => ht
      deadline := fun _ hd => .inl hd }
  rwa [update_row hh.slotRow, update_row hh.jobRow] at hw

theorem Occupancy.mark (h : Occupancy v) (hh : Holds v attemptID attempt slot job)
    (hcancel : job.cancelRequestedAt = none) :
    Occupancy { v with
      jobs := update v.jobs attempt.jobID (some { job with cancelRequestedAt := some now, updatedAt := now })
      attempts := update v.attempts attemptID (some { attempt with
        cancelDeadlineAt := some (now + cancellationGrace)
        leaseExpiresAt := min attempt.leaseExpiresAt (now + cancellationGrace)
        authorityExpiresAt := min attempt.authorityExpiresAt (now + cancellationGrace) }) } := by
  obtain ⟨hnumber, hfence, hauthority, hclosed, hshape, -⟩ := checkAttempt_eq_ok.1 (h.checked _ _ hh.attemptRow)
  have hw := h.rewrite
    { attempt with
      cancelDeadlineAt := some (now + cancellationGrace)
      leaseExpiresAt := min attempt.leaseExpiresAt (now + cancellationGrace)
      authorityExpiresAt := min attempt.authorityExpiresAt (now + cancellationGrace) }
    slot { job with cancelRequestedAt := some now, updatedAt := now } hh
    { attemptIdentity := ⟨rfl, rfl, rfl, rfl, rfl⟩
      jobIdentity := ⟨rfl, rfl, rfl⟩
      checked := by
        refine checkAttempt_eq_ok.2 ⟨hnumber, hfence, ?_, hclosed, hshape, ?_⟩
        · dsimp only
          omega
        · simp
      fence := Nat.le_refl _
      stays := fun _ => ⟨hh.occupies, rfl, ((h.holds_fitsJob hh).leased hh.leased).1⟩
      leaves := fun hne => absurd hh.leased hne
      flag := fun _ hid => .inl hid
      cancel := by simp [hcancel]
      deadline := by simp }
  rwa [update_row hh.slotRow] at hw

-- Letting go: the attempt is closed and its slot vacated.
theorem Occupancy.close {attempt' : Attempt} {slot' : Slot} {job' : Job} (h : Occupancy v) (s : Snapshot)
    (events : List JobEvent) (hh : Holds v attemptID attempt slot job)
    (hw : Rewrites attemptID attempt attempt' slot slot' job job') :
    Occupancy (v.close attemptID attempt' slot' job' s events) := by
  obtain ⟨hjobID, henv, -⟩ := hw.attemptIdentity
  refine (h.rewrite attempt' slot' job' hh hw).congr ?_ ?_ rfl
  · simp only [View.close, hjobID]
  · simp only [View.close, henv]

-- A closing attempt, as every closing path writes it.
theorem Rewrites.close {attemptState : AttemptState} {failureClass : Option FailureClass}
    {result : Option (String × Digest)} {jobState : JobState} {availableAt : Nat} (slot' : Slot)
    (hclosed : attemptState ≠ .leased)
    (hchecked : checkAttempt { attempt with
      state := attemptState, closedAt := some now, failureClass := failureClass, result := result } = .ok ())
    (hfence : slot.fence ≤ slot'.fence) (hfree : slot'.currentAttemptID = none)
    (hflag : ∀ id ∈ slot'.reconciliationAttemptID, id ∈ slot.reconciliationAttemptID ∨ id = attemptID) :
    Rewrites attemptID attempt
      { attempt with
        state := attemptState, closedAt := some now, failureClass := failureClass, result := result }
      slot slot' job { job with state := jobState, availableAt := availableAt, updatedAt := now } where
  attemptIdentity := ⟨rfl, rfl, rfl, rfl, rfl⟩
  jobIdentity := ⟨rfl, rfl, rfl⟩
  checked := hchecked
  fence := hfence
  stays := fun hleased => absurd hleased hclosed
  leaves := fun _ => hfree
  flag := hflag
  cancel := fun _ ht => ht
  deadline := fun _ hd => .inl hd

theorem Occupancy.block (h : Occupancy v) (hh : Holds v attemptID attempt slot job) :
    Occupancy { v with slots := update v.slots attempt.environmentID (some { slot with
      reconciliationAttemptID := some attemptID, updatedAt := now }) } := by
  have hw := h.rewrite attempt { slot with reconciliationAttemptID := some attemptID, updatedAt := now } job hh
    { attemptIdentity := ⟨rfl, rfl, rfl, rfl, rfl⟩
      jobIdentity := ⟨rfl, rfl, rfl⟩
      checked := h.checked _ _ hh.attemptRow
      fence := Nat.le_refl _
      stays := fun _ => ⟨hh.occupies, rfl, ((h.holds_fitsJob hh).leased hh.leased).1⟩
      leaves := fun hne => absurd hh.leased hne
      flag := fun _ hid => .inr (Option.some.inj hid).symm
      cancel := fun _ ht => ht
      deadline := fun _ hd => .inl hd }
  rwa [update_row hh.attemptRow, update_row hh.jobRow] at hw

theorem Occupancy.effect {kind : Kind} {v' : View} (h : Occupancy v) (he : Effect now v kind v') : Occupancy v' := by
  cases he with
  | openSlot hnone => exact h.openSlot hnone
  | freeze _ => exact h.congr rfl rfl rfl
  | candidate _ _ _ _ _ _ _ => exact h.congr rfl rfl rfl
  | lease hjob hslot hfree hunflagged hstate _ _ hcount hfresh _ _ _ _ _ _ =>
      exact (h.lease hjob hslot hfree hunflagged hstate hcount hfresh).congr rfl rfl rfl
  | renew hholds _ => exact h.renew hholds
  | close hholds _ hclosed hchecked hslot _ _ _ _ _ _ _ =>
      refine h.close _ _ hholds ?_
      cases hslot with
      | free => exact Rewrites.close _ hclosed hchecked (Nat.le_refl _) rfl fun _ hid => .inl hid
      | retire =>
          exact Rewrites.close _ hclosed hchecked (Nat.le_succ _) rfl fun _ hid => .inr (Option.some.inj hid).symm
  | @cancel jobID job _ _ _ hjob hstate hmark _ _ _ =>
      have hcancel : job.cancelRequestedAt = none ∨ some now = job.cancelRequestedAt := by
        cases hold : job.cancelRequestedAt with
        | none => exact .inl rfl
        | some t => exact .inr (by rw [hmark t hold])
      refine Occupancy.congr (h.cancel { job with
        state := .cancelled, cancelRequestedAt := some now, updatedAt := now } hjob ?_ rfl rfl rfl hcancel) rfl rfl rfl
      rcases hstate with hs | hs <;> simp [hs]
  | mark hjob _ hcancel hattempt hleased hof _ _ _ _ =>
      obtain ⟨slot, job, hholds⟩ := h.holds hattempt hleased
      subst hof
      rw [hholds.jobRow] at hjob
      cases hjob
      exact (h.mark hholds hcancel).congr rfl rfl rfl
  | progress _ _ _ _ => exact h.congr rfl rfl rfl
  | authorize _ _ _ _ _ _ _ _ _ _ _ _ _ _ _ _ _ => exact h.congr rfl rfl rfl
  | block hholds _ _ _ _ _ _ _ => exact (h.block hholds).congr rfl rfl rfl
  | evidence _ _ _ _ _ => exact h.congr rfl rfl rfl
  | trace _ _ => exact h.congr rfl rfl rfl
  | @activate _ _ _ slot _ _ s' _ _ _ _ _ events hholds _ _ _ _ _ _ _ _ _ _ _ _ hattempt _ =>
      exact (h.close s' events hholds (Rewrites.close
        { slot with currentAttemptID := none, reconciliationAttemptID := none, updatedAt := now }
        (by simp) hattempt (Nat.le_refl _) rfl (by simp))).congr rfl rfl rfl
  | @abandon _ _ _ slot _ _ s' _ _ _ events hholds _ _ _ _ _ _ _ hattempt _ =>
      exact (h.close s' events hholds (Rewrites.close
        { slot with currentAttemptID := none, reconciliationAttemptID := none, updatedAt := now }
        (by simp) hattempt (Nat.le_refl _) rfl (by simp))).congr rfl rfl rfl
  | clear hslot _ _ _ _ => exact (h.clear hslot).congr rfl rfl rfl
  | createHead _ _ => exact h.congr rfl rfl rfl
  | rename _ _ _ _ _ => exact h.congr rfl rfl rfl

end

end AutoDeploy.Protocol
