import AutoDeploy.Protocol.Acceptance
import AutoDeploy.Protocol.Authority
import AutoDeploy.Protocol.Theorems.Replay

namespace AutoDeploy.Protocol

open Function Lib Lib.Result Queue Store Deployment

-- The block of an activation is in its operation and in one event; the attempt, its job and its deployment stay.
structure RecordsBlock (db db' : DB) (attemptID : Nat) : Prop where
  attempts : db'.attempts = db.attempts
  jobs : db'.jobs = db.jobs
  deployments : db'.deployments = db.deployments
  operation : ∃ operationID op op', db.operations.get? operationID = some op ∧ op.attemptID = attemptID ∧
    op.state = .switchAuthorized ∧ db'.operations.get? operationID = some op' ∧ op'.attemptID = attemptID ∧
    op'.state = .reconciliationRequired
  event : ∃ e, db'.jobEvents = db.jobEvents ++ [e] ∧ e.eventType = .activationReconciliationRequired ∧
    e.attemptID = some attemptID

-- The sweeper has nothing more to do for the attempt: it is closed, or its block is recorded.
def Handled (v : View) (attemptID : Nat) : Prop :=
  At v.attempts attemptID fun a => a.state = .leased →
    ∃ operationID, At v.operations operationID fun op => op.attemptID = attemptID ∧ op.state = .reconciliationRequired

section

variable {db db' : DB} {now draw attemptID operationID : Nat} {attempt : Attempt} {slot : Slot} {job : Job} {s : Snapshot}
  {op : Operation} {v v' : View} {kind : Kind}

theorem attemptUnresolved_of_row (hop : db.operations.get? operationID = some op) (hof : op.attemptID = attemptID)
    (hopen : unresolvedActivation op.state = true) : AttemptUnresolved (view db) attemptID :=
  ⟨operationID, op, hop, hof, hopen⟩

-- Ending an attempt handles it, and keeps whatever is handled.
theorem Handled.close {attempt' : Attempt} {id : Nat} {operations : Nat → Option Operation} (h : Handled v attemptID)
    (hclosed : attempt'.state ≠ .leased)
    (hrest : ∀ {o op}, v.operations o = some op → op.attemptID ≠ id → operations o = some op) :
    At (update v.attempts id (some attempt')) attemptID fun a => a.state = .leased →
      ∃ o, At operations o fun op => op.attemptID = attemptID ∧ op.state = .reconciliationRequired := by
  by_cases hid : attemptID = id
  · subst hid
    exact At.write_self fun hleased => absurd hleased hclosed
  · refine (h.imp fun a ha hleased => ?_).write_of_ne hid
    obtain ⟨o, op, hop, hof, hstate⟩ := ha hleased
    exact ⟨o, op, hrest hop (by rw [hof]; exact hid), hof, hstate⟩

-- ... as does a write of the operation of another attempt, or one that keeps the block.
theorem Handled.write_operation {op' : Operation} (h : Handled v attemptID)
    (hrow : v.operations operationID = some op) (hof : op'.attemptID = op.attemptID)
    (hkeep : op.state = .reconciliationRequired → op'.state = .reconciliationRequired) :
    At v.attempts attemptID fun a => a.state = .leased →
      ∃ o, At (update v.operations operationID (some op')) o fun op =>
        op.attemptID = attemptID ∧ op.state = .reconciliationRequired := by
  refine h.imp fun a ha hleased => ?_
  obtain ⟨o, hblock⟩ := ha hleased
  exact ⟨o, hblock.write hrow fun _ hold => ⟨hof.trans hold.1, hkeep hold.2⟩⟩

-- Nothing brings an attempt back to the sweeper.
theorem Handled.effect (h : Handled v attemptID) (he : Effect now v kind v') : Handled v' attemptID := by
  cases he with
  | openSlot _ => exact h
  | freeze _ => exact h
  | candidate _ _ _ _ _ _ _ => exact h
  | lease _ _ _ _ _ _ _ _ hfresh _ _ _ _ _ _ =>
      refine At.write_of_ne h fun hid => ?_
      obtain ⟨a, hrow, -⟩ := h
      exact absurd (hfresh hrow) (by omega)
  | renew hholds _ => exact At.write h hholds.attemptRow fun _ ha => ha
  | close _ _ hclosed _ _ _ _ _ _ _ _ _ => exact h.close hclosed fun hop _ => hop
  | cancel _ _ _ _ _ _ => exact h
  | mark _ _ _ hattempt _ _ _ _ _ _ => exact At.write h hattempt fun _ ha => ha
  | progress _ _ _ _ => exact h
  | authorize _ _ _ _ _ hfresh _ _ _ _ _ _ _ _ _ _ _ =>
      refine At.imp h fun a ha hleased => ?_
      obtain ⟨o, hblock⟩ := ha hleased
      exact ⟨o, hblock.insert hfresh⟩
  | block _ hoperation _ _ _ _ _ _ => exact h.write_operation hoperation rfl fun _ => rfl
  | evidence hoperation _ _ _ _ => exact h.write_operation hoperation rfl fun hstate => hstate
  | trace _ _ => exact h
  | @activate id operationID _ _ _ _ _ op _ _ _ _ _ _ hoperation hof _ _ _ _ _ _ _ _ _ _ _ _ =>
      refine h.close (by simp) fun {o op'} hop hne => ?_
      have hother : o ≠ operationID := by
        rintro rfl
        rw [hoperation] at hop
        cases hop
        exact hne hof
      simpa [hother] using hop
  | @abandon id operationID _ _ _ _ _ op _ _ _ _ hoperation hof _ _ _ _ _ _ _ =>
      refine h.close (by simp) fun {o op'} hop hne => ?_
      have hother : o ≠ operationID := by
        rintro rfl
        rw [hoperation] at hop
        cases hop
        exact hne hof
      simpa [hother] using hop
  | clear _ _ _ _ _ => exact h
  | createHead _ _ => exact h
  | rename _ _ _ _ _ => exact h

theorem Handled.effects {permitted : Kind → Prop} (h : Handled v attemptID) (hinv : Inv v)
    (he : Effects now permitted v v') : Handled v' attemptID :=
  (he.preserves (P := fun v => Handled v attemptID) hinv h fun _ _ _ _ _ h he => h.effect he).2

-- What is selected: an expired lease whose activation, if it holds one that is not resolved, is not blocked yet.
theorem of_mem_discoverExpired {limit : Nat} (h : attemptID ∈ discoverExpired db now limit) :
    ∃ a, db.attempts.get? attemptID = some a ∧ a.state = .leased ∧ a.authorityExpiresAt ≤ now ∧
      ∀ o op, db.operations.get? o = some op → op.attemptID = attemptID → op.environmentID = a.environmentID →
        unresolvedActivation op.state = true → op.state = .switchAuthorized := by
  unfold discoverExpired at h
  obtain ⟨⟨id, a⟩, hrow, rfl⟩ := List.mem_map.1 h
  have hselected := (List.perm_insertionSort expiresBefore _).mem_iff.1 (List.mem_of_mem_take hrow)
  obtain ⟨hattempt, hcond⟩ := (Table.mem_select _ _ _ _).1 hselected
  simp only [Bool.and_eq_true, beq_iff_eq, decide_eq_true_eq, Bool.not_eq_true'] at hcond
  refine ⟨a, hattempt, hcond.1.1, hcond.1.2, fun o op hop hof henvironment hopen => ?_⟩
  by_contra hstate
  simpa [hof, henvironment, hopen, hstate] using Table.any_eq_false hcond.2 hop

-- An attempt that is handled is not selected again.
theorem Handled.not_discovered (h : Handled (view db) attemptID) (hinv : Inv (view db)) (limit : Nat) :
    attemptID ∉ discoverExpired db now limit := by
  intro hmem
  obtain ⟨a, hrow, hleased, -, honly⟩ := of_mem_discoverExpired hmem
  obtain ⟨o, op, hop, hof, hstate⟩ := h.of_row hrow hleased
  have henvironment := ((hinv.activations.ofAttempt o op hop).of_row (hof ▸ hrow)).environment
  have hswitch := honly o op hop hof henvironment (by simp [hstate])
  rw [hstate] at hswitch
  cases hswitch

-- The block in detail.
theorem block_records {summary : Bytes} (hopen : Open (view db) attemptID operationID attempt slot job op)
    (hinv : Inv (view db)) (hstate : op.state = .switchAuthorized)
    (h : blockActivationForReconciliation now db attempt.jobID attemptID operationID attempt.environmentID summary =
      .ok db') : RecordsBlock db db' attemptID := by
  obtain ⟨head, hhead, -⟩ := hopen.head hinv
  have hhead' : db.routeHeads.get? attempt.environmentID = some head := hhead
  simp only [blockActivationForReconciliation, bind_eq_ok, during_eq_ok, require_eq_ok, Prod.exists, hhead',
    pure_eq_ok] at h
  obtain ⟨db₁, n, hoperation, _, -, db₂, hflag, db₃, m, hslot, _, -, rfl⟩ := h
  obtain ⟨-, rfl, -⟩ := (updateOperation_iff hopen.operationRow (by simp [hstate])).1 hoperation
  obtain ⟨heads, rfl, -⟩ := flag_eq_ok hflag hhead
  obtain ⟨-, rfl, -⟩ := (updateSlot_iff (by exact hopen.holds.slotRow) rfl).1 hslot
  exact ⟨rfl, rfl, rfl, ⟨operationID, op, _, hopen.operationRow, hopen.ofAttempt, hstate, Table.get?_put_self _ _ _,
    hopen.ofAttempt, rfl⟩, ⟨_, rfl, rfl, rfl⟩⟩

-- The end of a lease in detail.
theorem closeAttemptOrdinary_closes (hinv : Inv (view db)) (hh : Holds (view db) attemptID attempt slot job)
    (h : closeAttemptOrdinary now draw db attempt.jobID attemptID attempt.environmentID attempt.attemptNumber
      job.deploymentID job.cancelRequestedAt.isSome = .ok db') :
    At db'.attempts.get? attemptID fun a => a.state ≠ .leased := by
  have hleased := ((hinv.occupancy.holds_fitsJob hh).leased hh.leased).1
  obtain ⟨s, hs, -⟩ := hinv.pipeline.fitsDeployment _ _ hh.jobRow
  simp only [closeAttemptOrdinary, bind_eq_ok, during_eq_ok, Prod.exists, pure_eq_ok] at h
  obtain ⟨db₁, _, hattempt, db₂, _, hslot, db₃, hjob, db₄, hdeployment, rfl⟩ := h
  obtain ⟨-, rfl, -⟩ := (updateAttempt_iff hh.attemptRow rfl).1 hattempt
  obtain ⟨-, rfl, -⟩ := (updateSlot_iff (by exact hh.slotRow) rfl).1 hslot
  obtain ⟨-, rfl⟩ := (endJob_iff (by exact hh.jobRow) hleased).1 hjob
  obtain ⟨deployments, s', rfl, -, -⟩ := closure_ends hdeployment hinv.pipeline.stored hs
  obtain ⟨events, -, -, hview⟩ := view_appendEvents (setDeployments (putJob (putSlot (putAttempt db attemptID _)
    attempt.environmentID _) attempt.jobID _) deployments) attempt.jobID attemptID
    (closureEvents job.cancelRequestedAt.isSome (closedJobState job.cancelRequestedAt.isSome attempt.attemptNumber))
  have hattempts := congrArg View.attempts hview
  simp only [view_setDeployments, view_putJob, view_putSlot, view_putAttempt] at hattempts
  refine ⟨_, (congrFun hattempts attemptID).trans (update_self _ _ _), ?_⟩
  split <;> simp

-- How a lease whose authority ended is ended: closed, found blocked already, or blocked now.
inductive LeaseEnds (db db' : DB) (attemptID : Nat) : Bool → Prop
  | closed (hresolved : ¬ AttemptUnresolved (view db) attemptID)
      (hclosed : At db'.attempts.get? attemptID fun a => a.state ≠ .leased) : LeaseEnds db db' attemptID false
  | kept {operationID : Nat} (hblocked : At db.operations.get? operationID fun op => op.attemptID = attemptID ∧
      op.state = .reconciliationRequired) (hsame : db' = db) : LeaseEnds db db' attemptID true
  | blocked (hrecords : RecordsBlock db db' attemptID) : LeaseEnds db db' attemptID true

theorem closeExpiredOrRevokedAttempt_ends {diverted : Bool} (hinv : Inv (view db))
    (hh : Holds (view db) attemptID attempt slot job)
    (h : closeExpiredOrRevokedAttempt now draw db attempt.jobID attemptID attempt.environmentID attempt.attemptNumber
      job.deploymentID job.cancelRequestedAt.isSome = .ok (db', diverted)) : LeaseEnds db db' attemptID diverted := by
  simp only [closeExpiredOrRevokedAttempt, divertUnresolvedActivation] at h
  split at h
  · rename_i hnone
    simp only [pure_bind, Bool.false_eq_true, if_false, bind_eq_ok, pure_eq_ok, Prod.mk.injEq] at h
    obtain ⟨db₁, hclose, rfl, rfl⟩ := h
    exact .closed (findUnresolved_none hinv hh hnone) (closeAttemptOrdinary_closes hinv hh hclose)
  · rename_i operationID op hfind
    obtain ⟨hop, hof⟩ := Table.find?_some hfind
    simp only [Bool.and_eq_true, beq_iff_eq] at hof
    split at h
    · rename_i hstate
      simp only [pure_bind, if_true, pure_eq_ok, Prod.mk.injEq] at h
      obtain ⟨rfl, rfl⟩ := h
      refine .kept ⟨op, hop, hof.1.1, ?_⟩ rfl
      have hstarted := (hinv.activations.checked operationID op hop).2
      have hopen := hof.2
      cases hcase : op.state with
      | started => exact absurd hcase hstarted
      | switchAuthorized => exact absurd hcase hstate
      | reconciliationRequired => rfl
      | succeeded => simp [hcase] at hopen
      | failed => simp [hcase] at hopen
    · rename_i hstate
      simp only [ne_eq, not_not] at hstate
      simp only [bind_assoc, pure_bind, if_true, bind_eq_ok, pure_eq_ok, Prod.mk.injEq] at h
      obtain ⟨db₁, hblock, rfl, rfl⟩ := h
      exact .blocked (block_records ⟨hh, hop, hof.1.1, hof.2⟩ hinv hstate hblock)

theorem LeaseEnds.handled {diverted : Bool} (h : LeaseEnds db db' attemptID diverted)
    (hrow : db.attempts.get? attemptID = some attempt) : Handled (view db') attemptID := by
  cases h with
  | closed _ hclosed => exact hclosed.imp fun a ha hleased => absurd hleased ha
  | kept hblocked hsame =>
      subst hsame
      exact ⟨attempt, hrow, fun _ => ⟨_, hblocked⟩⟩
  | blocked hrecords =>
      obtain ⟨o, op, op', -, -, -, hop', hof, hstate⟩ := hrecords.operation
      have hrow' : db'.attempts.get? attemptID = some attempt := hrecords.attempts ▸ hrow
      exact ⟨attempt, hrow', fun _ => ⟨o, op', hop', hof, hstate⟩⟩

-- A retry of a lease that ran out is always later than the time the job was available before.
theorem Timed.later (h : Timed now db) (hh : Holds (view db) attemptID attempt slot job)
    (hexpired : attempt.authorityExpiresAt ≤ now) (hunmarked : job.cancelRequestedAt = none) : job.availableAt < now := by
  have hfits := h.sound.inv.occupancy.holds_fitsJob hh
  have hnone : attempt.cancelDeadlineAt = none := by
    cases hdeadline : attempt.cancelDeadlineAt with
    | none => rfl
    | some d =>
        obtain ⟨t, ht, -⟩ := hfits.deadline d hdeadline
        rw [hunmarked] at ht
        cases ht
  have hlease := ((h.clocked.leases attemptID attempt hh.attemptRow hh.leased).of_row hh.jobRow).2 hnone
  have hpositive : 0 < leaseDuration := by decide
  omega

theorem Timed.endable (h : Timed now db) (hh : Holds (view db) attemptID attempt slot job)
    (hs : db.deployments.get? job.deploymentID = some s) (hexpired : attempt.authorityExpiresAt ≤ now) :
    Endable now draw attempt slot job s where
  slotDated := h.clocked.slots _ slot hh.slotRow
  jobDated := h.clocked.jobs _ job hh.jobRow
  retry hunmarked _ := Nat.lt_of_lt_of_le (h.later hh hexpired hunmarked) (Nat.le_add_right _ _)
  deployment _ := h.clocked.deployments _ s hs

theorem Timed.blockable (h : Timed now db) (environmentID : String) : Blockable now (view db) attemptID environmentID where
  operations := fun id op hop _ => h.clocked.operations id op hop
  head := fun head hhead => (h.clocked.routeHeads environmentID head hhead).1.trans (Nat.le_max_right _ _)

theorem expireOne_ends (draw : Nat) (h : Timed now db) (hh : Holds (view db) attemptID attempt slot job)
    (hexpired : attempt.authorityExpiresAt ≤ now) :
    ∃ db' diverted, expireOne now draw db attemptID = .ok (db', !diverted) ∧ LeaseEnds db db' attemptID diverted := by
  have hinv := h.sound.inv
  obtain ⟨s, hs, -⟩ := hinv.pipeline.fitsDeployment _ _ hh.jobRow
  have hend : Endable now draw attempt slot job s := h.endable hh hs hexpired
  obtain ⟨⟨db', diverted⟩, hclose⟩ := closeExpiredOrRevokedAttempt_accepted hinv h.positive hh hs (fun _ => hend)
    (fun _ _ _ _ _ => hend.slotDated) (h.blockable _)
  refine ⟨db', diverted, ?_, closeExpiredOrRevokedAttempt_ends hinv hh hclose⟩
  simp [expireOne, inFlight_of_holds hinv hh, Nat.not_lt.2 hexpired, hclose]

-- A recorded block is not recorded again.
theorem expireOne_blocked (draw : Nat) (h : Timed now db) (hh : Holds (view db) attemptID attempt slot job)
    (hexpired : attempt.authorityExpiresAt ≤ now) (hblocked : At db.operations.get? operationID fun op =>
      op.attemptID = attemptID ∧ op.state = .reconciliationRequired) :
    expireOne now draw db attemptID = .ok (db, false) := by
  obtain ⟨op, hop, hof, hstate⟩ := hblocked
  obtain ⟨db', diverted, hone, hends⟩ := expireOne_ends draw h hh hexpired
  cases hends with
  | closed hresolved _ => exact absurd ⟨operationID, op, hop, hof, by simp [hstate]⟩ hresolved
  | kept _ hsame => exact hsame ▸ hone
  | blocked hrecords =>
      -- an attempt has one operation, and this one is not open for a block
      obtain ⟨other, op', -, hop', hof', hstate', -⟩ := hrecords.operation
      have hsame := h.sound.inv.activations.unique other op' hop' operationID op hop (hof'.trans hof.symm)
      subst hsame
      cases hop'.symm.trans hop
      cases hstate.symm.trans hstate'

-- Whatever the attempt, the sweeper goes on.
theorem expireOne_accepted (h : Timed now db) (draw attemptID : Nat) : Succeeds (expireOne now draw db attemptID) := by
  unfold expireOne
  split
  · exact .pure _
  · rename_i attempt job hflight
    obtain ⟨slot, hh, -⟩ := inFlight_eq_some hflight
    split
    · exact .pure _
    · rename_i hexpired
      obtain ⟨db', diverted, hone, -⟩ := expireOne_ends draw h hh (Nat.le_of_not_lt hexpired)
      simp only [expireOne, hflight, if_neg hexpired] at hone
      exact ⟨_, hone⟩

theorem expireOne_handles {deadline : Nat} {closed : Bool} (h : Timed now db) (hlapsed : Lapsed (view db) attemptID deadline)
    (hpassed : deadline ≤ now) (hone : expireOne now draw db attemptID = .ok (db', closed)) :
    Handled (view db') attemptID := by
  obtain ⟨a, hrow, hdeadline⟩ := hlapsed
  by_cases hleased : a.state = .leased
  · obtain ⟨slot, job, hh⟩ := h.sound.inv.occupancy.holds hrow hleased
    obtain ⟨db₁, diverted, hends, hlease⟩ := expireOne_ends draw h hh (hdeadline ▸ hpassed)
    rw [hone] at hends
    cases hends
    exact hlease.handled hrow
  · have hhandled : Handled (view db) attemptID := ⟨a, hrow, fun h => absurd h hleased⟩
    exact hhandled.effects h.sound.inv (expireOne_effects h.sound.inv hone)

-- A pass over attempts whose authority has ended, at readings of a clock that does not go back: it comes to its end,
-- and the sweeper is done with each of them.
theorem expireLoop_accepted {clock : Nat} (entries : List (Nat × Nat × Nat)) (processed : Nat) (h : Timed clock db)
    (hclock : (clock :: entries.map fun entry => entry.2.1).IsChain (· ≤ ·))
    (hexpired : ∀ entry ∈ entries, ∃ deadline, Lapsed (view db) entry.1 deadline ∧ deadline ≤ clock) :
    ∃ db' n, expireLoop entries db processed = (db', .ok n) ∧ Inv (view db') ∧
      ∀ id, (Handled (view db) id ∨ id ∈ entries.map Prod.fst) → Handled (view db') id := by
  induction entries generalizing db clock processed with
  | nil => exact ⟨db, processed, rfl, h.sound.inv, fun id hid => by simpa using hid⟩
  | cons entry rest ih =>
      obtain ⟨attemptID, now, draw⟩ := entry
      simp only [List.map_cons, List.isChain_cons_cons] at hclock
      have h' := h.mono hclock.1
      obtain ⟨⟨db₁, closed⟩, hone⟩ := expireOne_accepted h' draw attemptID
      have heffects := expireOne_effects h'.sound.inv hone
      have h₁ : Timed now db₁ := by
        have hexec := h'.exec (Nat.le_refl now) (.expireOne draw attemptID)
        simpa [exec, hone, committed] using hexec
      obtain ⟨db', n, hloop, hinv', hhandled⟩ := ih (if closed then processed + 1 else processed) h₁ hclock.2
        fun entry hentry => by
          obtain ⟨deadline, hlapsed, hpassed⟩ := hexpired entry (List.mem_cons_of_mem _ hentry)
          exact ⟨deadline, hlapsed.effects (hpassed.trans hclock.1) h'.sound.inv heffects, hpassed.trans hclock.1⟩
      refine ⟨db', n, by simp [expireLoop, hone, hloop], hinv', fun id hid => hhandled id ?_⟩
      rcases hid with hid | hid
      · exact .inl (hid.effects h'.sound.inv heffects)
      · rcases List.mem_cons.1 hid with rfl | hid
        · obtain ⟨deadline, hlapsed, hpassed⟩ := hexpired _ List.mem_cons_self
          exact .inl (expireOne_handles h' hlapsed (hpassed.trans hclock.1) hone)
        · exact .inr hid

-- The sweeper goes on for ever: each attempt it selects is closed unless it holds an unresolved activation, whose block
-- is then recorded; and a pass as a whole succeeds and leaves nothing it has seen to a later pass.
theorem sweeper_never_poisoned {clock : Nat} (h : timedSystem.Reachable (clock, db)) :
    (∀ now limit attemptID, clock ≤ now → attemptID ∈ discoverExpired db now limit → ∀ later draw, now ≤ later →
      ∃ db' closed, expireOne later draw db attemptID = .ok (db', closed) ∧
        (closed = true ↔ ¬ AttemptUnresolved (view db) attemptID) ∧
        (closed = true → At db'.attempts.get? attemptID fun a => a.state ≠ .leased) ∧
        (closed = false → RecordsBlock db db' attemptID ∧
          ∀ again draw', later ≤ again → expireOne again draw' db' attemptID = .ok (db', false))) ∧
    ∀ now limit readings, clock ≤ now →
      (now :: (discoverExpired db now (min limit expireBatchMaxLimit)).map fun id => (readings id).1).IsChain (· ≤ ·) →
      ∃ db' n, expireBatch now readings db limit = (db', .ok n) ∧
        ∀ attemptID ∈ discoverExpired db now (min limit expireBatchMaxLimit), limit ≠ 0 →
          ∀ again limit', attemptID ∉ discoverExpired db' again limit' := by
  have htimed := timed_of_reachable h
  refine ⟨fun now limit attemptID hnow hmem later draw hlater => ?_, fun now limit readings hnow hchain => ?_⟩
  · have hlate := htimed.mono (hnow.trans hlater)
    have hinv := hlate.sound.inv
    obtain ⟨a, hrow, hleased, hexpired, honly⟩ := of_mem_discoverExpired hmem
    obtain ⟨slot, job, hh⟩ := hinv.occupancy.holds hrow hleased
    obtain ⟨db', diverted, hone, hends⟩ := expireOne_ends draw hlate hh (hexpired.trans hlater)
    refine ⟨db', !diverted, hone, ?_⟩
    cases hends with
    | closed hresolved hclosed => exact ⟨by simpa using hresolved, fun _ => hclosed, by simp⟩
    | kept hblocked _ =>
        -- an attempt whose block is recorded is not selected
        have hhandled : Handled (view db) attemptID := ⟨a, hrow, fun _ => ⟨_, hblocked⟩⟩
        exact absurd hmem (hhandled.not_discovered hinv limit)
    | blocked hrecords =>
        obtain ⟨o, op, op', hop, hof, hstate, hop', hof', hstate'⟩ := hrecords.operation
        have hunresolved := attemptUnresolved_of_row hop hof (by simp [hstate])
        refine ⟨by simpa using hunresolved, by simp, fun _ => ⟨hrecords, fun again draw' hagain => ?_⟩⟩
        have htimed' : Timed again db' := by
          have hexec := hlate.exec (Nat.le_refl later) (.expireOne draw attemptID)
          simp only [exec, hone, committed] at hexec
          exact hexec.mono hagain
        have hrow' : db'.attempts.get? attemptID = some a := hrecords.attempts ▸ hrow
        obtain ⟨slot', job', hh'⟩ := htimed'.sound.inv.occupancy.holds hrow' hleased
        exact expireOne_blocked draw' htimed' hh' ((hexpired.trans hlater).trans hagain) ⟨op', hop', hof', hstate'⟩
  · by_cases hzero : limit = 0
    · exact ⟨db, 0, by simp [expireBatch, hzero], fun _ _ hne => absurd hzero hne⟩
    · have hlate := htimed.mono hnow
      obtain ⟨db', n, hloop, hinv', hhandled⟩ := expireLoop_accepted
        ((discoverExpired db now (min limit expireBatchMaxLimit)).map fun id => (id, readings id)) 0 hlate
        (by simpa [Function.comp_def] using hchain) fun entry hentry => by
          obtain ⟨id, hid, rfl⟩ := List.mem_map.1 hentry
          obtain ⟨a, hrow, -, hexpired, -⟩ := of_mem_discoverExpired hid
          exact ⟨a.authorityExpiresAt, ⟨a, hrow, rfl⟩, hexpired⟩
      refine ⟨db', n, by simpa [expireBatch, hzero] using hloop, fun attemptID hmem _ again limit' => ?_⟩
      refine (hhandled attemptID (.inr ?_)).not_discovered hinv' limit'
      simpa [Function.comp_def] using hmem

theorem sampleAuthorized_timed : timedSystem.Reachable (6000, sampleAuthorized) := by
  refine @timed_execAll 1 sampleDB [(1000, _), (2000, _), (3000, _), (4000, _), (5000, _), (6000, _)] sampleDB_timed
    (by simp) fun step hstep => ?_
  simp only [List.mem_cons, List.not_mem_nil, or_false] at hstep
  rcases hstep with rfl | rfl | rfl | rfl | rfl | rfl <;> trivial

theorem sweeper_never_poisoned_authorized :
    1 ∈ discoverExpired sampleAuthorized (10 ^ 12) 100 ∧
    ∃ db', expireOne (10 ^ 12) 7 sampleAuthorized 1 = .ok (db', false) ∧ RecordsBlock sampleAuthorized db' 1 := by
  have hmem : 1 ∈ discoverExpired sampleAuthorized (10 ^ 12) 100 := by
    rw [sampleAuthorized_eq]
    decide +kernel
  have hopen : ((sampleAuthorized.operations.get? 1).map fun op => (op.attemptID, op.state)) =
      some (1, .switchAuthorized) := by
    rw [sampleAuthorized_eq]
    decide +kernel
  obtain ⟨op, hop, hfields⟩ := Option.map_eq_some_iff.1 hopen
  obtain ⟨hof, hstate⟩ := Prod.mk.inj hfields
  have hunresolved := attemptUnresolved_of_row hop hof (by rw [hstate]; rfl)
  obtain ⟨db', closed, hone, hiff, -, hblocked⟩ := (sweeper_never_poisoned sampleAuthorized_timed).1 (10 ^ 12) 100 1
    (by norm_num) hmem (10 ^ 12) 7 (Nat.le_refl _)
  have hclosed : closed = false := by
    by_contra hclosed
    exact hiff.1 (by simpa using hclosed) hunresolved
  subst hclosed
  exact ⟨hmem, db', hone, (hblocked rfl).1⟩

end

end AutoDeploy.Protocol
