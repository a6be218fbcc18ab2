import AutoDeploy.Protocol.Invariant

namespace AutoDeploy.Protocol

open Function Lib Queue Store Deployment

-- What one effect can do to one row.

-- An attempt: renewed, capped or closed while it is leased, and otherwise left alone.
inductive Ages (now : Nat) (kind : Kind) (attempt : Attempt) : Attempt → Prop
  | same : Ages now kind attempt attempt
  | renew (hkind : kind = .renews) (hleased : attempt.state = .leased) (hlive : now < attempt.authorityExpiresAt) :
      Ages now kind attempt { attempt with
        renewalSequence := attempt.renewalSequence + 1
        leaseExpiresAt := renewedExpiry now attempt
        authorityExpiresAt := renewedExpiry now attempt }
  | cap (hleased : attempt.state = .leased) :
      Ages now kind attempt { attempt with
        cancelDeadlineAt := some (now + cancellationGrace)
        leaseExpiresAt := min attempt.leaseExpiresAt (now + cancellationGrace)
        authorityExpiresAt := min attempt.authorityExpiresAt (now + cancellationGrace) }
  | close {state : AttemptState} {failureClass : Option FailureClass} {result : Option (String × Digest)}
      (hleased : attempt.state = .leased) (hclosed : state ≠ .leased) :
      Ages now kind attempt { attempt with
        state := state, closedAt := some now, failureClass := failureClass, result := result }

-- A new attempt: the lease of a waiting job that is not marked, on a free and unflagged slot.
structure LeaseOf (now : Nat) (v : View) (attempt : Attempt) (jobID : Nat) (job : Job) (slot : Slot) : Prop where
  leased : attempt = leasedAttempt now jobID job slot
  jobRow : v.jobs jobID = some job
  idle : job.state = .queued ∨ job.state = .retryWait
  unmarked : job.cancelRequestedAt = none
  slotRow : v.slots job.environmentID = some slot
  free : slot.currentAttemptID = none
  unflagged : slot.reconciliationAttemptID = none

section

variable {now id : Nat} {v v' : View} {kind : Kind} {attempt attempt' : Attempt} {op op' : Operation}

theorem Ages.of_closed (h : Ages now kind attempt attempt') (hclosed : attempt.state ≠ .leased) : attempt' = attempt := by
  cases h with
  | same => rfl
  | renew _ hleased _ => exact absurd hleased hclosed
  | cap hleased => exact absurd hleased hclosed
  | close hleased _ => exact absurd hleased hclosed

theorem Ages.write {attemptID : Nat} {old new : Attempt} (hrow : v.attempts id = some attempt)
    (hold : v.attempts attemptID = some old) (hages : Ages now kind old new) :
    At (update v.attempts attemptID (some new)) id (Ages now kind attempt) := by
  by_cases hid : id = attemptID
  · subst hid
    rw [hrow] at hold
    cases hold
    exact .intro (update_self _ _ _) hages
  · exact .intro ((update_of_ne hid _ _).trans hrow) .same

theorem Effect.attempt_ages (he : Effect now v kind v') (hrow : v.attempts id = some attempt) :
    At v'.attempts id (Ages now kind attempt) := by
  have hsame : At v.attempts id (Ages now kind attempt) := .intro hrow .same
  cases he with
  | openSlot _ => exact hsame
  | freeze _ => exact hsame
  | candidate _ _ _ _ _ _ _ => exact hsame
  | lease _ _ _ _ _ _ _ _ hfresh _ _ _ _ _ _ =>
      exact hsame.write_of_ne (Nat.ne_of_lt (hfresh hrow))
  | renew hholds hlive => exact Ages.write hrow hholds.attemptRow (.renew rfl hholds.leased hlive)
  | close hholds _ hclosed _ _ _ _ _ _ _ _ _ => exact Ages.write hrow hholds.attemptRow (.close hholds.leased hclosed)
  | cancel _ _ _ _ _ _ => exact hsame
  | mark _ _ _ hattempt hleased _ _ _ _ _ => exact Ages.write hrow hattempt (.cap hleased)
  | progress _ _ _ _ => exact hsame
  | authorize _ _ _ _ _ _ _ _ _ _ _ _ _ _ _ _ _ => exact hsame
  | block _ _ _ _ _ _ _ _ => exact hsame
  | evidence _ _ _ _ _ => exact hsame
  | trace _ _ => exact hsame
  | activate hholds _ _ _ _ _ _ _ _ _ _ _ _ _ _ =>
      exact Ages.write hrow hholds.attemptRow (.close hholds.leased (by simp))
  | @abandon _ _ attempt₀ _ _ _ _ _ _ _ _ hholds _ _ _ _ _ _ _ _ _ =>
      have hages : Ages now .other attempt₀ { attempt₀ with state := .expired, closedAt := some now } :=
        .close hholds.leased (by simp)
      exact Ages.write hrow hholds.attemptRow hages
  | clear _ _ _ _ _ => exact hsame
  | createHead _ _ => exact hsame
  | rename _ _ _ _ _ => exact hsame

-- A closed attempt never changes.
theorem Effect.closed_attempt (he : Effect now v kind v') (hrow : v.attempts id = some attempt)
    (hclosed : attempt.state ≠ .leased) : v'.attempts id = some attempt := by
  obtain ⟨attempt', hrow', hages⟩ := he.attempt_ages hrow
  rw [hages.of_closed hclosed] at hrow'
  exact hrow'

-- A new attempt is a lease, numbered above every other attempt.
theorem Effect.new_attempt (he : Effect now v kind v') (hnone : v.attempts id = none)
    (hrow : v'.attempts id = some attempt) :
    kind = .leases ∧ (∃ jobID job slot, LeaseOf now v attempt jobID job slot) ∧
      ∀ other attempt', v.attempts other = some attempt' → other < id := by
  have hold {k : Nat} {a a' : Attempt} (hk : v.attempts k = some a)
      (h : update v.attempts k (some a') id = some attempt) : False := by
    rcases update_eq_some.1 h with ⟨rfl, -⟩ | ⟨-, h⟩
    · rw [hnone] at hk
      cases hk
    · rw [hnone] at h
      cases h
  have hsame (h : v.attempts id = some attempt) : False := by
    rw [hnone] at h
    cases h
  cases he with
  | openSlot _ => exact (hsame hrow).elim
  | freeze _ => exact (hsame hrow).elim
  | candidate _ _ _ _ _ _ _ => exact (hsame hrow).elim
  | lease hjob hslot hfree hunflagged hstate hcancel _ _ hfresh _ _ _ _ _ _ =>
      rcases update_eq_some.1 hrow with ⟨rfl, rfl⟩ | ⟨-, h⟩
      · exact ⟨rfl, ⟨_, _, _, rfl, hjob, hstate, hcancel, hslot, hfree, hunflagged⟩, fun _ _ h => hfresh h⟩
      · exact (hsame h).elim
  | renew hholds _ => exact (hold hholds.attemptRow hrow).elim
  | close hholds _ _ _ _ _ _ _ _ _ _ _ => exact (hold hholds.attemptRow hrow).elim
  | cancel _ _ _ _ _ _ => exact (hsame hrow).elim
  | mark _ _ _ hattempt _ _ _ _ _ _ => exact (hold hattempt hrow).elim
  | progress _ _ _ _ => exact (hsame hrow).elim
  | authorize _ _ _ _ _ _ _ _ _ _ _ _ _ _ _ _ _ => exact (hsame hrow).elim
  | block _ _ _ _ _ _ _ _ => exact (hsame hrow).elim
  | evidence _ _ _ _ _ => exact (hsame hrow).elim
  | trace _ _ => exact (hsame hrow).elim
  | activate hholds _ _ _ _ _ _ _ _ _ _ _ _ _ _ => exact (hold hholds.attemptRow hrow).elim
  | abandon hholds _ _ _ _ _ _ _ _ _ => exact (hold hholds.attemptRow hrow).elim
  | clear _ _ _ _ _ => exact (hsame hrow).elim
  | createHead _ _ => exact (hsame hrow).elim
  | rename _ _ _ _ _ => exact (hsame hrow).elim

-- A slot's fence never decreases, and only a leased attempt flags a slot.
def SlotMoves (v : View) (slot slot' : Slot) : Prop :=
  slot.fence ≤ slot'.fence ∧ ∀ id, slot'.reconciliationAttemptID = some id →
    slot.reconciliationAttemptID = some id ∨ At v.attempts id fun a => a.state = .leased

theorem SlotMoves.write {environmentID other : String} {slot old new : Slot}
    (hrow : v.slots environmentID = some slot) (hold : v.slots other = some old) (hmoves : SlotMoves v old new) :
    At (update v.slots other (some new)) environmentID (SlotMoves v slot) := by
  by_cases henv : environmentID = other
  · subst henv
    rw [hrow] at hold
    cases hold
    exact .intro (update_self _ _ _) hmoves
  · exact .intro ((update_of_ne henv _ _).trans hrow) ⟨Nat.le_refl _, fun _ h => .inl h⟩

theorem Effect.slot_moves {environmentID : String} {slot : Slot} (he : Effect now v kind v')
    (hrow : v.slots environmentID = some slot) : At v'.slots environmentID (SlotMoves v slot) := by
  have hsame : At v.slots environmentID (SlotMoves v slot) := .intro hrow ⟨Nat.le_refl _, fun _ h => .inl h⟩
  cases he with
  | openSlot hnone => exact hsame.insert hnone
  | freeze _ => exact hsame
  | candidate _ _ _ _ _ _ _ => exact hsame
  | lease _ hslot _ _ _ _ _ _ _ _ _ _ _ _ _ =>
      exact SlotMoves.write hrow hslot ⟨Nat.le_succ _, fun _ h => .inl h⟩
  | renew _ _ => exact hsame
  | close hholds _ _ _ hvacates _ _ _ _ _ _ _ =>
      refine SlotMoves.write hrow hholds.slotRow ?_
      cases hvacates with
      | free => exact ⟨Nat.le_refl _, fun _ h => .inl h⟩
      | retire =>
          refine ⟨Nat.le_succ _, fun id h => .inr ?_⟩
          cases h
          exact .intro hholds.attemptRow hholds.leased
  | cancel _ _ _ _ _ _ => exact hsame
  | mark _ _ _ _ _ _ _ _ _ _ => exact hsame
  | progress _ _ _ _ => exact hsame
  | authorize _ _ _ _ _ _ _ _ _ _ _ _ _ _ _ _ _ => exact hsame
  | block hholds _ _ _ _ _ _ _ =>
      refine SlotMoves.write hrow hholds.slotRow ⟨Nat.le_refl _, fun id h => .inr ?_⟩
      cases h
      exact .intro hholds.attemptRow hholds.leased
  | evidence _ _ _ _ _ => exact hsame
  | trace _ _ => exact hsame
  | activate hholds _ _ _ _ _ _ _ _ _ _ _ _ _ _ =>
      exact SlotMoves.write hrow hholds.slotRow ⟨Nat.le_refl _, fun _ h => nomatch h⟩
  | abandon hholds _ _ _ _ _ _ _ _ _ =>
      exact SlotMoves.write hrow hholds.slotRow ⟨Nat.le_refl _, fun _ h => nomatch h⟩
  | clear hslot _ _ _ _ => exact SlotMoves.write hrow hslot ⟨Nat.le_refl _, fun _ h => nomatch h⟩
  | createHead _ _ => exact hsame
  | rename _ _ _ _ _ => exact hsame

theorem Effect.new_slot {environmentID : String} {slot : Slot} (he : Effect now v kind v')
    (hnone : v.slots environmentID = none) (hrow : v'.slots environmentID = some slot) :
    slot.reconciliationAttemptID = none := by
  have hsame (h : v.slots environmentID = some slot) : False := by
    rw [hnone] at h
    cases h
  have hold {k : String} {old new : Slot} (hk : v.slots k = some old)
      (h : update v.slots k (some new) environmentID = some slot) : False := by
    rcases update_eq_some.1 h with ⟨rfl, -⟩ | ⟨-, h⟩
    · rw [hnone] at hk
      cases hk
    · exact hsame h
  cases he with
  | openSlot _ =>
      rcases update_eq_some.1 hrow with ⟨-, rfl⟩ | ⟨-, h⟩
      · rfl
      · exact (hsame h).elim
  | freeze _ => exact (hsame hrow).elim
  | candidate _ _ _ _ _ _ _ => exact (hsame hrow).elim
  | lease _ hslot _ _ _ _ _ _ _ _ _ _ _ _ _ => exact (hold hslot hrow).elim
  | renew _ _ => exact (hsame hrow).elim
  | close hholds _ _ _ _ _ _ _ _ _ _ _ => exact (hold hholds.slotRow hrow).elim
  | cancel _ _ _ _ _ _ => exact (hsame hrow).elim
  | mark _ _ _ _ _ _ _ _ _ _ => exact (hsame hrow).elim
  | progress _ _ _ _ => exact (hsame hrow).elim
  | authorize _ _ _ _ _ _ _ _ _ _ _ _ _ _ _ _ _ => exact (hsame hrow).elim
  | block hholds _ _ _ _ _ _ _ => exact (hold hholds.slotRow hrow).elim
  | evidence _ _ _ _ _ => exact (hsame hrow).elim
  | trace _ _ => exact (hsame hrow).elim
  | activate hholds _ _ _ _ _ _ _ _ _ _ _ _ _ _ => exact (hold hholds.slotRow hrow).elim
  | abandon hholds _ _ _ _ _ _ _ _ _ => exact (hold hholds.slotRow hrow).elim
  | clear hslot _ _ _ _ => exact (hold hslot hrow).elim
  | createHead _ _ => exact (hsame hrow).elim
  | rename _ _ _ _ _ => exact (hsame hrow).elim

-- A later state: attempts keep their environment and fence, slots never lower theirs, and new attempts
-- are numbered above the old ones.
structure Extends (v v' : View) : Prop where
  attempts : Every v.attempts fun id attempt => At v'.attempts id fun attempt' =>
    attempt'.environmentID = attempt.environmentID ∧ attempt'.fence = attempt.fence
  slots : Every v.slots fun environmentID slot => At v'.slots environmentID fun slot' => slot.fence ≤ slot'.fence
  numbered : Every v'.attempts fun id _ => v.attempts id = none → Every v.attempts fun other _ => other < id

theorem Extends.refl : Extends v v where
  attempts _ _ hrow := .intro hrow ⟨rfl, rfl⟩
  slots _ _ hrow := .intro hrow (Nat.le_refl _)
  numbered _ _ hrow hnone := by
    rw [hnone] at hrow
    cases hrow

theorem Ages.identity (h : Ages now kind attempt attempt') :
    attempt'.environmentID = attempt.environmentID ∧ attempt'.fence = attempt.fence ∧ attempt'.jobID = attempt.jobID := by
  cases h with
  | same => exact ⟨rfl, rfl, rfl⟩
  | renew _ _ _ => exact ⟨rfl, rfl, rfl⟩
  | cap _ => exact ⟨rfl, rfl, rfl⟩
  | close _ _ => exact ⟨rfl, rfl, rfl⟩

theorem Ages.serverID (h : Ages now kind attempt attempt') : attempt'.serverID = attempt.serverID := by
  cases h with
  | same => rfl
  | renew _ _ _ => rfl
  | cap _ => rfl
  | close _ _ => rfl

theorem Extends.effect {v₀ : View} (h : Extends v₀ v) (he : Effect now v kind v') : Extends v₀ v' where
  attempts id attempt hrow := by
    obtain ⟨attempt₁, hrow₁, henv, hfence⟩ := h.attempts id attempt hrow
    refine (he.attempt_ages hrow₁).imp fun attempt₂ hages => ?_
    exact ⟨hages.identity.1.trans henv, hages.identity.2.1.trans hfence⟩
  slots environmentID slot hrow := by
    obtain ⟨slot₁, hrow₁, hle⟩ := h.slots environmentID slot hrow
    exact (he.slot_moves hrow₁).imp fun slot₂ hmoves => Nat.le_trans hle hmoves.1
  numbered id attempt hrow hnone other old hold := by
    cases hbefore : v.attempts id with
    | some attempt₁ => exact h.numbered id attempt₁ hbefore hnone other old hold
    | none =>
        obtain ⟨old₁, hold₁, -⟩ := h.attempts other old hold
        exact (he.new_attempt hbefore hrow).2.2 other old₁ hold₁

-- An operation that went through, or that was blocked with a text still at the start of its summary.
def HoldsText (text : Bytes) (op : Operation) : Prop :=
  op.state = .succeeded ∨ (op.state = .reconciliationRequired ∨ op.state = .failed) ∧ text <+: op.outcomeSummary

-- An operation never changes once it is settled, and always belongs to its attempt. The summary of a blocked one
-- is only added to.
def OperationMoves (op op' : Operation) : Prop :=
  op'.attemptID = op.attemptID ∧ (unresolvedActivation op.state = false → op' = op) ∧
    ∀ text, HoldsText text op → HoldsText text op'

theorem OperationMoves.refl (op : Operation) : OperationMoves op op := ⟨rfl, fun _ => rfl, fun _ h => h⟩

theorem OperationMoves.write {other : Nat} {old new : Operation} (hrow : v.operations id = some op)
    (hold : v.operations other = some old) (hopen : unresolvedActivation old.state = true)
    (hsame : new.attemptID = old.attemptID) (htext : ∀ text, HoldsText text old → HoldsText text new) :
    At (update v.operations other (some new)) id (OperationMoves op) := by
  by_cases hid : id = other
  · subst hid
    rw [hrow] at hold
    cases hold
    exact .intro (update_self _ _ _) ⟨hsame, fun h => by simp [h] at hopen, htext⟩
  · exact .intro ((update_of_ne hid _ _).trans hrow) (.refl op)

theorem not_holdsText_of_waiting {text : Bytes} (hstate : op.state = .switchAuthorized) : ¬ HoldsText text op := by
  rintro (hsucceeded | ⟨hblocked | hfailed, -⟩)
  · cases hstate.symm.trans hsucceeded
  · cases hstate.symm.trans hblocked
  · cases hstate.symm.trans hfailed

-- What is written over a blocked summary keeps it at the start.
theorem HoldsText.extend {text summary : Bytes} {new : Operation} (h : HoldsText text op)
    (hstate : op.state = .reconciliationRequired) (hkept : op.outcomeSummary <+: summary)
    (hnew : (new.state = .reconciliationRequired ∨ new.state = .failed) ∧ new.outcomeSummary = summary) :
    HoldsText text new := by
  rcases h with hsucceeded | ⟨-, htext⟩
  · cases hstate.symm.trans hsucceeded
  · exact .inr ⟨hnew.1, hnew.2 ▸ htext.trans hkept⟩

theorem Effect.operation_moves (he : Effect now v kind v') (hrow : v.operations id = some op) :
    At v'.operations id (OperationMoves op) := by
  have hsame : At v.operations id (OperationMoves op) := .intro hrow (.refl op)
  cases he with
  | openSlot _ => exact hsame
  | freeze _ => exact hsame
  | candidate _ _ _ _ _ _ _ => exact hsame
  | lease _ _ _ _ _ _ _ _ _ _ _ _ _ _ _ => exact hsame
  | renew _ _ => exact hsame
  | close _ _ _ _ _ _ _ _ _ _ _ _ => exact hsame
  | cancel _ _ _ _ _ _ => exact hsame
  | mark _ _ _ _ _ _ _ _ _ _ => exact hsame
  | progress _ _ _ _ => exact hsame
  | authorize _ _ _ _ _ hfresh _ _ _ _ _ _ _ _ _ _ _ => exact hsame.insert hfresh
  | block _ hoperation _ hstate _ _ _ _ =>
      exact OperationMoves.write hrow hoperation (by simp [hstate]) rfl fun _ h =>
        absurd h (not_holdsText_of_waiting hstate)
  | evidence hoperation hstate _ _ _ hkept =>
      exact OperationMoves.write hrow hoperation (by simp [hstate]) rfl fun _ h =>
        h.extend hstate hkept ⟨.inl hstate, rfl⟩
  | trace _ _ => exact hsame
  | activate _ hoperation _ hopen _ _ _ _ _ _ _ _ _ _ _ =>
      exact OperationMoves.write hrow hoperation hopen rfl fun _ _ => .inl rfl
  | abandon _ hoperation _ hstate _ _ _ _ _ _ hkept =>
      exact OperationMoves.write hrow hoperation (by simp [hstate]) rfl fun _ h =>
        h.extend hstate hkept ⟨.inr rfl, rfl⟩
  | clear _ _ _ _ _ => exact hsame
  | createHead _ _ => exact hsame
  | rename _ _ _ _ _ => exact hsame

-- A new operation is authorized, and belongs to a leased attempt.
theorem Effect.new_operation (he : Effect now v kind v') (hnone : v.operations id = none)
    (hrow : v'.operations id = some op) : kind = .authorizes ∧ At v.attempts op.attemptID fun a => a.state = .leased := by
  have hsame (h : v.operations id = some op) : False := by
    rw [hnone] at h
    cases h
  have hold {k : Nat} {old new : Operation} (hk : v.operations k = some old)
      (h : update v.operations k (some new) id = some op) : False := by
    rcases update_eq_some.1 h with ⟨rfl, -⟩ | ⟨-, h⟩
    · rw [hnone] at hk
      cases hk
    · exact hsame h
  cases he with
  | openSlot _ => exact (hsame hrow).elim
  | freeze _ => exact (hsame hrow).elim
  | candidate _ _ _ _ _ _ _ => exact (hsame hrow).elim
  | lease _ _ _ _ _ _ _ _ _ _ _ _ _ _ _ => exact (hsame hrow).elim
  | renew _ _ => exact (hsame hrow).elim
  | close _ _ _ _ _ _ _ _ _ _ _ _ => exact (hsame hrow).elim
  | cancel _ _ _ _ _ _ => exact (hsame hrow).elim
  | mark _ _ _ _ _ _ _ _ _ _ => exact (hsame hrow).elim
  | progress _ _ _ _ => exact (hsame hrow).elim
  | authorize hholds _ _ _ _ _ _ _ _ _ _ _ _ _ _ _ _ =>
      rcases update_eq_some.1 hrow with ⟨-, rfl⟩ | ⟨-, h⟩
      · exact ⟨rfl, .intro hholds.attemptRow hholds.leased⟩
      · exact (hsame h).elim
  | block _ hoperation _ _ _ _ _ _ => exact (hold hoperation hrow).elim
  | evidence hoperation _ _ _ _ => exact (hold hoperation hrow).elim
  | trace _ _ => exact (hsame hrow).elim
  | activate _ hoperation _ _ _ _ _ _ _ _ _ _ _ _ _ => exact (hold hoperation hrow).elim
  | abandon _ hoperation _ _ _ _ _ _ _ _ => exact (hold hoperation hrow).elim
  | clear _ _ _ _ _ => exact (hsame hrow).elim
  | createHead _ _ => exact (hsame hrow).elim
  | rename _ _ _ _ _ => exact (hsame hrow).elim

-- A closed job never changes, and a mark for cancellation stays. Unless a marked job may be revived, it
-- is closed by whatever ends its lease.
structure JobMoves (kind : Kind) (job job' : Job) : Prop where
  closed : job.state.terminal = true → job' = job
  marked : job.cancelRequestedAt.isSome → job'.cancelRequestedAt = job.cancelRequestedAt ∨ job'.state.terminal = true
  ended : kind ≠ .revives → job.cancelRequestedAt.isSome → job.state = .leased →
    job'.state = .leased ∨ job'.state.terminal = true

theorem JobMoves.same {job : Job} : JobMoves kind job job := ⟨fun _ => rfl, fun _ => .inl rfl, fun _ _ h => .inl h⟩

theorem JobMoves.write {other : Nat} {job old new : Job} (hrow : v.jobs id = some job) (hold : v.jobs other = some old)
    (hmoves : JobMoves kind old new) : At (update v.jobs other (some new)) id (JobMoves kind job) := by
  by_cases hid : id = other
  · subst hid
    rw [hrow] at hold
    cases hold
    exact .intro (update_self _ _ _) hmoves
  · exact .intro ((update_of_ne hid _ _).trans hrow) .same

theorem Ends.state_cases {s s' : Snapshot} {state : JobState} (h : Ends now s state s') :
    state = .retryWait ∨ state.terminal = true := by
  cases h with
  | kept hstate =>
      rcases hstate with rfl | rfl
      · exact .inr rfl
      · exact .inl rfl
  | failed hstate _ =>
      rcases hstate with rfl | rfl
      · exact .inr rfl
      · exact .inr rfl
  | cancelled _ => exact .inr rfl

theorem Ends.not_leased {s s' : Snapshot} {state : JobState} (h : Ends now s state s') : state ≠ .leased := by
  rintro rfl
  rcases h.state_cases with h | h
  · cases h
  · cases h

theorem JobMoves.of_leased {job job' : Job} (hleased : job.state = .leased)
    (hmark : job'.cancelRequestedAt = job.cancelRequestedAt)
    (hstate : kind ≠ .revives → job.cancelRequestedAt.isSome → job'.state = .leased ∨ job'.state.terminal = true) :
    JobMoves kind job job' where
  closed hclosed := by simp [hleased, JobState.terminal] at hclosed
  marked _ := .inl hmark
  ended hkind hmarked _ := hstate hkind hmarked

theorem Effect.job_moves {job : Job} (ho : Occupancy v) (he : Effect now v kind v') (hrow : v.jobs id = some job) :
    At v'.jobs id (JobMoves kind job) := by
  have hsame : At v.jobs id (JobMoves kind job) := .intro hrow .same
  have hleased {attemptID : Nat} {attempt : Attempt} {slot : Slot} {job : Job}
      (hholds : Holds v attemptID attempt slot job) : job.state = .leased :=
    ((ho.holds_fitsJob hholds).leased hholds.leased).1
  cases he with
  | openSlot _ => exact hsame
  | freeze _ => exact hsame
  | candidate _ _ _ _ _ _ _ => exact hsame
  | lease hjob _ _ _ hstate hcancel _ _ _ _ _ _ _ _ _ =>
      refine JobMoves.write hrow hjob ⟨fun h => ?_, fun h => ?_, fun _ _ _ => .inl rfl⟩
      · rcases hstate with hs | hs <;> simp [hs, JobState.terminal] at h
      · simp [hcancel] at h
  | renew _ _ => exact hsame
  | close hholds _ _ _ _ _ _ hends hkind _ _ _ =>
      refine JobMoves.write hrow hholds.jobRow (.of_leased (hleased hholds) rfl fun hne hmark => .inr ?_)
      rcases hends.state_cases with hwait | hclosed
      · exact absurd hwait (hkind hne hmark)
      · exact hclosed
  | cancel hjob hstate _ _ _ _ =>
      refine JobMoves.write hrow hjob ⟨fun h => ?_, fun _ => .inr rfl, fun _ _ _ => .inr rfl⟩
      rcases hstate with hs | hs <;> simp [hs, JobState.terminal] at h
  | mark hjob hstate hcancel _ _ _ _ _ _ _ =>
      refine JobMoves.write hrow hjob ⟨fun h => ?_, fun h => ?_, fun _ _ _ => .inl hstate⟩
      · simp [hstate, JobState.terminal] at h
      · simp [hcancel] at h
  | progress _ _ _ _ => exact hsame
  | authorize _ _ _ _ _ _ _ _ _ _ _ _ _ _ _ _ _ => exact hsame
  | block _ _ _ _ _ _ _ _ => exact hsame
  | evidence _ _ _ _ _ => exact hsame
  | trace _ _ => exact hsame
  | activate hholds _ _ _ _ _ _ _ _ _ _ _ _ _ _ =>
      exact JobMoves.write hrow hholds.jobRow (.of_leased (hleased hholds) rfl fun _ _ => .inr rfl)
  | abandon hholds _ _ _ _ _ _ _ _ _ =>
      exact JobMoves.write hrow hholds.jobRow (.of_leased (hleased hholds) rfl fun _ _ => .inr rfl)
  | clear _ _ _ _ _ => exact hsame
  | createHead _ _ => exact hsame
  | rename _ _ _ _ _ => exact hsame

-- Whatever closes an attempt ends the lease of its job.
theorem Effect.closes (he : Effect now v kind v') (hrow : v.attempts id = some attempt)
    (hleased : attempt.state = .leased) (hrow' : v'.attempts id = some attempt') (hclosed : attempt'.state ≠ .leased) :
    At v'.jobs attempt.jobID fun job => job.state ≠ .leased := by
  have hsame (h : v.attempts id = some attempt') : False := by
    rw [hrow] at h
    cases h
    exact hclosed hleased
  have hwrite {k : Nat} {old new : Attempt} (hk : v.attempts k = some old)
      (h : update v.attempts k (some new) id = some attempt') : attempt = old ∧ attempt' = new := by
    rcases update_eq_some.1 h with ⟨rfl, rfl⟩ | ⟨-, h⟩
    · exact ⟨Option.some.inj (hrow.symm.trans hk), rfl⟩
    · exact (hsame h).elim
  cases he with
  | openSlot _ => exact (hsame hrow').elim
  | freeze _ => exact (hsame hrow').elim
  | candidate _ _ _ _ _ _ _ => exact (hsame hrow').elim
  | lease _ _ _ _ _ _ _ _ hfresh _ _ _ _ _ _ =>
      rcases update_eq_some.1 hrow' with ⟨rfl, -⟩ | ⟨-, h⟩
      · exact absurd (hfresh hrow) (Nat.lt_irrefl _)
      · exact (hsame h).elim
  | renew hholds _ =>
      obtain ⟨-, rfl⟩ := hwrite hholds.attemptRow hrow'
      exact absurd hholds.leased hclosed
  | close hholds _ _ _ _ _ _ hends _ _ _ _ =>
      obtain ⟨rfl, -⟩ := hwrite hholds.attemptRow hrow'
      exact At.write_self hends.not_leased
  | cancel _ _ _ _ _ _ => exact (hsame hrow').elim
  | mark _ _ _ hattempt hleased₀ _ _ _ _ _ =>
      obtain ⟨-, rfl⟩ := hwrite hattempt hrow'
      exact absurd hleased₀ hclosed
  | progress _ _ _ _ => exact (hsame hrow').elim
  | authorize _ _ _ _ _ _ _ _ _ _ _ _ _ _ _ _ _ => exact (hsame hrow').elim
  | block _ _ _ _ _ _ _ _ => exact (hsame hrow').elim
  | evidence _ _ _ _ _ => exact (hsame hrow').elim
  | trace _ _ => exact (hsame hrow').elim
  | activate hholds _ _ _ _ _ _ _ _ _ _ _ _ _ _ =>
      obtain ⟨rfl, -⟩ := hwrite hholds.attemptRow hrow'
      exact At.write_self (by simp)
  | abandon hholds _ _ _ _ _ _ _ _ _ =>
      obtain ⟨rfl, -⟩ := hwrite hholds.attemptRow hrow'
      exact At.write_self (by simp)
  | clear _ _ _ _ _ => exact (hsame hrow').elim
  | createHead _ _ => exact (hsame hrow').elim
  | rename _ _ _ _ _ => exact (hsame hrow').elim

end

end AutoDeploy.Protocol
