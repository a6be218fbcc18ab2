import AutoDeploy.Protocol.Histories

namespace AutoDeploy.Protocol

open Function Lib Queue Store Deployment

-- What a recorded reconciliation means for its attempt, and what its activation came to.

-- An attempt that is closed and flags no slot.
structure Released (v : View) (jobID attemptID : Nat) : Prop where
  closed : At v.attempts attemptID fun a => a.jobID = jobID ∧ a.state ≠ .leased
  unflagged : Every v.slots fun _ slot => slot.reconciliationAttemptID ≠ some attemptID

structure Reconciliations (v : View) : Prop where
  recorded : ∀ e ∈ v.jobEvents, e.eventType = .reconciled → ∀ attemptID, e.attemptID = some attemptID →
    Released v e.jobID attemptID
  settled : Every v.operations fun _ op => unresolvedActivation op.state = false → Released v op.jobID op.attemptID

def Answers (v : View) (attemptID : Nat) (digest : Digest) : ActivationOutcome → Prop
  | .activated => ∃ id op, v.operations id = some op ∧ op.attemptID = attemptID ∧ op.state = .succeeded ∧
      op.routeDigest = digest
  | .notActivated => ∃ id op, v.operations id = some op ∧ op.attemptID = attemptID ∧ op.state = .failed
  | .noActivation => ∀ id op, v.operations id = some op → op.attemptID ≠ attemptID

section

variable {now jobID attemptID : Nat} {v v' : View} {kind : Kind} {attempt : Attempt} {slot : Slot} {job : Job}

theorem Released.effect (h : Released v jobID attemptID) (he : Effect now v kind v') : Released v' jobID attemptID := by
  obtain ⟨⟨attempt, hrow, hjob, hclosed⟩, hunflagged⟩ := h
  refine ⟨.intro (he.closed_attempt hrow hclosed) ⟨hjob, hclosed⟩, fun environmentID slot' hslot' hflag => ?_⟩
  cases hslot : v.slots environmentID with
  | none =>
      rw [he.new_slot hslot hslot'] at hflag
      cases hflag
  | some slot =>
      rcases ((he.slot_moves hslot).of_row hslot').2 attemptID hflag with hold | hleased
      · exact hunflagged environmentID slot hslot hold
      · exact hclosed (hleased.of_row hrow)

-- What is recorded about a closed attempt stays.
theorem Answers.effect {outcome : ActivationOutcome} {digest : Digest} (h : Answers v attemptID digest outcome)
    (hclosed : At v.attempts attemptID fun a => a.state ≠ .leased) (he : Effect now v kind v') :
    Answers v' attemptID digest outcome := by
  cases outcome with
  | activated =>
      obtain ⟨id, op, hrow, hof, hstate, hdigest⟩ := h
      obtain ⟨op', hrow', -, hsettled, -⟩ := he.operation_moves hrow
      rw [hsettled (by simp [hstate])] at hrow'
      exact ⟨id, op, hrow', hof, hstate, hdigest⟩
  | notActivated =>
      obtain ⟨id, op, hrow, hof, hstate⟩ := h
      obtain ⟨op', hrow', -, hsettled, -⟩ := he.operation_moves hrow
      rw [hsettled (by simp [hstate])] at hrow'
      exact ⟨id, op, hrow', hof, hstate⟩
  | noActivation =>
      intro id op' hrow' hof
      obtain ⟨attempt, hattempt, hne⟩ := hclosed
      cases hrow : v.operations id with
      | none => exact hne ((hof ▸ (he.new_operation hrow hrow').2).of_row hattempt)
      | some op => exact h id op hrow (((he.operation_moves hrow).of_row hrow').1 ▸ hof)

-- A slot is flagged by attempts of its own environment only.
theorem Occupancy.flag_environment {environmentID : String} (ho : Occupancy v)
    (hattempt : v.attempts attemptID = some attempt) (hslot : v.slots environmentID = some slot)
    (hflag : slot.reconciliationAttemptID = some attemptID) : environmentID = attempt.environmentID :=
  (((ho.flag environmentID slot hslot attemptID hflag).2).of_row hattempt).symm

-- An attempt that is closed with its slot's flag cleared is released.
theorem released_of_write {environmentID : String} {closed : Attempt} {slot' : Slot} (ho : Occupancy v)
    (hattempt : v.attempts attemptID = some attempt) (henvironment : attempt.environmentID = environmentID)
    (hrow : v'.attempts attemptID = some closed) (hjob : closed.jobID = jobID) (hclosed : closed.state ≠ .leased)
    (hslots : v'.slots = update v.slots environmentID (some slot')) (hnone : slot'.reconciliationAttemptID = none) :
    Released v' jobID attemptID := by
  refine ⟨.intro hrow ⟨hjob, hclosed⟩, ?_⟩
  rw [hslots]
  refine Every.write (fun e slot hne hslot hflag => ?_) (by simp [hnone])
  exact hne ((ho.flag_environment hattempt hslot hflag).trans henvironment)

-- A flagged slot without an unresolved activation is not held by the attempt that flags it.
theorem Inv.flag_closed {environmentID : String} (hinv : Inv v) (hslot : v.slots environmentID = some slot)
    (hflag : slot.reconciliationAttemptID = some attemptID) (hresolved : ¬ Unresolved v environmentID)
    (hattempt : v.attempts attemptID = some attempt) : attempt.state ≠ .leased := by
  intro hleased
  have henvironment := hinv.occupancy.flag_environment hattempt hslot hflag
  have hcurrent := ((hinv.occupancy.fitsSlot attemptID attempt hattempt).of_row (henvironment ▸ hslot)).leased hleased
  obtain ⟨id, op, hop, hof, hunresolved⟩ := hinv.activations.flagHeld environmentID slot hslot attemptID hflag hcurrent.1
  refine hresolved ⟨id, op, hop, ?_, hunresolved⟩
  exact ((hinv.activations.ofAttempt id op hop).of_row (hof ▸ hattempt)).environment.trans henvironment.symm

-- Events and settled operations that were there stay released.
theorem Reconciliations.append {events : List JobEvent} (h : Reconciliations v) (he : Effect now v kind v')
    (hevents : v'.jobEvents = v.jobEvents ++ events)
    (hnew : ∀ e ∈ events, e.eventType = .reconciled → ∀ a, e.attemptID = some a → Released v' e.jobID a)
    (hsettled : ∀ id op, v'.operations id = some op → unresolvedActivation op.state = false →
      v.operations id = some op ∨ Released v' op.jobID op.attemptID) : Reconciliations v' where
  recorded := by
    intro e hmem htype a ha
    rw [hevents] at hmem
    rcases List.mem_append.1 hmem with hold | hmem
    · exact (h.recorded e hold htype a ha).effect he
    · exact hnew e hmem htype a ha
  settled := by
    intro id op hrow hstate
    rcases hsettled id op hrow hstate with hold | hreleased
    · exact (h.settled id op hold hstate).effect he
    · exact hreleased

theorem Reconciliations.effect (h : Reconciliations v) (hinv : Inv v) (he : Effect now v kind v') :
    Reconciliations v' := by
  have hquiet {events : List JobEvent} (hevents : v'.jobEvents = v.jobEvents ++ events)
      (hunreconciled : Unreconciled events) (hsettled : ∀ id op, v'.operations id = some op →
        unresolvedActivation op.state = false → v.operations id = some op) : Reconciliations v' :=
    h.append he hevents (fun e hmem htype => absurd htype (hunreconciled e hmem))
      fun id op hrow hstate => .inl (hsettled id op hrow hstate)
  have hkeep (hevents : v'.jobEvents = v.jobEvents) (hoperations : v'.operations = v.operations) :
      Reconciliations v' :=
    hquiet (hevents.trans (List.append_nil _).symm) (by simp [Unreconciled]) fun _ _ hrow _ => hoperations ▸ hrow
  have hnobody {events : List JobEvent} (hevents : v'.jobEvents = v.jobEvents ++ events)
      (hnone : ∀ e ∈ events, e.attemptID = none) (hoperations : v'.operations = v.operations) : Reconciliations v' := by
    refine h.append he hevents (fun e hmem _ a ha => ?_) fun _ _ hrow _ => .inl (hoperations ▸ hrow)
    rw [hnone e hmem] at ha
    cases ha
  have hone {events : List JobEvent} {j a : Nat} (hevents : v'.jobEvents = v.jobEvents ++ events)
      (hconcerns : Concerns j a events) (hreleased : Released v' j a)
      (hsettled : ∀ id op, v'.operations id = some op → unresolvedActivation op.state = false →
        v.operations id = some op ∨ (op.jobID = j ∧ op.attemptID = a)) : Reconciliations v' := by
    refine h.append he hevents (fun e hmem _ a' ha' => ?_) fun id op hrow hstate => ?_
    · obtain ⟨rfl, ha⟩ := hconcerns e hmem
      rw [ha] at ha'
      cases ha'
      exact hreleased
    · rcases hsettled id op hrow hstate with hold | ⟨rfl, rfl⟩
      · exact .inl hold
      · exact .inr hreleased
  -- an operation that is written unresolved was not settled
  have hopen {k : Nat} {op' : Operation} (hstate' : unresolvedActivation op'.state = true) (id : Nat) (op : Operation)
      (hrow : update v.operations k (some op') id = some op) (hstate : unresolvedActivation op.state = false) :
      v.operations id = some op := by
    rcases update_eq_some.1 hrow with ⟨-, rfl⟩ | ⟨-, hrow⟩
    · rw [hstate'] at hstate
      cases hstate
    · exact hrow
  have hjobID {operationID : Nat} {op : Operation} {attempt : Attempt} {slot : Slot} {job : Job} (hoperation : v.operations operationID = some op)
      (hholds : Holds v op.attemptID attempt slot job) : op.jobID = attempt.jobID :=
    ((hinv.activations.ofAttempt operationID op hoperation).of_row hholds.attemptRow).job
  cases he with
  | openSlot _ => exact hkeep rfl rfl
  | freeze _ => exact hkeep rfl rfl
  | candidate _ _ _ _ _ _ _ => exact hkeep rfl rfl
  | lease _ _ _ _ _ _ _ _ _ _ _ _ hun _ _ => exact hquiet rfl hun fun _ _ hrow _ => hrow
  | renew _ _ => exact hkeep rfl rfl
  | close _ _ _ _ _ _ _ _ _ _ hun _ => exact hquiet rfl hun fun _ _ hrow _ => hrow
  | cancel _ _ _ _ _ hevents => exact hnobody rfl hevents rfl
  | mark _ _ _ _ _ _ _ _ _ hun => exact hquiet rfl hun fun _ _ hrow _ => hrow
  | progress _ _ _ _ => exact hkeep rfl rfl
  | authorize _ _ _ _ _ _ _ _ _ _ _ _ _ _ _ _ hun => exact hquiet rfl hun (hopen rfl)
  | block _ _ _ _ _ _ _ hun => exact hquiet rfl hun (hopen rfl)
  | evidence _ hstate _ _ hun => exact hquiet rfl hun (hopen (by simp [hstate]))
  | trace _ hun => exact hquiet rfl hun fun _ _ hrow _ => hrow
  | activate hholds hoperation hof _ _ _ _ _ _ _ _ _ _ _ hevents =>
      subst hof
      have hsameJob := hjobID hoperation hholds
      refine hone rfl hevents (released_of_write hinv.occupancy hholds.attemptRow rfl (update_self _ _ _) rfl (by simp)
        rfl rfl) fun id op' hrow _ => ?_
      rcases update_eq_some.1 hrow with ⟨-, rfl⟩ | ⟨-, hrow⟩
      · exact .inr ⟨hsameJob, rfl⟩
      · exact .inl hrow
  | abandon hholds hoperation hof _ _ _ _ _ _ hevents =>
      subst hof
      have hsameJob := hjobID hoperation hholds
      refine hone rfl hevents (released_of_write hinv.occupancy hholds.attemptRow rfl (update_self _ _ _) rfl (by simp)
        rfl rfl) fun id op' hrow _ => ?_
      rcases update_eq_some.1 hrow with ⟨-, rfl⟩ | ⟨-, hrow⟩
      · exact .inr ⟨hsameJob, rfl⟩
      · exact .inl hrow
  | clear hslot hflag hresolved hattempt hevents =>
      have hclosed := hinv.flag_closed hslot hflag hresolved hattempt
      exact hone rfl hevents (released_of_write hinv.occupancy hattempt
        (hinv.occupancy.flag_environment hattempt hslot hflag).symm hattempt rfl hclosed rfl rfl)
        fun _ _ hrow _ => .inl hrow
  | createHead _ _ => exact hkeep rfl rfl
  | rename _ _ _ _ _ => exact hkeep rfl rfl

-- The attempt a plain block names never had an activation.
theorem Reconciliations.no_activation {environmentID : String} (h : Reconciliations v) (hinv : Inv v)
    (hslot : v.slots environmentID = some slot) (hflag : slot.reconciliationAttemptID = some attemptID)
    (hresolved : ¬ Unresolved v environmentID) (hattempt : v.attempts attemptID = some attempt) {id : Nat}
    {op : Operation} (hrow : v.operations id = some op) : op.attemptID ≠ attemptID := by
  rintro rfl
  cases hstate : unresolvedActivation op.state with
  | false => exact (h.settled id op hrow hstate).unflagged environmentID slot hslot hflag
  | true =>
      refine hresolved ⟨id, op, hrow, ?_, hstate⟩
      rw [((hinv.activations.ofAttempt id op hrow).of_row hattempt).environment]
      exact (hinv.occupancy.flag_environment hattempt hslot hflag).symm

end

end AutoDeploy.Protocol
