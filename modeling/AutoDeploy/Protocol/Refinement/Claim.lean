import AutoDeploy.Protocol.Refinement.Lease

namespace AutoDeploy.Protocol

open Function Lib Lib.Result Queue Store Deployment

-- What a claim does to the protocol's rows.

def putFrozen (db : DB) (attemptID : Nat) (execution : ExecutionSnapshot) (bindings : List FrozenBinding)
    (literals : List FrozenLiteral) : DB :=
  { db with
    executions := db.executions.put attemptID execution
    frozenBindings := db.frozenBindings.put attemptID bindings
    frozenLiterals := db.frozenLiterals.put attemptID literals }

def View.freeze (v : View) (attemptID : Nat) (execution : ExecutionSnapshot) (bindings : List FrozenBinding)
    (literals : List FrozenLiteral) : View :=
  { v with
    executions := update v.executions attemptID (some execution)
    frozenBindings := update v.frozenBindings attemptID (some bindings)
    frozenLiterals := update v.frozenLiterals attemptID (some literals) }

@[simp] theorem view_putFrozen (db : DB) (attemptID : Nat) (execution : ExecutionSnapshot)
    (bindings : List FrozenBinding) (literals : List FrozenLiteral) :
    view (putFrozen db attemptID execution bindings literals) =
      (view db).freeze attemptID execution bindings literals := by
  simp [view, putFrozen, View.freeze]

theorem View.inputs_freeze_self (v : View) (attemptID : Nat) (execution : ExecutionSnapshot)
    (bindings : List FrozenBinding) (literals : List FrozenLiteral) :
    (v.freeze attemptID execution bindings literals).inputs attemptID = (some execution, bindings, literals) := by
  simp [View.inputs, View.freeze]

theorem View.inputs_freeze_of_ne (v : View) {attemptID id : Nat} (execution : ExecutionSnapshot)
    (bindings : List FrozenBinding) (literals : List FrozenLiteral) (hid : id ≠ attemptID) :
    (v.freeze attemptID execution bindings literals).inputs id = v.inputs id := by
  simp [View.inputs, View.freeze, hid]

section

variable {db db' : DB} {now jobID : Nat} {serverID environmentID : String} {job : Job} {slot : Slot}

theorem freeze_eq_ok {attemptID : Nat} {plan : FreezePlan} {execution : ExecutionSnapshot}
    {bindings : List FrozenBinding} {literals : List FrozenLiteral}
    (h : freeze db attemptID plan = .ok (db', execution, bindings, literals)) :
    db' = putFrozen db attemptID execution bindings literals := by
  cases plan with
  | fresh e b l =>
      simp only [freeze, pure_eq_ok, Prod.mk.injEq] at h
      obtain ⟨rfl, rfl, rfl, rfl⟩ := h
      rfl
  | copy previous =>
      simp only [freeze, bind_eq_ok, found_eq_ok, pure_eq_ok, Prod.mk.injEq] at h
      obtain ⟨e, -, rfl, rfl, rfl, rfl⟩ := h
      rfl

-- A retry is frozen with what the previous attempt of its job was frozen with.
def Follows (v : View) (jobID : Nat) (job : Job)
    (inputs : Option ExecutionSnapshot × List FrozenBinding × List FrozenLiteral) : Prop :=
  job.attemptCount ≠ 0 → ∃ previous p, v.attempts previous = some p ∧ p.jobID = jobID ∧
    p.attemptNumber = job.attemptCount ∧ inputs = v.inputs previous

theorem planFreeze_follows {db₁ : DB} {attemptID : Nat} {config : ExecutionSnapshot} {plan : FreezePlan}
    {execution : ExecutionSnapshot} {bindings : List FrozenBinding} {literals : List FrozenLiteral}
    (hplan : planFreeze db config jobID job = .ok (some plan))
    (hfreeze : freeze db₁ attemptID plan = .ok (db', execution, bindings, literals))
    (hsame : (view db₁).inputs = (view db).inputs) : Follows (view db) jobID job (some execution, bindings, literals) := by
  intro hretry
  simp only [planFreeze, hretry, if_false] at hplan
  split at hplan
  · rename_i previous p hfind
    obtain ⟨hrow, hof⟩ := Table.find?_some hfind
    simp only [Bool.and_eq_true, beq_iff_eq] at hof
    simp only [pure_eq_ok, Option.some.injEq] at hplan
    subst hplan
    refine ⟨previous, p, hrow, hof.1, hof.2, ?_⟩
    simp only [freeze, bind_eq_ok, found_eq_ok, pure_eq_ok, Prod.mk.injEq] at hfreeze
    obtain ⟨e, he, -, rfl, rfl, rfl⟩ := hfreeze
    rw [← hsame]
    simp only [View.inputs, view, he]
  · cases hplan

theorem ensureRelease_cases {deploymentID commitSHA : String} {strategy : ReleaseStrategy} {digest : Digest}
    (h : ensureRelease now db deploymentID environmentID commitSHA strategy digest = .ok db') :
    db' = db ∨ ∃ release, db' = putRelease db deploymentID release ∧ db.releases.get? deploymentID = none ∧
      db.deployments.get? deploymentID ≠ none ∧ release.state = .candidate ∧
      release.deploymentID = deploymentID ∧ release.createdAt = now ∧ release.updatedAt = now ∧
      release.configDigest = digest := by
  unfold ensureRelease at h
  split at h
  · simp only [during_eq_ok, insertRelease, bind_eq_ok, require_eq_ok, pure_eq_ok] at h
    obtain ⟨_, hfree, _, -, _, hdeployment, rfl⟩ := h
    refine .inr ⟨⟨deploymentID, environmentID, none, digest, commitSHA, strategy, .candidate, now, now⟩, rfl, ?_, ?_,
      rfl, rfl, rfl, rfl, rfl⟩
    · simpa [Table.contains] using hfree
    · simpa [Table.contains, Option.isSome_iff_ne_none] using hdeployment
  · simp only [bind_eq_ok, require_eq_ok, pure_eq_ok] at h
    obtain ⟨_, -, rfl⟩ := h
    exact .inl rfl

theorem ensureRelease_slots {deploymentID commitSHA : String} {strategy : ReleaseStrategy} {digest : Digest}
    (h : ensureRelease now db deploymentID environmentID commitSHA strategy digest = .ok db') :
    db'.slots = db.slots := by
  obtain rfl | ⟨release, rfl, -⟩ := ensureRelease_cases h
  · rfl
  · rfl

theorem leaseJob_eq_ok {state : JobState} {n : Nat} (h : leaseJob db now jobID state = .ok (db', n))
    (hrow : db.jobs.get? jobID = some job) (hstate : job.state = state) :
    db' = putJob db jobID { job with state := .leased, attemptCount := job.attemptCount + 1, updatedAt := now } ∧
      n = 1 ∧ job.attemptCount + 1 ≤ 5 := by
  simp only [leaseJob, mapError_eq_ok] at h
  obtain ⟨hvalid, rfl, rfl⟩ := (updateJob_iff hrow (by simp [hstate])).1 h
  exact ⟨rfl, rfl, (validateAgentJobUpdate_eq_ok.1 hvalid).2.2.2.2.2.2.2.2.2.2⟩

theorem insertAttempt_eq_ok {attempt : Attempt} {id : Nat} (h : insertAttempt db attempt = .ok (db', id)) :
    db' = putAttempt db id attempt ∧ id = db.attempts.nextKey := by
  simp only [insertAttempt, bind_eq_ok, pure_eq_ok, Prod.mk.injEq] at h
  obtain ⟨_, -, rfl, rfl⟩ := h
  exact ⟨rfl, rfl⟩

-- What is checked of a candidate under its locks.
structure Claimable (db : DB) (now : Nat) (serverID : String) (jobID : Nat) (environmentID : String) (slot : Slot)
    (job : Job) : Prop where
  slotRow : db.slots.get? environmentID = some slot
  jobRow : db.jobs.get? jobID = some job
  free : slot.currentAttemptID = none
  unflagged : slot.reconciliationAttemptID = none
  environment : job.environmentID = environmentID
  server : job.serverID = serverID
  idle : job.state = .queued ∨ job.state = .retryWait
  available : job.availableAt ≤ now
  unmarked : job.cancelRequestedAt = none

theorem claimable_eq_some {config : ExecutionSnapshot}
    (h : claimable db now serverID jobID environmentID = some (config, slot, job)) :
    Claimable db now serverID jobID environmentID slot job := by
  simp only [claimable, Option.bind_eq_bind, Option.bind_eq_some_iff] at h
  obtain ⟨_, -, slot', hslot, job', hjob, h⟩ := h
  split at h
  · rename_i hcond
    simp only [Option.some.injEq, Prod.mk.injEq] at h
    obtain ⟨-, rfl, rfl⟩ := h
    obtain ⟨hfree, hunflagged, henv, hserver, hstate, havailable, hcancel⟩ := hcond
    exact ⟨hslot, hjob, hfree, by simpa [Slot.reconciliationRequired] using hunflagged, henv, hserver, hstate,
      havailable, hcancel⟩
  · cases h

def Claiming (kind : Kind) : Prop := kind = .other ∨ kind = .leases

theorem Effects.claiming {v v' : View} (h : Effects now Ordinary v v') : Effects now Claiming v v' :=
  h.mono fun _ hkind => .inl hkind

-- One successful candidate: its inputs are frozen, it is leased, and its release exists.
theorem leaseCandidate_effects {config : ExecutionSnapshot} {plan : FreezePlan} {lease : Option ClaimedLease}
    (hinv : Inv (view db)) (hc : Claimable db now serverID jobID environmentID slot job)
    (hplan : planFreeze db config jobID job = .ok (some plan))
    (h : leaseCandidate now db serverID jobID job slot plan = .ok (db', lease)) :
    (∃ x, lease = some x ∧ x.environmentID = environmentID) ∧ Effects now Claiming (view db) (view db') ∧
      ∀ e s, db'.slots.get? e = some s → s.currentAttemptID = none → db.slots.get? e = some s := by
  obtain ⟨hslot, hjob, hfree, hunflagged, rfl, rfl, hidle, havailable, hcancel⟩ := hc
  simp only [leaseCandidate, bind_eq_ok, during_eq_ok, Prod.exists] at h
  obtain ⟨db₁, _, hfence, db₂, n, hlease, h⟩ := h
  obtain ⟨-, rfl, -⟩ := (updateSlot_iff hslot rfl).1 hfence
  obtain ⟨rfl, rfl, hcount⟩ := leaseJob_eq_ok hlease hjob rfl
  simp only [Nat.one_ne_zero, if_false, bind_eq_ok, during_eq_ok, Prod.exists, pure_eq_ok, Prod.mk.injEq] at h
  obtain ⟨db₃, attemptID, hinsert, db₄, _, hoccupy, db₅, hassign, db₆, execution, bindings, literals, hfreeze, db₇,
    hrelease, rfl, rfl⟩ := h
  obtain ⟨rfl, rfl⟩ := insertAttempt_eq_ok hinsert
  obtain ⟨-, rfl, -⟩ := (updateSlot_iff (by exact Table.get?_put_self _ _ _) rfl).1 hoccupy
  have hnew : (view db).attempts db.attempts.nextKey = none := Table.get?_nextKey db.attempts
  obtain ⟨s, hs, -⟩ := hinv.pipeline.fitsDeployment _ _ hjob
  -- the first attempt assigns the deployment
  obtain ⟨deployments, s', rfl, hassigned, hget⟩ : ∃ deployments s', db₅ = setDeployments _ deployments ∧
      ((job.attemptCount = 0 ∧ Moves now .assigned s s') ∨ (job.attemptCount ≠ 0 ∧ s' = s)) ∧
      deployments.get? = update (view db).deployments job.deploymentID (some s') := by
    split at hassign
    · rename_i hfirst
      obtain ⟨deployments, s₀, s', rfl, hs₀, hmove, hget⟩ :=
        transitionDeployment_moves hassign hinv.pipeline.stored
      have : s₀ = s := by
        have hs₀' : (view db).deployments job.deploymentID = some s₀ := hs₀
        rw [hs] at hs₀'
        exact (Option.some.inj hs₀').symm
      subst this
      exact ⟨deployments, s', rfl, .inl ⟨by omega, hmove⟩, hget⟩
    · rename_i hlater
      simp only [pure_eq_ok] at hassign
      subst hassign
      exact ⟨db.deployments, s, rfl, .inr ⟨by omega, rfl⟩, (update_row hs).symm⟩
  obtain rfl := freeze_eq_ok hfreeze
  refine ⟨⟨_, rfl, rfl⟩, ?_, ?_⟩
  · have hfollows := planFreeze_follows hplan hfreeze rfl
    have hinputs := View.inputs_freeze_self (view db) db.attempts.nextKey execution bindings literals
    have h₁ : Effect now (view db) .other ((view db).freeze db.attempts.nextKey execution bindings literals) :=
      Effect.freeze hnew
    have h₂ : Effect now ((view db).freeze db.attempts.nextKey execution bindings literals) .leases _ :=
      Effect.lease hjob hslot hfree hunflagged hidle hcancel havailable (by unfold maxAttempts; omega)
        (fun hrow => Table.lt_nextKey hrow) hs hassigned
        (.one jobID db.attempts.nextKey (nextSequence db jobID) .claimed) (by simp [Unreconciled])
        (by simp [View.freeze])
        (fun hretry => by
          obtain ⟨previous, p, hp, hof, hnumber, hcopied⟩ := hfollows hretry
          refine ⟨previous, p, hp, hof, hnumber, ?_⟩
          rw [hinputs, View.inputs_freeze_of_ne _ _ _ _ (Nat.ne_of_lt (Table.lt_nextKey hp)), hcopied])
    refine ((Effects.ordinary h₁).claiming.trans (Effects.one (.inr rfl) h₂)).trans ?_
    obtain rfl | ⟨release, rfl, hnone, hstored, hcandidate, hkey, hcreated, hupdated, hdigest⟩ :=
      ensureRelease_cases hrelease
    · refine Effects.of_eq ?_
      simp only [view_appendAgentJobEvent, view_putFrozen, view_setDeployments, view_putSlot, view_putAttempt,
        view_putJob, hget, update_idem]
      rfl
    · have h₃ := @Effect.candidate now { (view db).freeze db.attempts.nextKey execution bindings literals with
          slots := update (view db).slots job.environmentID (some { slot with
            fence := slot.fence + 1, currentAttemptID := some db.attempts.nextKey, updatedAt := now })
          jobs := update (view db).jobs jobID (some { job with
            state := .leased, attemptCount := job.attemptCount + 1, updatedAt := now })
          attempts := update (view db).attempts db.attempts.nextKey
            (some (leasedAttempt now jobID job slot))
          deployments := update (view db).deployments job.deploymentID (some s')
          jobEvents := (view db).jobEvents ++
            [⟨jobID, nextSequence db jobID, .claimed, some db.attempts.nextKey⟩] }
        job.deploymentID release hnone hcandidate hkey (by simp) hcreated hupdated
        ⟨db.attempts.nextKey, _, _, execution, update_self _ _ _, update_self _ _ _, rfl, update_self _ _ _, by
          rw [hdigest]
          simp [View.inputs, View.freeze]⟩
      refine (Effects.ordinary ?_).claiming
      convert h₃ using 1
      · rfl
      · simp only [view_appendAgentJobEvent, view_putRelease, view_putFrozen, view_setDeployments, view_putSlot,
          view_putAttempt, view_putJob, hget, update_idem]
        rfl
  · have hslots : db₇.slots.get? = update db.slots.get? job.environmentID (some { slot with
        fence := slot.fence + 1, currentAttemptID := some db.attempts.nextKey, updatedAt := now }) := by
      rw [ensureRelease_slots hrelease]
      simp only [putFrozen, setDeployments, putSlot, putAttempt, putJob, Table.get?_put_eq_update, update_idem]
    intro e s hrow hidle
    have hrow' : db₇.slots.get? e = some s := hrow
    rw [hslots, update_eq_some] at hrow'
    rcases hrow' with ⟨-, rfl⟩ | ⟨-, hrow'⟩
    · cases hidle
    · exact hrow'

-- A free slot stays as it was, or is opened.
def KeepsFree (db db' : DB) : Prop :=
  ∀ e s, db'.slots.get? e = some s → s.currentAttemptID = none → db.slots.get? e = some s

-- The slot of a lease was free and unflagged before.
def LeasedFree (db : DB) (x : ClaimedLease) : Prop :=
  At db.slots.get? x.environmentID fun s => s.currentAttemptID = none ∧ s.reconciliationAttemptID = none

theorem tryClaim_effects {lease : Option ClaimedLease} (hinv : Inv (view db))
    (h : tryClaim now db serverID jobID environmentID = .ok (db', lease)) :
    Effects now Claiming (view db) (view db') ∧ KeepsFree db db' ∧ ∀ x ∈ lease, LeasedFree db x := by
  unfold tryClaim at h
  split at h
  · simp only [pure_eq_ok, Prod.mk.injEq] at h
    obtain ⟨rfl, rfl⟩ := h
    exact ⟨Effects.refl, fun _ _ hrow _ => hrow, by simp⟩
  · rename_i config slot job hclaimable
    have hc := claimable_eq_some hclaimable
    simp only [bind_eq_ok] at h
    obtain ⟨plan, hplan, h⟩ := h
    split at h
    · simp only [pure_eq_ok, Prod.mk.injEq] at h
      obtain ⟨rfl, rfl⟩ := h
      exact ⟨Effects.refl, fun _ _ hrow _ => hrow, by simp⟩
    · obtain ⟨⟨x, rfl, hx⟩, heffects, hkeeps⟩ := leaseCandidate_effects hinv hc hplan h
      refine ⟨heffects, hkeeps, ?_⟩
      simp only [Option.mem_def, Option.some.injEq, forall_eq']
      exact .intro (hx ▸ hc.slotRow) ⟨hc.free, hc.unflagged⟩

theorem claimLoop_effects {limit : Nat} {candidates : List (Nat × String)} {claimed leases : List ClaimedLease}
    (hinv : Inv (view db)) (h : claimLoop now serverID limit candidates db claimed = .ok (db', leases)) :
    Effects now Claiming (view db) (view db') ∧ ∀ x ∈ leases, x ∈ claimed ∨ LeasedFree db x := by
  induction candidates generalizing db claimed with
  | nil =>
      simp only [claimLoop, pure_eq_ok, Prod.mk.injEq] at h
      obtain ⟨rfl, rfl⟩ := h
      exact ⟨Effects.refl, fun _ hx => .inl hx⟩
  | cons c rest ih =>
      simp only [claimLoop] at h
      split at h
      · simp only [pure_eq_ok, Prod.mk.injEq] at h
        obtain ⟨rfl, rfl⟩ := h
        exact ⟨Effects.refl, fun _ hx => .inl hx⟩
      · simp only [bind_eq_ok, Prod.exists] at h
        obtain ⟨db₁, lease, htry, h⟩ := h
        obtain ⟨heffects, hkeeps, hlease⟩ := tryClaim_effects hinv htry
        obtain ⟨hrest, hleases⟩ := ih (hinv.effects heffects) h
        refine ⟨heffects.trans hrest, fun x hx => ?_⟩
        rcases hleases x hx with hold | ⟨s, hs, hfree, hunflagged⟩
        · rcases List.mem_append.1 hold with hold | hnew
          · exact .inl hold
          · exact .inr (hlease x (by simpa using hnew))
        · exact .inr ⟨s, hkeeps _ _ hs hfree, hfree, hunflagged⟩

theorem ensureSlot_effects : Effects now Ordinary (view db) (view (ensureSlot now db environmentID)) := by
  unfold ensureSlot
  split
  · exact Effects.refl
  · rename_i hnone
    have hfree : (view db).slots environmentID = none := by
      show db.slots.get? environmentID = none
      simpa [Table.contains] using hnone
    have he : Effect now (view db) .other _ := Effect.openSlot hfree
    exact Effects.ordinary (by simpa [putSlot] using view_putSlot db environmentID _ ▸ he)

-- Slots that exist are left alone.
theorem ensureSlot_keeps {e : String} {s : Slot} (hrow : db.slots.get? e = some s) :
    (ensureSlot now db environmentID).slots.get? e = some s := by
  unfold ensureSlot
  split
  · exact hrow
  · rename_i hnone
    have hne : e ≠ environmentID := by
      rintro rfl
      simp [Table.contains, hrow] at hnone
    simpa [hne] using hrow

theorem openSlots_effects (environments : List String) :
    Effects now Ordinary (view db) (view (environments.foldl (ensureSlot now) db)) := by
  induction environments generalizing db with
  | nil => exact Effects.refl
  | cons e rest ih => exact ensureSlot_effects.trans ih

theorem openSlots_keeps {e : String} {s : Slot} (environments : List String)
    (hrow : db.slots.get? e = some s) : (environments.foldl (ensureSlot now) db).slots.get? e = some s := by
  induction environments generalizing db with
  | nil => exact hrow
  | cons e' rest ih => exact ih (ensureSlot_keeps hrow)

-- A claim does nothing, opens slots and fails, or opens slots and runs its loop.
theorem claim_cases {presented : Digest} {limit : Nat} {answer : Except Error (List ClaimedLease)}
    (h : claim now db serverID presented limit = (db', answer)) :
    (db' = db ∧ ∀ leases, answer = .ok leases → leases = []) ∨
      ∃ environments : List String, (db' = environments.foldl (ensureSlot now) db ∧ ∃ e, answer = .error e) ∨
        ∃ limit candidates leases, claimLoop now serverID limit candidates
          (environments.foldl (ensureSlot now) db) [] = .ok (db', leases) ∧ answer = .ok leases := by
  unfold claim at h
  split at h
  · obtain ⟨rfl, rfl⟩ := Prod.mk.inj h
    exact .inl ⟨rfl, by simp⟩
  · split at h
    · obtain ⟨rfl, rfl⟩ := Prod.mk.inj h
      exact .inl ⟨rfl, by simp⟩
    · split at h
      · obtain ⟨rfl, rfl⟩ := Prod.mk.inj h
        exact .inl ⟨rfl, by simp⟩
      · simp only at h
        split at h
        · obtain ⟨rfl, rfl⟩ := Prod.mk.inj h
          exact .inr ⟨_, .inl ⟨rfl, _, rfl⟩⟩
        · rename_i htx
          obtain ⟨rfl, rfl⟩ := Prod.mk.inj h
          simp only [claimTx, bind_eq_ok] at htx
          obtain ⟨_, -, hloop⟩ := htx
          exact .inr ⟨_, .inr ⟨_, _, _, hloop, rfl⟩⟩

theorem claim_effects {presented : Digest} {limit : Nat} {answer : Except Error (List ClaimedLease)}
    (hinv : Inv (view db)) (h : claim now db serverID presented limit = (db', answer)) :
    Effects now Claiming (view db) (view db') := by
  obtain ⟨rfl, -⟩ | ⟨environments, ⟨rfl, -⟩ | ⟨limit, candidates, leases, hloop, -⟩⟩ := claim_cases h
  · exact Effects.refl
  · exact (openSlots_effects environments).claiming
  · have hopen : Effects now Ordinary (view db) _ := openSlots_effects environments
    exact hopen.claiming.trans (claimLoop_effects (hinv.effects hopen) hloop).1

-- An environment a claim leases in had no slot, or a free and unflagged one.
theorem claim_leasesFree {presented : Digest} {limit : Nat} {leases : List ClaimedLease} {x : ClaimedLease}
    (hinv : Inv (view db)) (h : claim now db serverID presented limit = (db', .ok leases)) (hx : x ∈ leases)
    (hrow : db.slots.get? x.environmentID = some slot) :
    slot.currentAttemptID = none ∧ slot.reconciliationAttemptID = none := by
  obtain ⟨-, hnone⟩ | ⟨environments, ⟨-, e, he⟩ | ⟨limit, candidates, leases', hloop, hleases⟩⟩ := claim_cases h
  · simp [hnone leases rfl] at hx
  · cases he
  · cases hleases
    have hopen : Effects now Ordinary (view db) _ := openSlots_effects environments
    obtain hnil | hfree := (claimLoop_effects (hinv.effects hopen) hloop).2 x hx
    · simp at hnil
    · exact hfree.of_row (openSlots_keeps environments hrow)

end

end AutoDeploy.Protocol
