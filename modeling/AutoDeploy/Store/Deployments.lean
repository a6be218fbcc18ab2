import AutoDeploy.Store.Writes

namespace AutoDeploy.Store

open Lib Lib.Result Deployment

-- validate_deployment_event: an appended event follows its predecessor.
def validateDeploymentEvent (events : List Event) (event : Event) : Except DbError Unit := do
  let previous ← found events.getLast? (.raised "deployment event must follow its predecessor")
  require (previous.occurredAt ≤ event.occurredAt) (.raised "deployment event must follow its predecessor")
  require (event.fromStatus = some previous.toStatus ∧ canTransition previous.toStatus event.toStatus)
    (.raised ("invalid deployment transition " ++ (event.fromStatus.map Status.text).getD "" ++ " -> " ++
      event.toStatus.text))

def appendEvents (events : List Event) : List Event → Except DbError (List Event)
  | [] => .ok events
  | event :: rest => do
      validateDeploymentEvent events event
      appendEvents (events ++ [event]) rest

-- Save: conditionally replace the head and append only the events not yet stored.
def saveTx (db : DB) (value : Aggregate) : Except Error DB := do
  let snapshot ← value.snapshot.mapError Error.domain
  let id := snapshot.identity.deploymentID
  let stored ← found (db.deployments.get? id) (.detail (.sentinel .notFound) id)
  require (stored.identity = snapshot.identity) (.detail (.sentinel .revisionConflict) "immutable identity")
  let _ ← (rehydrate stored).mapError fun e => .wrap ("rehydrate stored deployment " ++ id) (.domain e)
  require (stored.revision < snapshot.revision ∧ stored.events.isPrefixOf snapshot.events)
    (.detail (.sentinel .revisionConflict) id)
  let events ← during "append deployment event" (appendEvents stored.events (snapshot.events.drop stored.revision))
  pure { db with deployments := db.deployments.put id { stored with
    version := snapshot.version
    status := snapshot.status
    updatedAt := snapshot.updatedAt
    revision := snapshot.revision
    events := events } }

-- Move a deployment inside the caller's transaction. Repeating the status it has writes nothing.
def transitionDeployment (db : DB) (deploymentID : String) (target : Status) (at_ : Nat) : Except Error DB := do
  let snapshot ← found (db.deployments.get? deploymentID)
    (.wrap "load deployment for transition" (.detail (.sentinel .notFound) deploymentID))
  let current ← (rehydrate snapshot).mapError fun e =>
    .wrap "rehydrate deployment for transition" (.domain e)
  let next ← (current.transition target at_).mapError fun e =>
    .wrap ("transition deployment to " ++ target.text) (.domain e)
  if next.revision = current.revision then pure db else saveTx db next

-- A stored row is good when it is filed under its own identity and rehydrates.
structure DeploymentStored (id : String) (s : Snapshot) : Prop where
  key : s.identity.deploymentID = id
  rehydrates : rehydrate s = .ok s.aggregate

-- The stored row after one transition.
def advanceSnapshot (s : Snapshot) (target : Status) (at_ : Nat) : Snapshot :=
  { s with
    status := target
    updatedAt := at_
    revision := s.revision + 1
    events := s.events ++ [⟨some s.status, target, at_⟩] }

private theorem rehydrate_eq_ok {s : Snapshot} {d : Aggregate} (h : rehydrate s = .ok d) :
    s.version = currentSchemaVersion ∧ s.aggregate.validate = .ok () ∧ d = s.aggregate := by
  unfold rehydrate at h
  split at h
  · cases h
  · rename_i hversion
    split at h
    · cases h
    · rename_i hvalid
      exact ⟨by simpa using hversion, hvalid, (Except.ok.inj h).symm⟩

theorem rehydrate_of_valid {s : Snapshot} (hversion : s.version = currentSchemaVersion)
    (hvalid : s.aggregate.validate = .ok ()) : rehydrate s = .ok s.aggregate := by
  simp [rehydrate, hversion, hvalid]

-- A stored deployment has a name.
theorem DeploymentStored.named {id : String} {s : Snapshot} (h : DeploymentStored id s) : id ≠ "" := by
  obtain ⟨-, hvalid, -⟩ := rehydrate_eq_ok h.rehydrates
  have hidentity := (Aggregate.validate_eq_ok.1 hvalid).1
  rintro rfl
  have hempty : s.aggregate.identity.deploymentID = "" := h.key
  simp [validateIdentity, hempty] at hidentity

-- The walk over the events ends where the last event does.
private theorem validateEvents_last (current last : Status) (previousAt lastAt index : Nat)
    (first : Event) (events : List Event) (hfirst : first.toStatus = current)
    (hfirstAt : first.occurredAt = previousAt)
    (h : validateEvents current previousAt index events = .ok (last, lastAt)) :
    ∃ e, (first :: events).getLast? = some e ∧ e.toStatus = last ∧ e.occurredAt = lastAt := by
  induction events generalizing current previousAt index first with
  | nil =>
      simp only [validateEvents, Except.ok.injEq, Prod.mk.injEq] at h
      exact ⟨first, rfl, hfirst.trans h.1, hfirstAt.trans h.2⟩
  | cons head rest ih =>
      simp only [validateEvents] at h
      split at h
      · cases h
      · split at h
        · cases h
        · obtain ⟨e, hlast, hto, hat⟩ := ih _ _ _ head rfl rfl h
          exact ⟨e, by simpa using hlast, hto, hat⟩

theorem lastEvent_of_valid {d : Aggregate} (hvalid : d.validate = .ok ()) :
    ∃ e, d.events.getLast? = some e ∧ e.toStatus = d.status ∧ e.occurredAt = d.updatedAt := by
  obtain ⟨-, -, -, hhead, hwalk⟩ := Aggregate.validate_eq_ok.1 hvalid
  cases hevents : d.events with
  | nil => simp [hevents] at hhead
  | cons first rest =>
      rw [hevents] at hhead hwalk
      simp only [List.head?_cons, Option.some.injEq] at hhead
      exact validateEvents_last .queued d.status d.createdAt d.updatedAt 1 first rest (by simp [hhead])
        (by simp [hhead]) hwalk

theorem DeploymentStored.advance {id : String} {s : Snapshot} {target : Status} {at_ : Nat}
    (h : DeploymentStored id s) (hstep : canTransition s.status target = true) (hzero : at_ ≠ 0)
    (hlate : s.updatedAt ≤ at_) : DeploymentStored id (advanceSnapshot s target at_) := by
  obtain ⟨hversion, hvalid, -⟩ := rehydrate_eq_ok h.rehydrates
  exact ⟨h.key, rehydrate_of_valid hversion
    (Aggregate.validate_advance (d := s.aggregate) hvalid hstep hzero hlate)⟩

-- Saving the next revision of what is stored appends its one event.
private theorem saveTx_advance {db : DB} {id : String} {s : Snapshot} {target : Status} {at_ : Nat}
    (hrow : db.deployments.get? id = some s) (hstored : DeploymentStored id s)
    (hstep : canTransition s.status target = true) (hzero : at_ ≠ 0) (hlate : s.updatedAt ≤ at_) :
    saveTx db (s.aggregate.advance target at_) =
      .ok { db with deployments := db.deployments.put id (advanceSnapshot s target at_) } := by
  obtain ⟨hversion, hvalid, -⟩ := rehydrate_eq_ok hstored.rehydrates
  have hnext := Aggregate.validate_advance (d := s.aggregate) hvalid hstep hzero hlate
  have hsnapshot : (s.aggregate.advance target at_).snapshot =
      .ok (s.aggregate.advance target at_).stored := by
    simp [Aggregate.snapshot, hnext]
  obtain ⟨last, hlast, hto, hat⟩ := lastEvent_of_valid hvalid
  have hcount : s.revision = s.events.length := (Aggregate.validate_eq_ok.1 hvalid).2.2.1.2
  have hdrop : (s.events ++ [(⟨some s.status, target, at_⟩ : Event)]).drop s.revision =
      [⟨some s.status, target, at_⟩] := by
    rw [hcount, List.drop_left]
  have hevents : s.aggregate.events = s.events := rfl
  rw [hevents] at hlast
  have hlast' : last.toStatus = s.status := hto
  have hat' : last.occurredAt = s.updatedAt := hat
  have hvalidate : validateDeploymentEvent s.events ⟨some s.status, target, at_⟩ = .ok () := by
    simp [validateDeploymentEvent, hlast, hlast', hat', hlate, hstep]
  have hkey : s.identity.deploymentID = id := hstored.key
  simp only [saveTx, hsnapshot]
  simp [Except.mapError, Aggregate.stored, Aggregate.advance, Snapshot.aggregate, hkey, hrow,
    hstored.rehydrates, hdrop, appendEvents, hvalidate, during, advanceSnapshot, hversion, require]

theorem transitionDeployment_of_step {db : DB} {id : String} {s : Snapshot} {target : Status} {at_ : Nat}
    (hrow : db.deployments.get? id = some s) (hstored : DeploymentStored id s)
    (hstep : canTransition s.status target = true) (hzero : at_ ≠ 0) (hlate : s.updatedAt ≤ at_) :
    transitionDeployment db id target at_ =
      .ok { db with deployments := db.deployments.put id (advanceSnapshot s target at_) } := by
  obtain ⟨-, hvalid, -⟩ := rehydrate_eq_ok hstored.rehydrates
  have hmove := Aggregate.transition_of_step (d := s.aggregate) hvalid hstep hzero hlate
  have hne : ¬ (s.aggregate.advance target at_).revision = s.aggregate.revision := by
    simp [Aggregate.advance]
  simp only [transitionDeployment, hrow, found_some, ok_bind, hstored.rehydrates, Except.mapError, hmove,
    if_neg hne]
  exact saveTx_advance hrow hstored hstep hzero hlate

theorem transitionDeployment_of_same {db : DB} {id : String} {s : Snapshot} {at_ : Nat}
    (hrow : db.deployments.get? id = some s) (hstored : DeploymentStored id s) :
    transitionDeployment db id s.status at_ = .ok db := by
  obtain ⟨-, hvalid, -⟩ := rehydrate_eq_ok hstored.rehydrates
  have hsame : s.aggregate.transition s.status at_ = .ok s.aggregate := by
    have hstatus : s.aggregate.status = s.status := rfl
    simp [Aggregate.transition, hvalid, hstatus]
  simp [transitionDeployment, hrow, hstored.rehydrates, Except.mapError, hsame]

-- Everything a successful deployment transition can do.
theorem transitionDeployment_cases {db db' : DB} {id : String} {target : Status} {at_ : Nat}
    (hstored : ∀ s, db.deployments.get? id = some s → DeploymentStored id s)
    (h : transitionDeployment db id target at_ = .ok db') :
    ∃ s, db.deployments.get? id = some s ∧
      ((s.status = target ∧ db' = db) ∨
        (canTransition s.status target = true ∧ at_ ≠ 0 ∧ s.updatedAt ≤ at_ ∧
          db' = { db with deployments := db.deployments.put id (advanceSnapshot s target at_) })) := by
  have h' := h
  simp only [transitionDeployment, bind_eq_ok, found_eq_ok, mapError_eq_ok] at h
  obtain ⟨s, hrow, current, hcurrent, next, hnext, -⟩ := h
  obtain ⟨-, -, rfl⟩ := rehydrate_eq_ok hcurrent
  refine ⟨s, hrow, ?_⟩
  obtain ⟨-, hcase⟩ := Aggregate.transition_cases hnext
  rcases hcase with ⟨hsame, -⟩ | ⟨-, hstep, hzero, hlate, -⟩
  · left
    have hstatus : target = s.status := hsame
    subst hstatus
    rw [transitionDeployment_of_same hrow (hstored s hrow)] at h'
    exact ⟨rfl, (Except.ok.inj h').symm⟩
  · right
    have hmove := transitionDeployment_of_step hrow (hstored s hrow) hstep hzero hlate
    rw [hmove] at h'
    exact ⟨hstep, hzero, hlate, (Except.ok.inj h').symm⟩

end AutoDeploy.Store
