import AutoDeploy.Protocol.Invariant

namespace AutoDeploy.Protocol

open Function Lib Lib.Result Queue Store Deployment

-- How the statements of a transaction succeed, once the row they are about is known.

-- The database with one row written, or one table replaced.
def putJob (db : DB) (id : Nat) (row : Job) : DB := { db with jobs := db.jobs.put id row }

def putAttempt (db : DB) (id : Nat) (row : Attempt) : DB := { db with attempts := db.attempts.put id row }

def putSlot (db : DB) (id : String) (row : Slot) : DB := { db with slots := db.slots.put id row }

def putRelease (db : DB) (id : String) (row : Release) : DB := { db with releases := db.releases.put id row }

def putOperation (db : DB) (id : Nat) (row : Operation) : DB := { db with operations := db.operations.put id row }

def putRouteHead (db : DB) (id : String) (row : RouteHead) : DB := { db with routeHeads := db.routeHeads.put id row }

def setDeployments (db : DB) (deployments : Table String Snapshot) : DB := { db with deployments := deployments }

def setRouteHeads (db : DB) (routeHeads : Table String RouteHead) : DB := { db with routeHeads := routeHeads }

def setReleases (db : DB) (releases : Table String Release) : DB := { db with releases := releases }

@[simp] theorem view_putJob (db : DB) (id : Nat) (row : Job) :
    view (putJob db id row) = { view db with jobs := update (view db).jobs id (some row) } := by
  simp [view, putJob]

@[simp] theorem view_putAttempt (db : DB) (id : Nat) (row : Attempt) :
    view (putAttempt db id row) = { view db with attempts := update (view db).attempts id (some row) } := by
  simp [view, putAttempt]

@[simp] theorem view_putSlot (db : DB) (id : String) (row : Slot) :
    view (putSlot db id row) = { view db with slots := update (view db).slots id (some row) } := by
  simp [view, putSlot]

@[simp] theorem view_putRelease (db : DB) (id : String) (row : Release) :
    view (putRelease db id row) = { view db with releases := update (view db).releases id (some row) } := by
  simp [view, putRelease]

@[simp] theorem view_putOperation (db : DB) (id : Nat) (row : Operation) :
    view (putOperation db id row) = { view db with operations := update (view db).operations id (some row) } := by
  simp [view, putOperation]

@[simp] theorem view_putRouteHead (db : DB) (id : String) (row : RouteHead) :
    view (putRouteHead db id row) = { view db with routeHeads := update (view db).routeHeads id (some row) } := by
  simp [view, putRouteHead]

@[simp] theorem view_setDeployments (db : DB) (deployments : Table String Snapshot) :
    view (setDeployments db deployments) = { view db with deployments := deployments.get? } := rfl

@[simp] theorem view_setRouteHeads (db : DB) (routeHeads : Table String RouteHead) :
    view (setRouteHeads db routeHeads) = { view db with routeHeads := routeHeads.get? } := rfl

@[simp] theorem view_setReleases (db : DB) (releases : Table String Release) :
    view (setReleases db releases) = { view db with releases := releases.get? } := rfl

@[simp] theorem view_appendAgentJobEvent (db : DB) (jobID : Nat) (attemptID : Option Nat) (t : JobEventType) :
    view (appendAgentJobEvent db jobID attemptID t) = { view db with
      jobEvents := (view db).jobEvents ++ [⟨jobID, nextSequence db jobID, t, attemptID⟩] } := rfl

@[simp] theorem view_insertRouteEvent (db : DB) (e : RouteEvent) : view (insertRouteEvent db e) = view db := rfl

@[simp] theorem view_insertServerAuditEvent (db : DB) (e : ServerAuditEvent) :
    view (insertServerAuditEvent db e) = view db := rfl

-- Events of one attempt, whatever their numbers.
theorem view_appendEvents (db : DB) (jobID attemptID : Nat) (types : List JobEventType) :
    ∃ events, Concerns jobID attemptID events ∧ events.map JobEvent.eventType = types ∧
      view (types.foldl (fun db t => appendAgentJobEvent db jobID (some attemptID) t) db) =
        { view db with jobEvents := (view db).jobEvents ++ events } := by
  induction types generalizing db with
  | nil => exact ⟨[], by simp [Concerns], rfl, by simp⟩
  | cons t rest ih =>
      obtain ⟨events, hconcerns, htypes, hview⟩ := ih (appendAgentJobEvent db jobID (some attemptID) t)
      refine ⟨⟨jobID, nextSequence db jobID, t, some attemptID⟩ :: events, ?_, by simp [htypes], ?_⟩
      · simpa [Concerns] using hconcerns
      · simp [hview]

theorem unreconciled_of_types {events : List JobEvent} (h : .reconciled ∉ events.map JobEvent.eventType) :
    Unreconciled events := by
  intro e he hreconciled
  exact h (List.mem_map.2 ⟨e, he, hreconciled⟩)

section

variable {db db' : DB} {n : Nat}

theorem update_iff {κ α ε : Type} [DecidableEq κ] {t : Table κ α} {k : κ} {old : α} {condition : α → Bool}
    {set : α → α} {check : α → α → Except ε Unit} (store : Table κ α → DB) (hrow : t.get? k = some old)
    (hcond : condition old = true) :
    (do
        let (t', n) ← t.update k condition set check
        pure (store t', n) : Except ε (DB × Nat)) = .ok (db', n) ↔
      check old (set old) = .ok () ∧ db' = store (t.put k (set old)) ∧ n = 1 := by
  simp only [Table.update, hrow, hcond, if_true, bind_eq_ok, pure_eq_ok, Prod.mk.injEq]
  constructor
  · rintro ⟨_, ⟨_, hcheck, rfl⟩, rfl, rfl⟩
    exact ⟨hcheck, rfl, rfl⟩
  · rintro ⟨hcheck, rfl, rfl⟩
    exact ⟨_, ⟨(), hcheck, rfl⟩, rfl, rfl⟩

theorem updateJob_iff {id : Nat} {old : Job} {condition : Job → Bool} {set : Job → Job}
    (hrow : db.jobs.get? id = some old) (hcond : condition old = true) :
    updateJob db id condition set = .ok (db', n) ↔
      validateAgentJobUpdate old (set old) = .ok () ∧ db' = putJob db id (set old) ∧ n = 1 :=
  update_iff (fun jobs => { db with jobs := jobs }) hrow hcond

theorem updateAttempt_iff {id : Nat} {old : Attempt} {condition : Attempt → Bool} {set : Attempt → Attempt}
    (hrow : db.attempts.get? id = some old) (hcond : condition old = true) :
    updateAttempt db id condition set = .ok (db', n) ↔
      validateAgentJobAttemptUpdate db old (set old) = .ok () ∧ db' = putAttempt db id (set old) ∧ n = 1 :=
  update_iff (fun attempts => { db with attempts := attempts }) hrow hcond

theorem updateSlot_iff {id : String} {old : Slot} {condition : Slot → Bool} {set : Slot → Slot}
    (hrow : db.slots.get? id = some old) (hcond : condition old = true) :
    updateSlot db id condition set = .ok (db', n) ↔
      validateEnvironmentSlotUpdate db old (set old) = .ok () ∧ db' = putSlot db id (set old) ∧ n = 1 :=
  update_iff (fun slots => { db with slots := slots }) hrow hcond

theorem updateRelease_iff {id : String} {old : Release} {condition : Release → Bool} {set : Release → Release}
    (hrow : db.releases.get? id = some old) (hcond : condition old = true) :
    updateRelease db id condition set = .ok (db', n) ↔
      validateReleaseUpdate db id old (set old) = .ok () ∧ db' = putRelease db id (set old) ∧ n = 1 :=
  update_iff (fun releases => { db with releases := releases }) hrow hcond

theorem updateOperation_iff {id : Nat} {old : Operation} {condition : Operation → Bool} {set : Operation → Operation}
    (hrow : db.operations.get? id = some old) (hcond : condition old = true) :
    updateOperation db id condition set = .ok (db', n) ↔
      validateReleaseOperationUpdate db id old (set old) = .ok () ∧ db' = putOperation db id (set old) ∧ n = 1 :=
  update_iff (fun operations => { db with operations := operations }) hrow hcond

theorem updateRouteHead_iff {id : String} {old : RouteHead} {condition : RouteHead → Bool} {set : RouteHead → RouteHead}
    (hrow : db.routeHeads.get? id = some old) (hcond : condition old = true) :
    updateRouteHead db id condition set = .ok (db', n) ↔
      validateRouteHeadUpdate db id old (set old) = .ok () ∧ db' = putRouteHead db id (set old) ∧ n = 1 :=
  update_iff (fun routeHeads => { db with routeHeads := routeHeads }) hrow hcond

-- A deployment transition writes the deployment's row and nothing else.
theorem transitionDeployment_moves {id : String} {target : Status} {now : Nat}
    (h : transitionDeployment db id target now = .ok db')
    (hstored : Every db.deployments.get? DeploymentStored) :
    ∃ deployments s s', db' = setDeployments db deployments ∧ db.deployments.get? id = some s ∧
      Moves now target s s' ∧ deployments.get? = update db.deployments.get? id (some s') := by
  obtain ⟨s, hrow, ⟨hsame, rfl⟩ | ⟨hstep, hzero, hlate, rfl⟩⟩ := transitionDeployment_cases (hstored id) h
  · exact ⟨db'.deployments, s, s, rfl, hrow, .same hsame, (update_row hrow).symm⟩
  · exact ⟨_, s, _, rfl, hrow, .step hstep hzero hlate, Table.get?_put_eq_update _ _ _⟩

theorem validateRouteHeadUpdate_eq_ok {environmentID : String} {old new : RouteHead} :
    validateRouteHeadUpdate db environmentID old new = .ok () ↔
      (if new.routeRevision = old.routeRevision then
        new.reconciliationRequired ≠ old.reconciliationRequired ∧ new.hostname = old.hostname ∧
          new.activeReleaseID = old.activeReleaseID ∧ new.createdAt = old.createdAt
      else new.routeRevision = old.routeRevision + 1) ∧
      old.updatedAt ≤ new.updatedAt ∧ (old.activeReleaseID.isSome → new.hostname = old.hostname) ∧
      new.createdAt ≤ new.updatedAt ∧
      db.routeHeads.any (fun k h => k != environmentID && h.hostname == new.hostname) = false ∧
      ∀ id ∈ new.activeReleaseID, (db.releases.get? id).any fun r => r.environmentID == environmentID := by
  by_cases hrevision : new.routeRevision = old.routeRevision
  · simp only [validateRouteHeadUpdate, hrevision, if_true, bind_eq_ok, require_eq_ok, exists_const]
  · simp only [validateRouteHeadUpdate, hrevision, if_false, bind_eq_ok, require_eq_ok, exists_const]

end

end AutoDeploy.Protocol
