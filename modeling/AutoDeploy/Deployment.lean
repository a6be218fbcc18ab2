import AutoDeploy.Lib.Result

namespace AutoDeploy

open Lib.Result

-- Instants are microseconds since the zero instant of the source's clock: database timestamps
-- are stored at that precision, and 0 is the value `IsZero` recognises.

namespace Deployment

inductive Status where
  | queued
  | assigned
  | fetching
  | building
  | starting
  | healthChecking
  | activating
  | healthy
  | failed
  | cancelled
  | superseded
  | rolledBack
deriving DecidableEq, Repr

structure Identity where
  deploymentID : String
  projectID : String
  environmentID : String
  serverID : String
  commitSHA : String
deriving DecidableEq, Repr

-- One immutable state change. The creation event has no source status.
structure Event where
  fromStatus : Option Status
  toStatus : Status
  occurredAt : Nat
deriving DecidableEq, Repr

def currentSchemaVersion : Nat := 1

-- What is persisted: the head row together with its event rows in revision order.
structure Snapshot where
  version : Nat
  identity : Identity
  status : Status
  createdAt : Nat
  updatedAt : Nat
  revision : Nat
  events : List Event
deriving DecidableEq, Repr

structure Aggregate where
  identity : Identity
  status : Status
  createdAt : Nat
  updatedAt : Nat
  revision : Nat
  events : List Event
deriving DecidableEq, Repr

-- The reasons `validate` gives. The database's status check already rules out an unknown status.
inductive Defect where
  | deploymentIDRequired
  | projectIDRequired
  | environmentIDRequired
  | serverIDRequired
  | commitSHARequired
  | timestamps
  | revisionCount
  | creationEventRequired
  | creationEvent
  | eventTimestamp (index : Nat)
  | eventTransition (source target : Option Status)
  | disagreesWithEvents
deriving DecidableEq, Repr

inductive Error where
  | invalidDeployment (cause : Defect)
  | unsupportedVersion (version : Nat)
  | invalidSnapshot (cause : Defect)
  | invalidTransition (current requested : Status)
  | terminalState (current : Status)
  | invalidTimestamp (current requested : Status)
deriving DecidableEq, Repr

def isTerminal : Status → Bool
  | .failed | .cancelled | .superseded | .rolledBack => true
  | _ => false

def canTransition : Status → Status → Bool
  | .queued, target => target == .assigned || target == .cancelled || target == .superseded
  | .assigned, target => target == .fetching || target == .cancelled || target == .failed
  | .fetching, target => target == .building || target == .cancelled || target == .failed
  | .building, target => target == .starting || target == .cancelled || target == .failed
  | .starting, target => target == .healthChecking || target == .cancelled || target == .failed
  | .healthChecking, target => target == .activating || target == .cancelled || target == .failed
  | .activating, target => target == .healthy || target == .failed
  | .healthy, target => target == .rolledBack
  | _, _ => false

-- The phases an agent may report progress for.
def agentReportablePhase : Status → Bool
  | .fetching | .building | .starting | .healthChecking => true
  | _ => false

-- The position along the linear execution path, when the status is on it.
def executionOrder : Status → Option Nat
  | .queued => some 0
  | .assigned => some 1
  | .fetching => some 2
  | .building => some 3
  | .starting => some 4
  | .healthChecking => some 5
  | .activating => some 6
  | .healthy => some 7
  | _ => none

def validateIdentity (i : Identity) : Except Defect Unit :=
  if i.deploymentID = "" then .error .deploymentIDRequired
  else if i.projectID = "" then .error .projectIDRequired
  else if i.environmentID = "" then .error .environmentIDRequired
  else if i.serverID = "" then .error .serverIDRequired
  else if i.commitSHA = "" then .error .commitSHARequired
  else .ok ()

-- The walk over the events after the creation event: each one starts where the last ended.
def validateEvents (current : Status) (previousAt : Nat) (index : Nat) :
    List Event → Except Defect (Status × Nat)
  | [] => .ok (current, previousAt)
  | event :: rest =>
      if event.occurredAt = 0 ∨ event.occurredAt < previousAt then .error (.eventTimestamp index)
      else if event.fromStatus ≠ some current ∨ canTransition current event.toStatus = false then
        .error (.eventTransition event.fromStatus (some event.toStatus))
      else validateEvents event.toStatus event.occurredAt (index + 1) rest

def Aggregate.validate (d : Aggregate) : Except Defect Unit := do
  validateIdentity d.identity
  require (d.createdAt ≠ 0 ∧ d.updatedAt ≠ 0 ∧ d.createdAt ≤ d.updatedAt) .timestamps
  require (d.revision ≠ 0 ∧ d.revision = d.events.length) .revisionCount
  let first ← found d.events.head? .creationEventRequired
  require (first = ⟨none, .queued, d.createdAt⟩) .creationEvent
  let last ← validateEvents .queued d.createdAt 1 d.events.tail
  require (last = (d.status, d.updatedAt)) .disagreesWithEvents

def new (identity : Identity) (createdAt : Nat) : Except Error Aggregate :=
  match validateIdentity identity with
  | .error e => .error (.invalidDeployment e)
  | .ok () =>
      if createdAt = 0 then .error (.invalidDeployment .timestamps)
      else .ok ⟨identity, .queued, createdAt, createdAt, 1, [⟨none, .queued, createdAt⟩]⟩

def Snapshot.aggregate (s : Snapshot) : Aggregate :=
  ⟨s.identity, s.status, s.createdAt, s.updatedAt, s.revision, s.events⟩

def Aggregate.stored (d : Aggregate) : Snapshot :=
  ⟨currentSchemaVersion, d.identity, d.status, d.createdAt, d.updatedAt, d.revision, d.events⟩

def rehydrate (s : Snapshot) : Except Error Aggregate :=
  if s.version ≠ currentSchemaVersion then .error (.unsupportedVersion s.version)
  else
    match s.aggregate.validate with
    | .error e => .error (.invalidSnapshot e)
    | .ok () => .ok s.aggregate

def Aggregate.snapshot (d : Aggregate) : Except Error Snapshot :=
  match d.validate with
  | .error e => .error (.invalidDeployment e)
  | .ok () => .ok d.stored

-- The aggregate after one real transition.
def Aggregate.advance (d : Aggregate) (target : Status) (at_ : Nat) : Aggregate :=
  { d with
    status := target
    updatedAt := at_
    revision := d.revision + 1
    events := d.events ++ [⟨some d.status, target, at_⟩] }

-- Repeating the current status changes nothing; every other request must move time and the
-- status forward along the lifecycle.
def Aggregate.transition (d : Aggregate) (target : Status) (at_ : Nat) : Except Error Aggregate :=
  match d.validate with
  | .error e => .error (.invalidDeployment e)
  | .ok () =>
      if target = d.status then .ok d
      else if at_ = 0 ∨ at_ < d.updatedAt then .error (.invalidTimestamp d.status target)
      else if isTerminal d.status then .error (.terminalState d.status)
      else if canTransition d.status target = false then .error (.invalidTransition d.status target)
      else .ok (d.advance target at_)

theorem validateEvents_append (current : Status) (previousAt : Nat) (index : Nat)
    (events : List Event) (event : Event) {last : Status} {lastAt : Nat}
    (hvalid : validateEvents current previousAt index events = .ok (last, lastAt))
    (hsource : event.fromStatus = some last) (hstep : canTransition last event.toStatus = true)
    (hzero : event.occurredAt ≠ 0) (hlate : lastAt ≤ event.occurredAt) :
    validateEvents current previousAt index (events ++ [event]) =
      .ok (event.toStatus, event.occurredAt) := by
  induction events generalizing current previousAt index with
  | nil =>
      simp only [validateEvents, Except.ok.injEq, Prod.mk.injEq] at hvalid
      obtain ⟨rfl, rfl⟩ := hvalid
      simp [validateEvents, hsource, hstep, hzero, Nat.not_lt.2 hlate]
  | cons head rest ih =>
      simp only [validateEvents, List.cons_append] at hvalid ⊢
      split at hvalid
      · cases hvalid
      · rename_i htime
        split at hvalid
        · cases hvalid
        · rename_i hmove
          rw [if_neg htime, if_neg hmove]
          exact ih _ _ _ hvalid

theorem Aggregate.validate_eq_ok {d : Aggregate} :
    d.validate = .ok () ↔
      validateIdentity d.identity = .ok () ∧
      (d.createdAt ≠ 0 ∧ d.updatedAt ≠ 0 ∧ d.createdAt ≤ d.updatedAt) ∧
      (d.revision ≠ 0 ∧ d.revision = d.events.length) ∧
      d.events.head? = some ⟨none, .queued, d.createdAt⟩ ∧
      validateEvents .queued d.createdAt 1 d.events.tail = .ok (d.status, d.updatedAt) := by
  simp only [validate, bind_eq_ok, require_eq_ok, found_eq_ok]
  constructor
  · rintro ⟨u, hid, v, htimes, w, hcount, first, hhead, x, rfl, last, hwalk, rfl⟩
    exact ⟨hid, htimes, hcount, hhead, hwalk⟩
  · rintro ⟨hid, htimes, hcount, hhead, hwalk⟩
    exact ⟨(), hid, (), htimes, (), hcount, _, hhead, (), rfl, _, hwalk, rfl⟩

-- A real transition of a valid aggregate is valid again.
theorem Aggregate.validate_advance {d : Aggregate} {target : Status} {at_ : Nat}
    (hvalid : d.validate = .ok ()) (hstep : canTransition d.status target = true)
    (hzero : at_ ≠ 0) (hlate : d.updatedAt ≤ at_) : (d.advance target at_).validate = .ok () := by
  obtain ⟨hid, ⟨hcreated, hupdated, horder⟩, ⟨hrevision, hcount⟩, hhead, hwalk⟩ :=
    validate_eq_ok.1 hvalid
  obtain ⟨first, rest, hevents⟩ : ∃ first rest, d.events = first :: rest := by
    cases hcase : d.events with
    | nil => simp [hcase] at hhead
    | cons first rest => exact ⟨first, rest, rfl⟩
  have hwalk' := validateEvents_append .queued d.createdAt 1 d.events.tail
    ⟨some d.status, target, at_⟩ hwalk rfl hstep hzero hlate
  refine validate_eq_ok.2 ⟨hid, ⟨hcreated, hzero, Nat.le_trans horder hlate⟩, ⟨by simp [advance], ?_⟩, ?_, ?_⟩
  · simp [advance, hcount]
  · simpa [advance, hevents] using hhead
  · simpa [advance, hevents] using hwalk'

theorem Aggregate.transition_of_step {d : Aggregate} {target : Status} {at_ : Nat}
    (hvalid : d.validate = .ok ()) (hstep : canTransition d.status target = true)
    (hzero : at_ ≠ 0) (hlate : d.updatedAt ≤ at_) : d.transition target at_ = .ok (d.advance target at_) := by
  have hne : target ≠ d.status := by
    rintro rfl
    revert hstep
    cases d.status <;> decide
  have hterminal : isTerminal d.status = false := by
    revert hstep
    cases d.status <;> cases target <;> decide
  have htime : ¬ (at_ = 0 ∨ at_ < d.updatedAt) := by omega
  simp [transition, hvalid, hne, htime, hterminal, hstep]

-- Everything a successful transition can do.
theorem Aggregate.transition_cases {d d' : Aggregate} {target : Status} {at_ : Nat}
    (h : d.transition target at_ = .ok d') :
    d.validate = .ok () ∧
      ((target = d.status ∧ d' = d) ∨
        (target ≠ d.status ∧ canTransition d.status target = true ∧ at_ ≠ 0 ∧ d.updatedAt ≤ at_ ∧
          d' = d.advance target at_)) := by
  unfold transition at h
  split at h
  · cases h
  · rename_i hvalid
    refine ⟨hvalid, ?_⟩
    split at h
    · rename_i hsame
      exact .inl ⟨hsame, (Except.ok.inj h).symm⟩
    · rename_i hne
      split at h
      · cases h
      · rename_i htime
        split at h
        · cases h
        · split at h
          · cases h
          · rename_i hstep
            exact .inr ⟨hne, by simpa using hstep, by omega, by omega, (Except.ok.inj h).symm⟩

end Deployment

end AutoDeploy
