import Mathlib.Algebra.Group.Nat.Defs
import AutoDeploy.Deployment.History
import AutoDeploy.Errors
import AutoDeploy.Lib.Table

namespace AutoDeploy.Deployment.History.Repository

open Lib Lib.Result

-- The deployment repository, statement by statement, on the two tables it writes.

-- A time column holds whole microseconds. They are read back in the location of the reading process.
def toColumn (t : Instant) : Int := t.nanoseconds / 1000

def ofColumn (location : Option String) (microseconds : Int) : Instant := ⟨microseconds * 1000, location, none⟩

structure Head where
  identity : Identity
  schemaVersion : Nat
  status : AnyStatus
  createdAt : Int
  updatedAt : Int
  revision : Nat
deriving DecidableEq, Repr

structure EventRow where
  deploymentID : String
  revision : Nat
  fromStatus : AnyStatus
  toStatus : AnyStatus
  occurredAt : Int
deriving DecidableEq, Repr

-- The event rows stand in the order they were inserted in.
structure Tables where
  deployments : Table String Head
  deploymentEvents : List EventRow

def Tables.empty : Tables := ⟨.empty, []⟩

def Tables.rowsOf (t : Tables) (id : String) : List EventRow := t.deploymentEvents.filter (·.deploymentID = id)

inductive RepositoryError where
  | domain (e : History.Error)
  | revisionOverflow
  | notFound (detail : String)
  | alreadyExists (id : String)
  | revisionConflict (detail : String)
  | rehydrate (context : String) (e : History.Error)
  | database (context : String) (e : DbError)
deriving DecidableEq, Repr

def AnyStatus.text : AnyStatus → String
  | .known status => status.text
  | .other text => text

-- The constraints both statements on `deployments` meet.
def checkHead (head : Head) : Except DbError Unit := do
  require (head.identity.deploymentID ≠ "") (.checkViolation "deployments" "deployments_id_check")
  require (head.identity.projectID ≠ "") (.checkViolation "deployments" "deployments_project_id_check")
  require (head.identity.environmentID ≠ "") (.checkViolation "deployments" "deployments_environment_id_check")
  require (head.identity.serverID ≠ "") (.checkViolation "deployments" "deployments_server_id_check")
  require (head.identity.commitSHA ≠ "") (.checkViolation "deployments" "deployments_commit_sha_check")
  require (0 < head.schemaVersion) (.checkViolation "deployments" "deployments_schema_version_check")
  require (isKnownStatus head.status) (.checkViolation "deployments" "deployments_status_check")
  require (head.createdAt ≤ head.updatedAt) (.checkViolation "deployments" "deployments_check")
  require (0 < head.revision) (.checkViolation "deployments" "deployments_revision_check")

-- The trigger before an event row is inserted.
def validateDeploymentEvent (t : Tables) (row : EventRow) : Except DbError Unit := do
  let head ← found (t.deployments.get? row.deploymentID)
    (.raised ("deployment " ++ row.deploymentID ++ " does not exist"))
  if row.revision = 1 then
    require (row.fromStatus = .empty ∧ row.toStatus = .known .queued ∧ row.occurredAt = head.createdAt)
      (.raised "invalid deployment creation event")
  else
    let previous ← found
      (t.deploymentEvents.find? fun r => r.deploymentID = row.deploymentID ∧ r.revision + 1 = row.revision)
      (.raised "deployment event must follow its predecessor")
    require (previous.occurredAt ≤ row.occurredAt) (.raised "deployment event must follow its predecessor")
    require (row.fromStatus = previous.toStatus ∧ canTransition row.fromStatus row.toStatus)
      (.raised ("invalid deployment transition " ++ AnyStatus.text row.fromStatus ++ " -> " ++
        AnyStatus.text row.toStatus))

def insertEvent (t : Tables) (row : EventRow) : Except DbError Tables := do
  validateDeploymentEvent t row
  require (0 < row.revision) (.checkViolation "deployment_events" "deployment_events_revision_check")
  require (row.fromStatus = .empty ∨ isKnownStatus row.fromStatus)
    (.checkViolation "deployment_events" "deployment_events_from_status_check")
  require (isKnownStatus row.toStatus) (.checkViolation "deployment_events" "deployment_events_to_status_check")
  require (∀ r ∈ t.deploymentEvents, ¬ (r.deploymentID = row.deploymentID ∧ r.revision = row.revision))
    (.uniqueViolation "deployment_events_pkey")
  pure { t with deploymentEvents := t.deploymentEvents ++ [row] }

def eventRow (id : String) (revision : Nat) (event : Event) : EventRow :=
  ⟨id, revision, event.source, event.target, toColumn event.occurredAt⟩

def insertEvents (t : Tables) (id : String) (next : Nat) : List Event → Except DbError Tables
  | [] => .ok t
  | event :: rest => do
      let t ← insertEvent t (eventRow id next event)
      insertEvents t id (next + 1) rest

-- New events are numbered from the count of those that are there.
def appendEvents (t : Tables) (id : String) (events : List Event) : Except RepositoryError Tables :=
  (insertEvents t id ((t.rowsOf id).length + 1) events).mapError (.database "append deployment event")

def postgresRevision (revision : Nat) : Except RepositoryError Nat :=
  if 2 ^ 63 - 1 < revision then .error .revisionOverflow else .ok revision

def checkedSnapshot (value : Aggregate) : Except RepositoryError Snapshot := do
  let snapshot ← value.snapshot.mapError .domain
  let _ ← postgresRevision snapshot.revision
  pure snapshot

def headOf (s : Snapshot) : Head :=
  ⟨s.identity, s.version, s.status, toColumn s.createdAt, toColumn s.updatedAt, s.revision⟩

def createTx (t : Tables) (value : Aggregate) : Except RepositoryError Tables := do
  let snapshot ← checkedSnapshot value
  let id := snapshot.identity.deploymentID
  (checkHead (headOf snapshot)).mapError (.database "insert deployment")
  require (t.deployments.contains id = false) (.alreadyExists id)
  appendEvents { t with deployments := t.deployments.put id (headOf snapshot) } id snapshot.events

def readEvent (location : Option String) (row : EventRow) : Event :=
  ⟨row.fromStatus, row.toStatus, ofColumn location row.occurredAt⟩

-- The head row that was read, with the event rows in the order of their revisions.
def assemble (location : Option String) (head : Head) (rows : List EventRow) : Snapshot :=
  ⟨head.schemaVersion, head.identity, head.status, ofColumn location head.createdAt, ofColumn location head.updatedAt,
    head.revision, (rows.mergeSort fun a b => a.revision ≤ b.revision).map (readEvent location)⟩

def readSnapshot (location : Option String) (t : Tables) (id : String) : Except RepositoryError Snapshot := do
  let head ← found (t.deployments.get? id) (.notFound id)
  pure (assemble location head (t.rowsOf id))

def getByID (location : Option String) (t : Tables) (id : String) : Except RepositoryError Aggregate := do
  require (id ≠ "") (.notFound "empty ID")
  let snapshot ← readSnapshot location t id
  (rehydrate snapshot).mapError (.rehydrate ("rehydrate deployment " ++ id))

-- Events are compared by their statuses and instants, whatever location an instant is shown in.
def matchingPrefix : List Event → List Event → Bool
  | [], _ => true
  | _ :: _, [] => false
  | stored :: rest, candidate :: others =>
      stored.source == candidate.source && stored.target == candidate.target &&
        stored.occurredAt.equal candidate.occurredAt && matchingPrefix rest others

-- The checks between reading what is stored and replacing it. Rehydrating normalises the times of the stored events in
-- place, so the prefix is compared after that.
def checkSave (snapshot stored : Snapshot) : Except RepositoryError Unit := do
  let id := snapshot.identity.deploymentID
  require (stored.identity = snapshot.identity) (.revisionConflict "immutable identity")
  let _ ← (rehydrate stored).mapError (.rehydrate ("rehydrate stored deployment " ++ id))
  require (stored.revision ≤ snapshot.revision ∧ matchingPrefix stored.canonical.events snapshot.events)
    (.revisionConflict id)
  require (stored.revision ≠ snapshot.revision) (.revisionConflict id)

-- The conditional update of the head, and the events that are not stored yet.
def writeSave (t : Tables) (snapshot stored : Snapshot) : Except RepositoryError Tables := do
  let id := snapshot.identity.deploymentID
  let head ← found ((t.deployments.get? id).filter fun head => head.revision = stored.revision) (.revisionConflict id)
  let next : Head := { head with
    schemaVersion := snapshot.version
    status := snapshot.status
    updatedAt := toColumn snapshot.updatedAt
    revision := snapshot.revision }
  (checkHead next).mapError (.database "update deployment")
  appendEvents { t with deployments := t.deployments.put id next } id (snapshot.events.drop stored.revision)

-- Save in one piece.
def saveTx (location : Option String) (t : Tables) (value : Aggregate) : Except RepositoryError Tables := do
  let snapshot ← checkedSnapshot value
  let id := snapshot.identity.deploymentID
  let _ ← found (t.deployments.get? id) (.notFound id)
  let stored ← readSnapshot location t id
  checkSave snapshot stored
  writeSave t snapshot stored

-- What the domain package lets a program hold: the fields of a deployment are its own.
inductive Value : Aggregate → Prop
  | zero : Value ⟨⟨"", "", "", "", ""⟩, .empty, ⟨0, none, none⟩, ⟨0, none, none⟩, 0, []⟩
  | new {identity : Identity} {createdAt : Instant} {d : Aggregate} (h : new identity createdAt = .ok d) : Value d
  | rehydrate {s : Snapshot} {d : Aggregate} (h : rehydrate s = .ok d) : Value d
  | transition {d d' : Aggregate} {target : AnyStatus} {at_ : Instant} (hd : Value d)
      (h : d.transition target at_ = .ok d') : Value d'

end AutoDeploy.Deployment.History.Repository
