import AutoDeploy.Lib.Calendar
import AutoDeploy.Lib.Prefixed
import AutoDeploy.Webhook.Push

namespace AutoDeploy.Queue

open Lib Store Webhook

-- A point in time with the place it is shown in. Only one place is time.UTC itself.
structure JobTime where
  time : CalendarTime
  utc : Bool
  utc_offset : utc = true → time.fields.offset = 0
deriving DecidableEq

namespace JobTime

def wholeMicroseconds (t : JobTime) : Bool := t.time.fields.nanosecond % 1000 == 0

end JobTime

def currentSchemaVersion : Nat := 1

def stateQueued : String := "queued"

def kindDeploymentExecution : String := "deployment_execution"

structure DeploymentExecutionJob where
  version : Nat
  kind : String
  ownerID : String
  projectID : String
  environmentID : String
  serverID : String
  deploymentID : String
  repositoryID : Int
  ref : String
  commitSHA : String
  priority : Int
  availableAt : JobTime
  idempotencyKey : String
  payloadDigest : Digest
  state : String
deriving DecidableEq

-- Everything of a job but its digest, in the order it is hashed.
def payloadParts (j : DeploymentExecutionJob) : List Bytes :=
  [Bytes.decimal j.version, Bytes.ofString j.kind, Bytes.ofString j.ownerID, Bytes.ofString j.projectID,
    Bytes.ofString j.environmentID, Bytes.ofString j.serverID, Bytes.ofString j.deploymentID,
    Bytes.integer j.repositoryID, Bytes.ofString j.ref, Bytes.ofString j.commitSHA, Bytes.integer j.priority,
    j.availableAt.time.format, Bytes.ofString j.idempotencyKey, Bytes.ofString j.state]

def payloadEncoding (j : DeploymentExecutionJob) : Bytes := Bytes.netstrings (payloadParts j)

def payloadDigest (j : DeploymentExecutionJob) : Digest := Sha256.sum (payloadEncoding j)

-- The digest of a job as it is kept in the job.
def DeploymentExecutionJob.sealed (j : DeploymentExecutionJob) : DeploymentExecutionJob :=
  { j with payloadDigest := Queue.payloadDigest j }

def DeploymentExecutionJob.fieldsValid (j : DeploymentExecutionJob) : Bool :=
  decide (j.version = currentSchemaVersion) && decide (j.kind = kindDeploymentExecution) && validOpaqueID j.ownerID &&
    validOpaqueID j.projectID && validOpaqueID j.environmentID && validOpaqueID j.serverID &&
    validOpaqueID j.deploymentID && decide (0 < j.repositoryID) && validBranchRef j.ref && validCommitSHA j.commitSHA &&
    decide (-100 ≤ j.priority ∧ j.priority ≤ 100) && !j.availableAt.time.isZero && j.availableAt.utc &&
    j.availableAt.wholeMicroseconds && validOpaqueID j.idempotencyKey && decide (j.state = stateQueued)

def DeploymentExecutionJob.valid (j : DeploymentExecutionJob) : Bool :=
  j.fieldsValid && decide (j.payloadDigest = Queue.payloadDigest j)

theorem payloadDigest_sealed (j : DeploymentExecutionJob) : payloadDigest j.sealed = payloadDigest j := rfl

theorem DeploymentExecutionJob.utc_of_valid {j : DeploymentExecutionJob} (h : j.valid = true) :
    j.availableAt.utc = true := by
  simp only [DeploymentExecutionJob.valid, DeploymentExecutionJob.fieldsValid, Bool.and_eq_true] at h
  exact h.1.1.1.1.2

-- The time is shown in UTC, where its text says which time it is.
theorem eq_of_payloadParts {j j' : DeploymentExecutionJob} (hutc : j.availableAt.utc = true)
    (hutc' : j'.availableAt.utc = true) (hdigest : j.payloadDigest = j'.payloadDigest)
    (h : payloadParts j = payloadParts j') : j = j' := by
  obtain ⟨version, kind, owner, project, environment, server, deployment, repository, ref, commit, priority,
    ⟨time, utc, hoffset⟩, key, digest, state⟩ := j
  obtain ⟨version', kind', owner', project', environment', server', deployment', repository', ref', commit', priority',
    ⟨time', utc', hoffset'⟩, key', digest', state'⟩ := j'
  simp only at hutc hutc' hdigest
  subst hutc hutc' hdigest
  simp only [payloadParts, List.cons.injEq, and_true] at h
  obtain ⟨hversion, hkind, howner, hproject, henvironment, hserver, hdeployment, hrepository, href, hcommit, hpriority,
    htime, hkey, hstate⟩ := h
  obtain rfl := Bytes.decimal_injective hversion
  obtain rfl := Bytes.ofString_injective hkind
  obtain rfl := Bytes.ofString_injective howner
  obtain rfl := Bytes.ofString_injective hproject
  obtain rfl := Bytes.ofString_injective henvironment
  obtain rfl := Bytes.ofString_injective hserver
  obtain rfl := Bytes.ofString_injective hdeployment
  obtain rfl := Bytes.integer_injective hrepository
  obtain rfl := Bytes.ofString_injective href
  obtain rfl := Bytes.ofString_injective hcommit
  obtain rfl := Bytes.integer_injective hpriority
  obtain rfl := CalendarTime.format_injective (hoffset rfl) (hoffset' rfl) htime
  obtain rfl := Bytes.ofString_injective hkey
  obtain rfl := Bytes.ofString_injective hstate
  rfl

-- Equal digests mean equal jobs, unless the two encodings collide.
theorem eq_of_payloadDigest {j j' : DeploymentExecutionJob} (hj : j.valid = true) (hj' : j'.valid = true)
    (hsha : Sha256.sum (payloadEncoding j) = Sha256.sum (payloadEncoding j') →
      payloadEncoding j = payloadEncoding j')
    (h : j.payloadDigest = j'.payloadDigest) : j = j' := by
  have hdigest {j : DeploymentExecutionJob} (hj : j.valid = true) :
      j.payloadDigest = Sha256.sum (payloadEncoding j) := by
    simp only [DeploymentExecutionJob.valid, Bool.and_eq_true, decide_eq_true_eq] at hj
    exact hj.2
  have hencoding := hsha (by rw [← hdigest hj, h, hdigest hj'])
  exact eq_of_payloadParts (DeploymentExecutionJob.utc_of_valid hj) (DeploymentExecutionJob.utc_of_valid hj') h
    (Bytes.netstrings_injective hencoding)

end AutoDeploy.Queue
