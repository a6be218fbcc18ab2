import AutoDeploy.Crypto.Binding
import Mathlib.Data.List.Sort

namespace AutoDeploy.Secret

open Lib Lib.Result Crypto

inductive State where
  | active
  | superseded
  | revoked
deriving DecidableEq, Repr

-- What a secret belongs to. `Crypto.Scope` adds the version.
structure Scope where
  ownerID : Bytes
  projectID : Bytes
  environmentID : Bytes
  secretID : Bytes
  purpose : Bytes
  deliveryScope : Bytes
deriving DecidableEq, Repr

structure Version where
  id : Bytes
  scope : Scope
  number : Nat
  state : State
  envelope : Envelope
  envelopeRevision : Nat
deriving DecidableEq, Repr

inductive Action where
  | created
  | replaced
  | replacedCompromised
  | materialized
deriving DecidableEq, Repr

inductive Outcome where
  | success
  | denied
  | failed
deriving DecidableEq, Repr

structure Audit where
  id : Bytes
  ownerID : Bytes
  secretID : Bytes
  versionID : Bytes
  action : Action
  actorID : Bytes
  serviceID : Bytes
  deploymentID : Bytes
  leaseID : Bytes
  result : Outcome
  oldVersionID : Bytes
  kekID : Bytes
deriving DecidableEq, Repr

structure Mutation where
  version : Version
  audit : Audit
deriving DecidableEq, Repr

-- The tables of migration 000004, without their timestamps.
structure Head where
  ownerID : Bytes
  projectID : Bytes
  environmentID : Bytes
  purpose : Bytes
  deliveryScope : Bytes
  currentVersionID : Option Bytes
  revision : Nat
deriving DecidableEq, Repr

structure VersionRow where
  secretID : Bytes
  ownerID : Bytes
  projectID : Bytes
  environmentID : Bytes
  number : Nat
  state : State
  envelope : Envelope
  envelopeRevision : Nat
deriving DecidableEq, Repr

structure AuditRow where
  audit : Audit
  projectID : Bytes
  environmentID : Bytes
deriving DecidableEq, Repr

structure WrapInvocations where
  reserved : Nat
  generationID : Bytes
deriving DecidableEq, Repr

structure DB where
  heads : Table Bytes Head
  versions : Table Bytes VersionRow
  audits : Table Bytes AuditRow
  wrapInvocations : Table Bytes WrapInvocations
  generationID : Bytes

-- A fresh database: the migration chose its generation.
def DB.created (generationID : Bytes) : DB := ⟨.empty, .empty, .empty, .empty, generationID⟩

inductive StoreError where
  | invalidInput
  | alreadyExists
  | revisionConflict
  | notFound
  | corrupt
  | wrapInvocationExhausted
  | keyLedgerContinuity
  | database
deriving DecidableEq, Repr

-- Text the database stores.
def storable (text : Bytes) : Bool := Utf8.validString text && !text.any (· == 0)

def maxInt64 : Nat := 2 ^ 63 - 1

-- The ledger of wrap invocations.
def maxReservedWrapInvocations : Nat := 2 ^ 31 - 1

def validKEKID (id : Bytes) : Bool := decide (id ≠ []) && decide (id.length ≤ 64) && id.all keyIDByte

def validGenerationID (id : Bytes) : Bool := decide (16 ≤ id.length) && decide (id.length ≤ 128)

def reserveWrapInvocation (db : DB) (kekID : Bytes) : Except StoreError DB := do
  require (validKEKID kekID) .wrapInvocationExhausted
  let row ← found (db.wrapInvocations.get? kekID) .wrapInvocationExhausted
  require (row.generationID = db.generationID ∧ row.reserved < maxReservedWrapInvocations) .wrapInvocationExhausted
  pure { db with wrapInvocations := db.wrapInvocations.put kekID { row with reserved := row.reserved + 1 } }

def initializeActiveLedger (db : DB) (kekID generationID : Bytes) : Except StoreError DB := do
  require (validKEKID kekID ∧ validGenerationID generationID) .keyLedgerContinuity
  require (db.generationID = generationID) .keyLedgerContinuity
  require (db.versions.any (fun _ row => row.envelope.kekID == kekID) = false) .keyLedgerContinuity
  -- on conflict the insert does nothing, and no row affected is refused
  require (db.wrapInvocations.get? kekID = none) .keyLedgerContinuity
  pure { db with wrapInvocations := db.wrapInvocations.put kekID ⟨0, generationID⟩ }

def validStoredVersion (v : Version) : Bool :=
  decide (v.id ≠ []) && decide (0 < v.number) && v.envelope.suite == suiteAES256GCMRandomNonceV1 &&
    v.envelope.aadVersion == aadFormatV1 && validKEKID v.envelope.kekID &&
    decide (sealOverhead ≤ v.envelope.ciphertext.length) &&
    decide (v.envelope.ciphertext.length ≤ maxPlaintextBytes + sealOverhead) &&
    decide (v.envelope.wrappedDEK.length = keyBytes + sealOverhead)

-- `want` is 1 for a create and 0 for a replace.
def validSecretMutation (m : Mutation) (want : Nat) : Except StoreError Unit := do
  require (want = 0 ∨ m.version.number = want) .invalidInput
  require (m.version.id ≠ [] ∧ m.audit.id ≠ [] ∧ m.audit.ownerID = m.version.scope.ownerID ∧
    m.audit.secretID = m.version.scope.secretID ∧ m.audit.versionID = m.version.id ∧ validStoredVersion m.version)
    .invalidInput
  require (m.audit.result = .success ∧ m.audit.kekID = m.version.envelope.kekID ∧
    ¬ (m.audit.actorID = [] ↔ m.audit.serviceID = []) ∧ (want = 1 → m.audit.oldVersionID = []) ∧
    (want = 0 → m.audit.oldVersionID ≠ []) ∧ (want = 1 → m.version.state = .active ∧ m.audit.action = .created) ∧
    (want = 0 → m.version.state = .active ∧
      (m.audit.action = .replaced ∨ m.audit.action = .replacedCompromised))) .invalidInput

def Version.row (v : Version) : VersionRow :=
  ⟨v.scope.secretID, v.scope.ownerID, v.scope.projectID, v.scope.environmentID, v.number, v.state, v.envelope, 1⟩

-- The insert with what the schema checks: the head's scope, the two keys and one active version for each secret.
def insertSecretVersion (db : DB) (v : Version) : Except StoreError DB := do
  require (storable v.id ∧ storable v.scope.secretID ∧ storable v.scope.ownerID ∧ storable v.scope.projectID ∧
    storable v.scope.environmentID) .database
  let head ← found (db.heads.get? v.scope.secretID) .database
  require (v.scope.ownerID = head.ownerID ∧ v.scope.projectID = head.projectID ∧
    v.scope.environmentID = head.environmentID) .database
  require (db.versions.get? v.id = none) .alreadyExists
  require (db.versions.any (fun _ row => row.secretID == v.scope.secretID && row.number == v.number) = false)
    .alreadyExists
  require (v.state ≠ .active ∨
    db.versions.any (fun _ row => row.secretID == v.scope.secretID && row.state == .active) = false) .alreadyExists
  pure { db with versions := db.versions.put v.id v.row }

-- The state its action requires of the version an audit row says was replaced.
def linkedState : Action → Option State
  | .replaced => some .superseded
  | .replacedCompromised => some .revoked
  | _ => none

def insertSecretAudit (db : DB) (a : Audit) : Except StoreError DB := do
  require (storable a.id ∧ storable a.actorID ∧ storable a.serviceID ∧ storable a.deploymentID ∧ storable a.leaseID)
    .database
  let head ← found (db.heads.get? a.secretID) .corrupt
  require (head.ownerID = a.ownerID) .corrupt
  let version ← found (db.versions.get? a.versionID) .corrupt
  require (version.secretID = a.secretID) .corrupt
  require (a.oldVersionID = [] ∨ ((db.versions.get? a.oldVersionID).any fun row =>
    row.secretID == a.secretID && row.ownerID == a.ownerID)) .database
  require (a.action = .created → a.oldVersionID = []) .database
  require ((linkedState a.action).all fun state => (db.versions.get? a.oldVersionID).any (·.state == state)) .database
  require (db.audits.get? a.id = none) .alreadyExists
  pure { db with audits := db.audits.put a.id ⟨a, head.projectID, head.environmentID⟩ }

def create (db : DB) (m : Mutation) : Except StoreError DB := do
  validSecretMutation m 1
  let s := m.version.scope
  require (storable s.secretID ∧ storable s.ownerID ∧ storable s.projectID ∧ storable s.environmentID) .database
  require (db.heads.get? s.secretID = none) .alreadyExists
  let head : Head := ⟨s.ownerID, s.projectID, s.environmentID, s.purpose, s.deliveryScope, none, 0⟩
  let db ← insertSecretVersion { db with heads := db.heads.put s.secretID head } m.version
  let linked := { head with currentVersionID := some m.version.id, revision := 1 }
  insertSecretAudit { db with heads := db.heads.put s.secretID linked } m.audit

def Head.inScope (h : Head) (s : Scope) : Bool :=
  h.ownerID == s.ownerID && h.projectID == s.projectID && h.environmentID == s.environmentID && h.purpose == s.purpose &&
    h.deliveryScope == s.deliveryScope

def replacedState (compromised : Bool) : State := if compromised then .revoked else .superseded

def replace (db : DB) (m : Mutation) (compromised : Bool) : Except StoreError DB := do
  validSecretMutation m 0
  require (compromised = (m.audit.action == .replacedCompromised)) .invalidInput
  let s := m.version.scope
  let head ← found (db.heads.get? s.secretID) .notFound
  require (head.inScope s) .notFound
  -- a head whose current version is NULL cannot be scanned
  let currentID ← found head.currentVersionID .database
  let current ← found (db.versions.get? currentID) .notFound
  require (current.secretID = s.secretID ∧ current.state = .active) .notFound
  require (m.version.number = current.number + 1) .revisionConflict
  require (m.audit.oldVersionID = currentID) .invalidInput
  let retired := { current with state := replacedState compromised }
  let db ← insertSecretVersion { db with versions := db.versions.put currentID retired } m.version
  let advanced := { head with currentVersionID := some m.version.id, revision := head.revision + 1 }
  insertSecretAudit { db with heads := db.heads.put s.secretID advanced } m.audit

-- A stored version as the queries return it, with the head's purpose and delivery scope.
def VersionRow.version (row : VersionRow) (id : Bytes) (head : Head) : Version :=
  ⟨id, ⟨row.ownerID, row.projectID, row.environmentID, row.secretID, head.purpose, head.deliveryScope⟩, row.number,
    row.state, row.envelope, row.envelopeRevision⟩

def getVersion (db : DB) (scope : Scope) (versionID : Bytes) : Except StoreError Version := do
  let head ← found (db.heads.get? scope.secretID) .notFound
  require (head.inScope scope) .notFound
  let id ← found (if versionID = [] then head.currentVersionID else some versionID) .notFound
  let row ← found (db.versions.get? id) .notFound
  require (row.secretID = scope.secretID) .notFound
  let v := { row.version id head with scope := scope }
  require (1 ≤ row.envelopeRevision ∧ (row.version id head).scope = scope ∧ validStoredVersion v) .corrupt
  pure v

def appendMaterializationAudit (db : DB) (a : Audit) : Except StoreError DB := do
  require (a.action = .materialized ∧ ¬ (a.actorID = [] ↔ a.serviceID = []) ∧ a.kekID ≠ []) .invalidInput
  insertSecretAudit db a

def rewrap (db : DB) (scope : Scope) (versionID : Bytes) (expectedRevision : Nat) (envelope : Envelope) :
    Except StoreError DB := do
  require (expectedRevision ≤ maxInt64 ∧ validKEKID envelope.kekID ∧ envelope.suite = suiteAES256GCMRandomNonceV1 ∧
    envelope.aadVersion = aadFormatV1 ∧ envelope.wrappedDEK.length = keyBytes + sealOverhead ∧ expectedRevision ≠ 0)
    .invalidInput
  let row ← found (db.versions.get? versionID) .revisionConflict
  let head ← found (db.heads.get? row.secretID) .revisionConflict
  require (row.secretID = scope.secretID ∧ head.inScope scope ∧ row.state ≠ .revoked ∧
    row.envelopeRevision = expectedRevision ∧
    (row.envelope.kekID ≠ envelope.kekID ∨ row.envelope.wrappedDEK ≠ envelope.wrappedDEK)) .revisionConflict
  -- past this the column's type overflows
  require (row.envelopeRevision < maxInt64) .database
  let stored := { row.envelope with kekID := envelope.kekID, wrappedDEK := envelope.wrappedDEK }
  let rewrapped := { row with envelope := stored, envelopeRevision := row.envelopeRevision + 1 }
  pure { db with versions := db.versions.put versionID rewrapped }

-- The order the database compares text in.
structure Collation where
  lt : Bytes → Bytes → Bool
  irrefl : ∀ a, lt a a = false
  trans : ∀ a b c, lt a b = true → lt b c = true → lt a c = true
  total : ∀ a b, a ≠ b → lt a b = true ∨ lt b a = true
  nil_lt : ∀ a, a ≠ [] → lt [] a = true

def Collation.le (order : Collation) (a b : Bytes) : Prop := order.lt b a = false

instance (order : Collation) : DecidableRel order.le := fun a b => inferInstanceAs (Decidable (order.lt b a = false))

def maxRewrapBatchSize : Nat := 100

def listVersionsByKEK (order : Collation) (db : DB) (kekID cursor : Bytes) (limit : Nat) :
    Except StoreError (List Version) := do
  require (validKEKID kekID ∧ cursor.length ≤ 128 ∧ 1 ≤ limit ∧ limit ≤ maxRewrapBatchSize) .invalidInput
  let rows := db.versions.select fun id row =>
    row.envelope.kekID == kekID && row.state != .revoked && order.lt cursor id && db.heads.contains row.secretID
  let page := ((rows.map Prod.fst).insertionSort order.le).take limit
  let versions := page.filterMap fun id => do
    let row ← db.versions.get? id
    let head ← db.heads.get? row.secretID
    pure (row.version id head)
  require (∀ v ∈ versions, 1 ≤ v.envelopeRevision ∧ validStoredVersion v) .corrupt
  pure versions

def countVersionsByKEK (db : DB) (kekID : Bytes) : Except StoreError Nat := do
  require (validKEKID kekID) .invalidInput
  pure (db.versions.select fun _ row => row.envelope.kekID == kekID).length

end AutoDeploy.Secret
