import Mathlib.Data.List.Infix
import AutoDeploy.Lib.Runs
import AutoDeploy.Store.Access

namespace AutoDeploy.Webhook

open Lib Lib.Result Store

-- Verified push deliveries and what they enqueue.

inductive EventType
  | push
  | installation
  | installationRepositories
deriving DecidableEq, Repr

inductive VerificationState
  | pending
  | verified
  | rejected
deriving DecidableEq, Repr

inductive ProcessingState
  | pending
  | processed
  | rejected
deriving DecidableEq, Repr

inductive DeliveryFailure
  | none
  | signature
  | malformed
  | unsupported
  | unauthorized
deriving DecidableEq, Repr

structure Delivery where
  deliveryID : String
  event : EventType
  bodyDigest : Digest
  verification : VerificationState
  processing : ProcessingState
  failure : DeliveryFailure
deriving DecidableEq

def zeroDigest : Digest := ⟨List.replicate 32 0, rfl⟩

def Delivery.valid (d : Delivery) : Bool :=
  validOpaqueID d.deliveryID && d.bodyDigest != zeroDigest &&
    match d.verification, d.processing with
    | .pending, .pending => d.failure == .none
    | .rejected, .rejected => d.failure == .signature
    | .verified, .pending | .verified, .processed => d.failure == .none
    | .verified, .rejected => d.failure == .malformed || d.failure == .unsupported || d.failure == .unauthorized
    | _, _ => false

structure Push where
  installationID : Int
  repositoryID : Int
  ownerID : Int
  ref : String
  commitSHA : String
deriving DecidableEq, Repr

-- Git's rules for branch names, under the one namespace that may be deployed.
def validBranchRef (ref : String) : Bool :=
  let chars := ref.toList
  "refs/heads/".toList.isPrefixOf chars && decide ("refs/heads/".length < chars.length) &&
    decide (ref.utf8ByteSize ≤ 255) && !decide ("//".toList <:+: chars) && !decide ("..".toList <:+: chars) &&
    !decide ("@\x7b".toList <:+: chars) &&
    ((chars.drop "refs/heads/".length).splitOn '/').all (fun part => part != [] && part.head? != some '.' &&
      part.getLast? != some '.' && !".lock".toList.isSuffixOf part) &&
    chars.all fun c => decide (0x20 < c.toNat) && c.toNat != 0x7f && !"~^:?*[\\".toList.contains c

def validCommitSHA (value : String) : Bool :=
  value.utf8ByteSize == 40 && value != String.ofList (List.replicate 40 '0') &&
    value.toList.all fun c => (decide ('0' ≤ c) && decide (c ≤ '9')) || (decide ('a' ≤ c) && decide (c ≤ 'f'))

def Push.valid (p : Push) : Bool :=
  decide (0 < p.installationID) && decide (0 < p.repositoryID) && decide (0 < p.ownerID) && validBranchRef p.ref &&
    validCommitSHA p.commitSHA

structure Installation where
  ownerID : String
  accountID : Int
  active : Bool
  suspended : Bool
deriving DecidableEq, Repr

structure Repository where
  installationID : Int
  ownerID : String
  githubOwnerID : Int
  active : Bool
deriving DecidableEq, Repr

structure Binding where
  repositoryID : Int
  installationID : Int
  deployRef : String
  environmentID : Option String
  serverID : Option String
  active : Bool
deriving DecidableEq, Repr

structure Authority where
  registered : Bool
  installations : Table Int Installation
  repositories : Table Int Repository
  bindings : Table (String × String) Binding

structure Target where
  ownerID : String
  projectID : String
  environmentID : String
  serverID : String
deriving DecidableEq, Repr

-- The receipts. Every row here is of the one app registration.
structure Receipt where
  deliveryID : String
  event : EventType
  bodyDigest : Digest
  verification : VerificationState
  processing : ProcessingState
  installationID : Int
  repositoryID : Int
  githubOwnerID : Int
deriving DecidableEq

-- What an intent is unique for.
structure IntentKey where
  ownerID : String
  projectID : String
  repositoryID : Int
  ref : String
  commitSHA : String
deriving DecidableEq, Repr

structure Intent where
  deliveryID : Nat
  key : IntentKey
  deploymentID : String
deriving DecidableEq, Repr

structure Job where
  key : IntentKey
  environmentID : String
  serverID : String
  deploymentID : String
  availableAt : Nat
  idempotencyKey : String
deriving DecidableEq, Repr

structure WebhookDB where
  authority : Authority
  deliveries : Table Nat Receipt
  intents : Table Nat Intent
  jobs : Table Nat Job
  deployments : Table String Deployment.Snapshot
  jobEvents : List Nat

inductive WebhookError
  | unauthorized
  | integrity
deriving DecidableEq, Repr

structure EnqueueResult where
  deliveryID : Nat
  deploymentID : String
  jobID : Nat
deriving DecidableEq, Repr

-- The app, the installation, the repository and then the binding, each active.
def lockWebhookAuthorityForPush (a : Authority) (p : Push) : Except WebhookError Target := do
  require (a.registered = true) .unauthorized
  let installation ← found ((a.installations.get? p.installationID).filter fun i =>
    i.accountID == p.ownerID && i.active && !i.suspended) .unauthorized
  let _ ← found ((a.repositories.get? p.repositoryID).filter fun r => r.installationID == p.installationID &&
    r.ownerID == installation.ownerID && r.githubOwnerID == p.ownerID && r.active) .unauthorized
  let (key, binding) ← found (a.bindings.find? fun k b => k.1 == installation.ownerID &&
    b.repositoryID == p.repositoryID && b.installationID == p.installationID && b.active && b.deployRef == p.ref &&
    b.environmentID.isSome && b.serverID.isSome) .unauthorized
  pure ⟨key.1, key.2, binding.environmentID.getD "", binding.serverID.getD ""⟩

def lengthPrefixed (value : String) : Bytes :=
  let n := value.utf8ByteSize
  [UInt8.ofNat (n / 2 ^ 24), UInt8.ofNat (n / 2 ^ 16), UInt8.ofNat (n / 2 ^ 8), UInt8.ofNat n] ++ Bytes.ofString value

-- The deployment id and the job key: two parts of one digest over everything that names the intent.
def webhookIDs (target : Target) (p : Push) : String × String :=
  let fields := ["autodeploy:webhook:v1", target.ownerID, target.projectID, target.environmentID, target.serverID,
    toString p.repositoryID, p.ref, p.commitSHA]
  let seed := Bytes.toHex (Sha256.sum (fields.flatMap lengthPrefixed)).bytes
  ("whd_" ++ String.ofList (seed.take 40), "whj_" ++ String.ofList (seed.drop 40))

def intentKey (target : Target) (p : Push) : IntentKey :=
  ⟨target.ownerID, target.projectID, p.repositoryID, p.ref, p.commitSHA⟩

def newJob (target : Target) (p : Push) (now : Nat) : Job :=
  let ids := webhookIDs target p
  ⟨intentKey target p, target.environmentID, target.serverID, ids.1, now, ids.2⟩

def Job.valid (j : Job) : Bool :=
  validOpaqueID j.key.ownerID && validOpaqueID j.key.projectID && validOpaqueID j.environmentID &&
    validOpaqueID j.serverID && validOpaqueID j.deploymentID && decide (0 < j.key.repositoryID) &&
    validBranchRef j.key.ref && validCommitSHA j.key.commitSHA && decide (0 < j.availableAt) &&
    validOpaqueID j.idempotencyKey

-- The receipt, and whether it is new. A second delivery of the same verified body is refused.
def insertOrResolveDelivery (db : WebhookDB) (d : Delivery) (p : Push) : Except WebhookError (WebhookDB × Nat × Bool) :=
  match db.deliveries.find? fun _ r => r.deliveryID == d.deliveryID with
  | none => do
      require (db.deliveries.any (fun _ r => r.verification == .verified && r.bodyDigest == d.bodyDigest) = false) .integrity
      let id := db.deliveries.nextKey
      let receipt : Receipt :=
        ⟨d.deliveryID, d.event, d.bodyDigest, .verified, .pending, p.installationID, p.repositoryID, p.ownerID⟩
      pure ({ db with deliveries := db.deliveries.put id receipt }, id, true)
  | some (id, r) => do
      require (r.bodyDigest = d.bodyDigest ∧ r.event = d.event ∧ r.installationID = p.installationID ∧
        r.repositoryID = p.repositoryID ∧ r.githubOwnerID = p.ownerID) .integrity
      pure (db, id, false)

def insertOrResolveIntent (db : WebhookDB) (deliveryID : Nat) (key : IntentKey) (deploymentID : String) :
    Except WebhookError (WebhookDB × Nat × Bool) :=
  match db.intents.find? fun _ i => i.key == key with
  | none => do
      require (db.intents.any (fun _ i => i.deliveryID == deliveryID || i.deploymentID == deploymentID) = false) .integrity
      let id := db.intents.nextKey
      pure ({ db with intents := db.intents.put id ⟨deliveryID, key, deploymentID⟩ }, id, true)
  | some (id, _) => pure (db, id, false)

def markDeliveryProcessed (db : WebhookDB) (deliveryID : Nat) : Except WebhookError WebhookDB := do
  let r ← found (db.deliveries.get? deliveryID) .integrity
  require (r.verification = .verified ∧ r.processing = .pending) .integrity
  pure { db with deliveries := db.deliveries.put deliveryID { r with processing := .processed } }

-- The job of an intent, joined on its deployment.
def resultOf (db : WebhookDB) (deliveryID : Nat) (intent : Option Intent) : Except WebhookError EnqueueResult := do
  let i ← found intent .integrity
  let (jobID, _) ← found (db.jobs.find? fun _ j => j.deploymentID == i.deploymentID) .integrity
  require (i.deploymentID ≠ "") .integrity
  pure ⟨deliveryID, i.deploymentID, jobID⟩

def resultForDelivery (db : WebhookDB) (deliveryID : Nat) : Except WebhookError EnqueueResult :=
  resultOf db deliveryID ((db.intents.find? fun _ i => i.deliveryID == deliveryID).map Prod.snd)

def resultForStoredIntent (db : WebhookDB) (intentID deliveryID : Nat) : Except WebhookError EnqueueResult :=
  resultOf db deliveryID (db.intents.get? intentID)

def insertJob (db : WebhookDB) (j : Job) : Except WebhookError (WebhookDB × Nat) := do
  require (db.jobs.any (fun _ j' => j'.deploymentID == j.deploymentID ||
    (j'.key.ownerID == j.key.ownerID && j'.idempotencyKey == j.idempotencyKey)) = false) .integrity
  let id := db.jobs.nextKey
  pure ({ db with jobs := db.jobs.put id j }, id)

def createDeployment (db : WebhookDB) (d : Deployment.Aggregate) : Except WebhookError WebhookDB := do
  require (db.deployments.get? d.identity.deploymentID = none) .integrity
  pure { db with deployments := db.deployments.put d.identity.deploymentID d.stored }

def enqueueVerifiedPushTx (db : WebhookDB) (delivery : Delivery) (p : Push) (d : Deployment.Aggregate) (j : Job) :
    Except WebhookError (WebhookDB × EnqueueResult) := do
  let (db, deliveryID, created) ← insertOrResolveDelivery db delivery p
  if !created then
    let result ← resultForDelivery db deliveryID
    pure (db, result)
  else
    let (db, intentID, inserted) ← insertOrResolveIntent db deliveryID j.key j.deploymentID
    if !inserted then
      let result ← resultForStoredIntent db intentID deliveryID
      let db ← markDeliveryProcessed db deliveryID
      pure (db, result)
    else
      let (db, jobID) ← insertJob db j
      let db ← createDeployment db d
      let db ← markDeliveryProcessed { db with jobEvents := db.jobEvents ++ [jobID] } deliveryID
      pure (db, ⟨deliveryID, d.identity.deploymentID, jobID⟩)

def processPush (now : Nat) (db : WebhookDB) (delivery : Delivery) (p : Push) :
    Except WebhookError (WebhookDB × EnqueueResult) := do
  require (delivery.valid = true ∧ delivery.event = .push ∧ delivery.verification = .verified ∧
    delivery.processing = .pending ∧ p.valid = true) .unauthorized
  let target ← lockWebhookAuthorityForPush db.authority p
  let d ← (Deployment.new ⟨(webhookIDs target p).1, target.projectID, target.environmentID, target.serverID,
    p.commitSHA⟩ now).mapError fun _ => .unauthorized
  require ((newJob target p now).valid = true) .unauthorized
  enqueueVerifiedPushTx db delivery p d (newJob target p now)

-- `targetMatches` compares the deployment and the job with the target they were just made from.
-- Concurrent calls wait for each other at the unique keys they share, and a call sees what was committed before it
-- passes them: the history is the order in which they do.
def webhookSystem : System WebhookDB where
  initial db := (∀ id, db.deliveries.get? id = none) ∧ (∀ id, db.intents.get? id = none) ∧
    (∀ id, db.jobs.get? id = none) ∧ (∀ id, db.deployments.get? id = none)
  next db db' := ∃ now delivery p result, processPush now db delivery p = .ok (db', result)

end AutoDeploy.Webhook
