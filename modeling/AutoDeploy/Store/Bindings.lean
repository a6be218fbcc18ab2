import AutoDeploy.Store.Claim

namespace AutoDeploy.Store

open Lib Lib.Result

-- What administrators commit while claims run: variable bindings, runtime settings and new secret versions.

inductive EditError
  | denied
  | invalid
  | notFound
  | conflict
deriving DecidableEq, Repr

def validVariableName (name : String) : Bool :=
  decide (name.utf8ByteSize ≤ 128) &&
    match name.toList with
    | [] => false
    | c :: rest => (c.isAlpha || c == '_') && rest.all fun c => c.isAlphanum || c == '_'

def validLiteralValue (value : String) : Bool :=
  decide (1 ≤ value.utf8ByteSize) && decide (value.utf8ByteSize ≤ 4096) &&
    value.toList.all fun c => decide (0x20 ≤ c.toNat) && c.toNat != 0x7f

structure BindingInput where
  variableName : String
  deliveryScope : DeliveryScope
  source : BindingSource
deriving DecidableEq, Repr

def BindingInput.valid (input : BindingInput) : Bool :=
  validVariableName input.variableName &&
    match input.source with
    | .secret headID => validOpaqueID headID
    | .literal value => validLiteralValue value

-- validate_environment_runtime_binding_scope. The environment of a head is the one its versions carry.
def bindable (a : Administration) (environmentID : String) (input : BindingInput) : Bool :=
  match input.source with
  | .literal _ => true
  | .secret headID =>
      ((a.secretHeads.get? headID).any fun h => h.deliveryScope == input.deliveryScope && h.purpose != .provider) &&
        a.secretVersions.any fun _ v => v.secretID == headID && v.environmentID == environmentID

def administered (now : Nat) (db : DB) (principal : Principal) (environmentID : String) : Except EditError Unit := do
  require (validOpaqueID environmentID = true) .denied
  (lockAdministratorSession db now principal).mapError fun _ => .denied
  require (environmentOwnedBy db environmentID principal.ownerID = true) .denied

def setBindings (db : DB) (bindings : Table (String × String) Binding) : DB :=
  { db with administration := { db.administration with bindings := bindings } }

def addEnvironmentRuntimeBinding (now : Nat) (db : DB) (principal : Principal) (environmentID : String)
    (input : BindingInput) : Except EditError DB := do
  require (input.valid = true) .denied
  administered now db principal environmentID
  require (db.administration.bindings.get? (environmentID, input.variableName) = none) .invalid
  require (bindable db.administration environmentID input = true) .invalid
  pure (setBindings db (db.administration.bindings.put (environmentID, input.variableName)
    ⟨input.deliveryScope, input.source⟩))

def removeEnvironmentRuntimeBinding (now : Nat) (db : DB) (principal : Principal) (environmentID variableName : String) :
    Except EditError DB := do
  require (validVariableName variableName = true) .denied
  administered now db principal environmentID
  require ((db.administration.bindings.get? (environmentID, variableName)).isSome = true) .notFound
  pure (setBindings db (db.administration.bindings.erase (environmentID, variableName)))

-- The health policy revision is no setting of the operator's; the revision is the one the caller has seen, plus one.
def updateEnvironmentRuntimeConfig (now : Nat) (db : DB) (principal : Principal) (environmentID : String)
    (settings : ExecutionSnapshot) (expectedRevision : Nat) : Except EditError DB := do
  administered now db principal environmentID
  let stored ← found (db.administration.runtimeConfigs.get? environmentID) .notFound
  require (stored.configRevision = expectedRevision) .conflict
  pure { db with administration := { db.administration with
    runtimeConfigs := db.administration.runtimeConfigs.put environmentID
      { settings with
        healthPolicyRevision := stored.healthPolicyRevision
        configRevision := expectedRevision + 1 } } }

structure SecretMutation where
  versionID : String
  version : SecretVersion
  oldVersionID : String
deriving DecidableEq, Repr

-- `Replace` and `ReplaceCompromised`: the head moves from its active version to the new one.
def replaceSecret (db : DB) (mutation : SecretMutation) (compromised : Bool) : Except EditError DB := do
  let a := db.administration
  let head ← found (a.secretHeads.get? mutation.version.secretID) .notFound
  let currentID ← found head.currentVersionID .notFound
  let current ← found (a.secretVersions.get? currentID) .notFound
  require (current.secretID = mutation.version.secretID ∧ current.state = .active) .notFound
  require (current.ownerID = mutation.version.ownerID ∧ current.projectID = mutation.version.projectID ∧
    current.environmentID = mutation.version.environmentID) .notFound
  require (mutation.oldVersionID = currentID ∧ mutation.version.state = .active) .invalid
  require (a.secretVersions.get? mutation.versionID = none) .conflict
  let retired := { current with state := if compromised then .revoked else .superseded }
  pure { db with administration := { a with
    secretVersions := (a.secretVersions.put currentID retired).put mutation.versionID mutation.version
    secretHeads := a.secretHeads.put mutation.version.secretID
      { head with currentVersionID := some mutation.versionID } } }

inductive Edit
  | addBinding (now : Nat) (principal : Principal) (environmentID : String) (input : BindingInput)
  | removeBinding (now : Nat) (principal : Principal) (environmentID variableName : String)
  | updateConfig (now : Nat) (principal : Principal) (environmentID : String) (settings : ExecutionSnapshot)
      (expectedRevision : Nat)
  | replaceSecret (mutation : SecretMutation) (compromised : Bool)

def Edit.run (db : DB) : Edit → Except EditError DB
  | .addBinding now principal environmentID input => addEnvironmentRuntimeBinding now db principal environmentID input
  | .removeBinding now principal environmentID name => removeEnvironmentRuntimeBinding now db principal environmentID name
  | .updateConfig now principal environmentID settings expected =>
      updateEnvironmentRuntimeConfig now db principal environmentID settings expected
  | .replaceSecret mutation compromised => Store.replaceSecret db mutation compromised

-- A refused transaction commits nothing.
def commit (db : DB) (e : Edit) : DB :=
  match e.run db with
  | .ok db' => db'
  | .error _ => db

def commitAll (db : DB) (edits : List Edit) : DB := edits.foldl commit db

-- The four statements that read the bindings of a first attempt. Under read committed each sees what was committed
-- before it.

def countSecretBindings (db : DB) (environmentID : String) : Nat := (secretBindings db environmentID).length

def joinSecretBindings (db : DB) (environmentID : String) : List FrozenBinding :=
  orderByVariable FrozenBinding.variableName <| (secretBindings db environmentID).filterMap fun b =>
    (activeVersion db b.2.2).map fun v => ⟨b.1, b.2.1, v⟩

def countLiteralBindings (db : DB) (environmentID : String) : Nat :=
  (resolveRuntimeLiteralBindings db environmentID).length

-- What is committed before each of these statements and before the writes of the claim.
structure Gaps where
  count : List Edit
  join : List Edit
  literalCount : List Edit
  literals : List Edit
  writes : List Edit

def Gaps.all (g : Gaps) : List Edit := g.count ++ g.join ++ g.literalCount ++ g.literals ++ g.writes

-- `planFreeze` with its statements apart.
def planFreezeAmid (db : DB) (g : Gaps) (config : ExecutionSnapshot) (jobID : Nat) (job : Job) :
    Except Error (Option FreezePlan) :=
  let counted := commitAll db g.count
  let joined := commitAll counted g.join
  let literalsCounted := commitAll joined g.literalCount
  let listed := commitAll literalsCounted g.literals
  if job.attemptCount = 0 then
    let bindings := joinSecretBindings joined job.environmentID
    let literals := resolveRuntimeLiteralBindings listed job.environmentID
    pure (if bindings.length = countSecretBindings counted job.environmentID ∧
        literals.length = countLiteralBindings literalsCounted job.environmentID then
      some (.fresh config bindings literals) else none)
  else planFreeze listed config jobID job

-- `tryClaim` while others commit. What it locks first (the settings, the slot and the job) none of the others writes
-- before it is done.
def tryClaimAmid (now : Nat) (db : DB) (g : Gaps) (serverID : String) (jobID : Nat) (environmentID : String) :
    Except Error (DB × Option ClaimedLease) :=
  match claimable db now serverID jobID environmentID with
  | none => pure (commitAll db g.all, none)
  | some (config, slot, job) => do
      match ← planFreezeAmid db g config jobID job with
      | none => pure (commitAll db g.all, none)
      | some plan => leaseCandidate now (commitAll db g.all) serverID jobID job slot plan

end AutoDeploy.Store
