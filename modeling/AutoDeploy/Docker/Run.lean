import AutoDeploy.Docker.Labels
import AutoDeploy.Lib.Threads
import Mathlib.Data.List.Sort
import Mathlib.Data.List.Lex
import Mathlib.Data.Char

namespace AutoDeploy.Docker

open Lib Lib.Result

structure ContainerEnv where
  variableName : String
  value : String
deriving DecidableEq, Repr

inductive ErrorClass where
  | transient
  | configuration
  | malformed
deriving DecidableEq, Repr

inductive Op where
  | containerList
  | networkInspect
  | containerCreate
  | containerStart
  | containerInspect
deriving DecidableEq, Repr

structure EngineError where
  cls : ErrorClass
  op : Op
  status : Nat
deriving DecidableEq, Repr

inductive RunError where
  | emptyNetworkName
  | label (e : LabelError)
  | engine (e : EngineError)
  | inconsistentLocalState
  | networkID (id : String)
  | cpuMillis
  | memoryBytes
  | restartPolicy (policy : String)
  | envName (name : String)
  | envDuplicate (name : String)
  | containerName (id : String)
  | nameConflict (name : String)
deriving DecidableEq, Repr

-- `^[A-Za-z_][A-Za-z0-9_]*$`
def envVarPattern (s : String) : Bool :=
  match s.toList with
  | [] => false
  | c :: rest =>
      (Text.isUpper c || Text.isLower c || c == '_') && rest.all fun x => Text.isAlphanumeric x || x == '_'

-- `^[a-f0-9]{12}$|^[a-f0-9]{64}$`
def networkIDPattern (id : String) : Bool := hexText 12 id.toList || hexText 64 id.toList

def requireNetworkID (id : String) : Except RunError String := do
  require (networkIDPattern id) (.networkID id)
  pure id

def containerName (runtimeInstanceID : String) : Except RunError String :=
  found (Dockerid.containerName runtimeInstanceID) (.containerName runtimeInstanceID)

def envEntry (e : ContainerEnv) : String := e.variableName ++ "=" ++ e.value

def checkEnvEntries : List String → List ContainerEnv → Except RunError (List String)
  | _, [] => .ok []
  | seen, e :: rest => do
      require (envVarPattern e.variableName) (.envName e.variableName)
      require (e.variableName ∉ seen) (.envDuplicate e.variableName)
      let entries ← checkEnvEntries (e.variableName :: seen) rest
      pure (envEntry e :: entries)

def sortByName {α : Type} (name : α → String) (xs : List α) : List α :=
  xs.insertionSort fun x y => (name x).toList ≤ (name y).toList

def buildEnvEntries (env : List ContainerEnv) : Except RunError (List String) :=
  checkEnvEntries [] (sortByName ContainerEnv.variableName env)

structure RunContainerRequest where
  identity : ReleaseResourceIdentity
  networkID : String
  cpuMillis : Int
  memoryBytes : Int
  restartPolicy : String
  env : List ContainerEnv
deriving DecidableEq, Repr

def RunContainerRequest.validate (r : RunContainerRequest) : Except RunError Unit := do
  require (0 < r.cpuMillis) .cpuMillis
  require (0 < r.memoryBytes) .memoryBytes
  require (r.restartPolicy = "unless-stopped" ∨ r.restartPolicy = "on-failure") (.restartPolicy r.restartPolicy)
  let _ ← requireNetworkID r.networkID
  let _ ← buildEnvEntries r.env
  pure ()

structure ContainerCreateRequest where
  image : String
  labels : Labels
  env : List String
  networkMode : String
  restartPolicy : String
  nanoCPUs : Int
  memory : Int
deriving DecidableEq, Repr

def trimDigest (digest : String) : String :=
  if digest.toList.take 7 = "sha256:".toList then String.ofList (digest.toList.drop 7) else digest

def millisPerCPU : Int := 1000000

-- The product is taken in 64 bits.
def buildContainerCreatePayload (req : RunContainerRequest) (labels : Labels) : ContainerCreateRequest where
  image := "sha256:" ++ trimDigest req.identity.configDigest
  labels := labels
  env := (buildEnvEntries req.env).toOption.getD []
  networkMode := req.networkID
  restartPolicy := req.restartPolicy
  nanoCPUs := Int.bmod (req.cpuMillis * millisPerCPU) (2 ^ 64)
  memory := req.memoryBytes

structure ContainerSummary where
  id : String
  labels : Labels
deriving DecidableEq, Repr

structure NetworkInspect where
  id : String
  name : String
deriving DecidableEq, Repr

structure ContainerInspect where
  id : String
  name : String
deriving DecidableEq, Repr

-- What comes back for a request: no response at all, or a status with a body that may not decode.
inductive Reply (α : Type) where
  | failed (cls : ErrorClass)
  | answered (status : Nat) (body : Option α)

def checkStatus (op : Op) (status : Nat) : Except RunError Unit :=
  require (200 ≤ status ∧ status < 300)
    (.engine ⟨if 500 ≤ status then .transient else .configuration, op, status⟩)

def decodeJSON {α : Type} (op : Op) (body : Option α) : Except RunError α := found body (.engine ⟨.malformed, op, 0⟩)

def getJSON {α : Type} (op : Op) : Reply α → Except RunError α
  | .failed cls => .error (.engine ⟨cls, op, 0⟩)
  | .answered status body => do
      checkStatus op status
      decodeJSON op body

def createContainer (name : String) : Reply String → Except RunError String
  | .failed cls => .error (.engine ⟨cls, .containerCreate, 0⟩)
  | .answered status body => do
      require (status ≠ 409) (.nameConflict name)
      checkStatus .containerCreate status
      let id ← decodeJSON .containerCreate body
      require (id ≠ "") (.engine ⟨.malformed, .containerCreate, 0⟩)
      pure id

def startContainer : Reply Unit → Except RunError Unit
  | .failed cls => .error (.engine ⟨cls, .containerStart, 0⟩)
  | .answered status _ => if status = 304 then pure () else checkStatus .containerStart status

def inspectContainer (reply : Reply ContainerInspect) : Except RunError ContainerInspect := do
  let out ← getJSON .containerInspect reply
  require (out.id ≠ "") (.engine ⟨.malformed, .containerInspect, 0⟩)
  pure out

def inspectNetwork (reply : Reply NetworkInspect) : Except RunError NetworkInspect := do
  let out ← getJSON .networkInspect reply
  require (out.id ≠ "") (.engine ⟨.malformed, .networkInspect, 0⟩)
  pure out

def listContainersByLabels (reply : Reply (List ContainerSummary)) : Except RunError (List ContainerSummary) :=
  getJSON .containerList reply

def findReleaseRuntimeContainer (reply : Reply (List ContainerSummary)) : Except RunError (Option ContainerSummary) := do
  match ← listContainersByLabels reply with
  | [] => pure none
  | [one] => pure (some one)
  | _ => .error .inconsistentLocalState

-- A call, at the request it makes next.
inductive Stage where
  | foreign
  | find (req : RunContainerRequest) (networkNameOrID : String) (selector : Labels)
  | network (req : RunContainerRequest) (networkNameOrID : String)
  | create (req : RunContainerRequest) (name : String) (payload : ContainerCreateRequest)
  | findAgain (req : RunContainerRequest) (selector : Labels) (conflict : RunError)
  | start (req : RunContainerRequest) (id : String)
  | inspect (req : RunContainerRequest) (id : String)
  | done (req : RunContainerRequest) (result : Except RunError ContainerInspect)

def ensureReleaseRuntimeContainer (req : RunContainerRequest) (networkNameOrID : String) : Stage :=
  if networkNameOrID = "" then .done req (.error .emptyNetworkName)
  else
    match releaseRuntimeContainerSelector req.identity with
    | .error e => .done req (.error (.label e))
    | .ok selector => .find req networkNameOrID selector

def afterFind (req : RunContainerRequest) (networkNameOrID : String) (reply : Reply (List ContainerSummary)) : Stage :=
  match findReleaseRuntimeContainer reply with
  | .error e => .done req (.error e)
  | .ok (some existing) => .start req existing.id
  | .ok none => .network req networkNameOrID

-- What is sent to create the container, with the network resolved.
def prepareCreate (req : RunContainerRequest) (reply : Reply NetworkInspect) :
    Except RunError (RunContainerRequest × String × ContainerCreateRequest) := do
  let network ← inspectNetwork reply
  let networkID ← requireNetworkID network.id
  let req := { req with networkID := networkID }
  req.validate
  let labels ← (releaseRuntimeContainerLabels req.identity).mapError .label
  let name ← containerName req.identity.runtimeInstanceID
  pure (req, name, buildContainerCreatePayload req labels)

def afterNetwork (req : RunContainerRequest) (reply : Reply NetworkInspect) : Stage :=
  match prepareCreate req reply with
  | .error e => .done req (.error e)
  | .ok (req, name, payload) => .create req name payload

def afterCreate (req : RunContainerRequest) (name : String) (reply : Reply String) : Stage :=
  match createContainer name reply with
  | .ok id => .start req id
  | .error (.nameConflict held) =>
      match releaseRuntimeContainerSelector req.identity with
      | .error e => .done req (.error (.label e))
      | .ok selector => .findAgain req selector (.nameConflict held)
  | .error e => .done req (.error e)

def afterFindAgain (req : RunContainerRequest) (conflict : RunError) (reply : Reply (List ContainerSummary)) : Stage :=
  match findReleaseRuntimeContainer reply with
  | .error e => .done req (.error e)
  | .ok (some existing) => .start req existing.id
  | .ok none => .done req (.error conflict)

def afterStart (req : RunContainerRequest) (id : String) (reply : Reply Unit) : Stage :=
  match startContainer reply with
  | .error e => .done req (.error e)
  | .ok _ => .inspect req id

-- The engine. Nothing is ever removed from it, and names and IDs are unique in it.
structure Container where
  id : String
  name : String
  labels : Labels
  startedBy : List ReleaseResourceIdentity
deriving DecidableEq, Repr

structure Engine where
  containers : List Container
  names : (containers.map Container.name).Nodup
  ids : (containers.map Container.id).Nodup

def Engine.create (e : Engine) (c : Container) (hname : c.name ∉ e.containers.map Container.name)
    (hid : c.id ∉ e.containers.map Container.id) : Engine where
  containers := c :: e.containers
  names := by
    rw [List.map_cons, List.nodup_cons]
    exact ⟨hname, e.names⟩
  ids := by
    rw [List.map_cons, List.nodup_cons]
    exact ⟨hid, e.ids⟩

-- Who has had it started is kept with a container.
def Container.started (id : String) (caller : ReleaseResourceIdentity) (c : Container) : Container :=
  if c.id = id then { c with startedBy := caller :: c.startedBy } else c

@[simp] theorem started_id (id : String) (caller : ReleaseResourceIdentity) (c : Container) :
    (c.started id caller).id = c.id := by
  unfold Container.started
  split <;> rfl

@[simp] theorem started_name (id : String) (caller : ReleaseResourceIdentity) (c : Container) :
    (c.started id caller).name = c.name := by
  unfold Container.started
  split <;> rfl

@[simp] theorem started_labels (id : String) (caller : ReleaseResourceIdentity) (c : Container) :
    (c.started id caller).labels = c.labels := by
  unfold Container.started
  split <;> rfl

def Engine.start (e : Engine) (id : String) (caller : ReleaseResourceIdentity) : Engine where
  containers := e.containers.map (Container.started id caller)
  names := by
    have hnames : Container.name ∘ Container.started id caller = Container.name := funext (started_name id caller)
    rw [List.map_map, hnames]
    exact e.names
  ids := by
    have hids : Container.id ∘ Container.started id caller = Container.id := funext (started_id id caller)
    rw [List.map_map, hids]
    exact e.ids

-- How a request fares: it does not reach the engine, its answer does not reach the caller, or all is well. A caller
-- that gets no answer gets a failure in its place.
inductive Fate where
  | unhandled
  | lost
  | delivered
deriving DecidableEq, Repr

inductive Failure where
  | transport (cls : ErrorClass)
  | status (code : Nat)
deriving DecidableEq, Repr

def Failure.reply {α : Type} : Failure → Reply α
  | .transport cls => .failed cls
  | .status code => .answered code none

-- What is not up to the caller in one request: the ID the engine picks, the labels of the image, the network it knows,
-- and the name when somebody else creates a container.
structure Turn where
  fate : Fate
  failure : Failure
  freshID : String
  imageLabels : Labels
  network : Option NetworkInspect
  name : String

def exchange {α : Type} (turn : Turn) (e : Engine) (handled : Engine × Reply α) : Engine × Reply α :=
  match turn.fate with
  | .unhandled => (e, turn.failure.reply)
  | .lost => (handled.1, turn.failure.reply)
  | .delivered => handled

def Engine.list (e : Engine) (selector : Labels) : Engine × Reply (List ContainerSummary) :=
  (e, .answered 200 (some ((e.containers.filter fun c => Carries c.labels selector).map fun c => ⟨c.id, c.labels⟩)))

def Engine.inspectNetwork (e : Engine) (turn : Turn) : Engine × Reply NetworkInspect :=
  match turn.network with
  | none => (e, .answered 404 none)
  | some network => (e, .answered 200 (some network))

-- The labels of the request come before those of the image. An ID is never given out twice.
def Engine.createNamed (e : Engine) (turn : Turn) (name : String) (labels : Labels) : Engine × Reply String :=
  if hname : name ∈ e.containers.map Container.name then (e, .answered 409 none)
  else if hid : turn.freshID ∈ e.containers.map Container.id then (e, .answered 500 none)
  else (e.create ⟨turn.freshID, name, labels ++ turn.imageLabels, []⟩ hname hid, .answered 201 (some turn.freshID))

def Engine.startNamed (e : Engine) (id : String) (caller : ReleaseResourceIdentity) : Engine × Reply Unit :=
  if id ∈ e.containers.map Container.id then (e.start id caller, .answered 204 none) else (e, .answered 404 none)

def Engine.inspect (e : Engine) (id : String) : Engine × Reply ContainerInspect :=
  match e.containers.find? fun c => c.id = id with
  | none => (e, .answered 404 none)
  | some c => (e, .answered 200 (some ⟨c.id, "/" ++ c.name⟩))

-- Labels of this kind are put on a container by nobody else.
def Foreign (labels : Labels) : Prop := labels.lookup Label.kind.text ≠ some Kind.releaseRuntimeContainer.text

instance (labels : Labels) : Decidable (Foreign labels) := inferInstanceAs (Decidable (_ ≠ _))

def Engine.createForeign (e : Engine) (turn : Turn) : Engine :=
  if Foreign turn.imageLabels then (e.createNamed turn turn.name []).1 else e

def next (e : Engine) (_ : Nat) (turn : Turn) : Stage → Engine × Stage
  | .foreign => (e.createForeign turn, .foreign)
  | .find req networkNameOrID selector =>
      let out := exchange turn e (e.list selector)
      (out.1, afterFind req networkNameOrID out.2)
  | .network req _ =>
      let out := exchange turn e (e.inspectNetwork turn)
      (out.1, afterNetwork req out.2)
  | .create req name payload =>
      let out := exchange turn e (e.createNamed turn name payload.labels)
      (out.1, afterCreate req name out.2)
  | .findAgain req selector conflict =>
      let out := exchange turn e (e.list selector)
      (out.1, afterFindAgain req conflict out.2)
  | .start req id =>
      let out := exchange turn e (e.startNamed id req.identity)
      (out.1, afterStart req id out.2)
  | .inspect req id =>
      let out := exchange turn e (e.inspect id)
      (out.1, .done req (inspectContainer out.2))
  | .done req result => (e, .done req result)

def callers : Threads Engine Stage Turn := ⟨next⟩

end AutoDeploy.Docker
