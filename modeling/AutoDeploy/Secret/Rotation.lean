import AutoDeploy.Secret.History

namespace AutoDeploy.Secret

open Lib Lib.Result Crypto

inductive RotationError where
  | input
  | retirement
  | corrupt
deriving DecidableEq, Repr

structure RewrapRequest where
  oldKEKID : Bytes
  cursor : Bytes
  batchSize : Int
  dryRun : Bool
deriving DecidableEq, Repr

structure RewrapResult where
  nextCursor : Bytes
  selected : Nat
  rewrapped : Nat
  conflicts : Nat
deriving DecidableEq, Repr

def defaultRewrapBatchSize : Int := 100

def validRotationID (id : Bytes) : Bool := validID id && decide (id.length ≤ 64)

def validStoredRotationVersion (v : Version) : Bool :=
  validScope v.scope && validID v.id && decide (0 < v.envelopeRevision) &&
    v.envelope.suite == suiteAES256GCMRandomNonceV1 && v.envelope.aadVersion == aadFormatV1 &&
    decide (sealOverhead ≤ v.envelope.ciphertext.length) &&
    decide (v.envelope.ciphertext.length ≤ maxPlaintextBytes + sealOverhead) &&
    decide (v.envelope.wrappedDEK.length = keyBytes + sealOverhead)

-- `RewrapBatch` up to its loop: the checks and the page of versions.
def selectBatch (order : Collation) (db : DB) (provider : KeyProvider) (request : RewrapRequest) :
    Except RotationError (List Version) := do
  require (validRotationID request.oldKEKID ∧ (request.cursor = [] ∨ validID request.cursor)) .input
  let batchSize := if request.batchSize = 0 then defaultRewrapBatchSize else request.batchSize
  require (1 ≤ batchSize ∧ batchSize ≤ maxRewrapBatchSize) .input
  let (active, key) ← provider.active.mapError fun _ => .input
  require (validRotationID active ∧ key.length = keyBytes ∧ active ≠ request.oldKEKID) .input
  (listVersionsByKEK order db request.oldKEKID request.cursor batchSize.toNat).mapError fun _ => .corrupt

-- What the loop requires of each version of the page.
def rewrappable (request : RewrapRequest) (v : Version) : Bool :=
  v.envelope.kekID == request.oldKEKID && validStoredRotationVersion v

def canRetire (db : DB) (provider : KeyProvider) (kekID : Bytes) : Except RotationError Unit := do
  require (validRotationID kekID) .input
  let (active, _) ← provider.active.mapError fun _ => .input
  require (validRotationID active) .input
  require (active ≠ kekID) .retirement
  let n ← (countVersionsByKEK db kekID).mapError fun _ => .corrupt
  require (n = 0) .retirement

-- A call of `RewrapBatch` in its loop holds the numbers of the calls for the rest of its page.
inductive Stage where
  | between
  | looping (request : RewrapRequest) (pending : List Nat) (result : RewrapResult)
  | finished
  | failed
deriving DecidableEq, Repr

-- A pass: the caller hands each returned cursor to the next call, until a batch selects no version. It adds up the
-- conflicts reported, and `rewrapped` remembers the versions it rewrapped.
structure Pass where
  oldKEKID : Bytes
  cursor : Bytes
  stage : Stage
  conflicts : Nat
  rewrapped : List Bytes
deriving DecidableEq, Repr

def Pass.start (oldKEKID : Bytes) : Pass := ⟨oldKEKID, [], .between, 0, []⟩

structure Rotation where
  world : World
  pass : Pass

def Pass.pending (p : Pass) : List Nat :=
  match p.stage with
  | .looping _ pending _ => pending
  | _ => []

-- The other callers do not take the steps of the pass, and no restart ends its process.
def Event.leaves (pending : List Nat) : Event → Bool
  | .reserve i _ | .encrypt i _ | .commit i | .rewrapReserve i _ | .rewrapSeal i _ | .rewrapStore i | .abandon i =>
      !pending.contains i
  | .restart => pending.isEmpty
  | _ => true

inductive RotationEvent where
  | other (e : Event)
  | call (provider : KeyProvider) (batchSize : Int) (dryRun : Bool)
  | skip
  | reserve (provider : KeyProvider)
  | wrap (wrapped : Bytes)
  | store
  | conflict (stored : Bool)
  | finish
  | fail

def Pass.returned (p : Pass) (result : RewrapResult) : Pass :=
  { p with
    cursor := result.nextCursor
    stage := if result.selected = 0 then .finished else .between
    conflicts := p.conflicts + result.conflicts }

def Rotation.next (order : Collation) (s : Rotation) : RotationEvent → Option Rotation
  | .other e => if e.leaves s.pass.pending then (s.world.next e).map fun w => { s with world := w } else none
  | .call provider batchSize dryRun =>
      match s.pass.stage with
      | .between => do
          let request : RewrapRequest := ⟨s.pass.oldKEKID, s.pass.cursor, batchSize, dryRun⟩
          let versions ← (selectBatch order s.world.db provider request).toOption
          let first := s.world.calls.length
          pure
            { world := { s.world with calls := s.world.calls ++ versions.map Call.listed }
              pass := { s.pass with
                stage := .looping request (List.range' first versions.length) ⟨[], versions.length, 0, 0⟩ } }
      | _ => none
  | .skip =>
      match s.pass.stage with
      | .looping request (i :: pending) result =>
          match s.world.calls[i]? with
          | some (.listed v) =>
              if rewrappable request v ∧ request.dryRun then
                (s.world.next (.abandon i)).map fun w => ⟨w, { s.pass with stage := .looping request pending result }⟩
              else none
          | _ => none
      | _ => none
  | .reserve provider =>
      match s.pass.stage with
      | .looping request (i :: _) _ =>
          match s.world.calls[i]? with
          | some (.listed v) =>
              if rewrappable request v ∧ ¬ request.dryRun then
                (s.world.next (.rewrapReserve i provider)).map fun w => { s with world := w }
              else none
          | _ => none
      | _ => none
  | .wrap wrapped =>
      match s.pass.stage with
      | .looping _ (i :: _) _ => (s.world.next (.rewrapSeal i wrapped)).map fun w => { s with world := w }
      | _ => none
  | .store =>
      match s.pass.stage with
      | .looping request (i :: pending) result =>
          match s.world.calls[i]? with
          | some (.rewrapSealed v _) => do
              let w ← s.world.next (.rewrapStore i)
              let result := { result with rewrapped := result.rewrapped + 1, nextCursor := v.id }
              pure ⟨w, { s.pass with stage := .looping request pending result, rewrapped := v.id :: s.pass.rewrapped }⟩
          | _ => none
      | _ => none
  -- any error of the update counts, also one after it was stored
  | .conflict stored =>
      match s.pass.stage with
      | .looping _ (i :: _) result =>
          match s.world.calls[i]? with
          | some (.rewrapSealed _ _) => do
              let w ← s.world.next (if stored then .rewrapStore i else .abandon i)
              pure ⟨w, s.pass.returned { result with conflicts := result.conflicts + 1 }⟩
          | _ => none
      | _ => none
  | .finish =>
      match s.pass.stage with
      | .looping _ [] result => some { s with pass := s.pass.returned result }
      | _ => none
  | .fail => some { s with pass := { s.pass with stage := .failed } }

-- An event that stores an envelope sealed under the key.
def Event.storesUnder (w : World) (kekID : Bytes) : Event → Bool
  | .commit i =>
      match w.calls[i]? with
      | some (.sealed _ m) => m.version.envelope.kekID == kekID
      | _ => false
  | .rewrapStore i =>
      match w.calls[i]? with
      | some (.rewrapSealed _ envelope) => envelope.kekID == kekID
      | _ => false
  | _ => false

def RotationEvent.quiet (s : Rotation) : RotationEvent → Bool
  | .other e => !e.storesUnder s.world s.pass.oldKEKID
  | _ => true

-- A call that is no dry run.
def RotationEvent.real : RotationEvent → Bool
  | .call _ _ dryRun => !dryRun
  | _ => true

-- A pass amid other callers, from any state the service can be in.
def rotationSystem (order : Collation) : System Rotation where
  initial s := secretSystem.Reachable s.world ∧ ∃ oldKEKID, s.pass = .start oldKEKID
  next s s' := ∃ e, e.real = true ∧ s.next order e = some s'

-- The same, while no other caller stores an envelope sealed under the old key.
def quietSystem (order : Collation) : System Rotation where
  initial s := secretSystem.Reachable s.world ∧ ∃ oldKEKID, s.pass = .start oldKEKID
  next s s' := ∃ e, e.real = true ∧ e.quiet s = true ∧ s.next order e = some s'

end AutoDeploy.Secret
