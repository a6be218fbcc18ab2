import AutoDeploy.Agent.Client
import AutoDeploy.Enrollment.Registry
import AutoDeploy.Lib.Files
import AutoDeploy.Lib.Runs

namespace AutoDeploy.Enrollment

open Lib Lib.Result Store Agent

-- `EnrollInput` with the bytes its randomness gives, the digest of its enrollment token and whether the base URL and
-- the server id make a client.
structure EnrollInput where
  serverID : String
  enrollmentDigest : Digest
  raw : Bytes
  validClient : Bool

def EnrollInput.token (input : EnrollInput) : Bytes := newCredentialToken input.raw

inductive CredentialFile where
  | token (text : Bytes)
  | unfinished
deriving DecidableEq, Repr

abbrev StateDir := Directory CredentialFile

def credentialFileName : FileName := Bytes.ofString "credential"

-- A link, unlike a rename, never replaces a credential.
def writeCredentialAtomic (o : Outcome) (dir : StateDir) (token : Bytes) : StateDir × Except Fault Unit :=
  match dir.get? credentialFileName with
  | none => Directory.write o dir ".credential-" credentialFileName (.token token) .unfinished
  | some _ =>
      match o with
      | .done => (dir, .error .error)
      | .stopped fault _ temporary => (Directory.leave dir ".credential-" .unfinished temporary, .error fault)

def removeUnusedCredential (dir : StateDir) : StateDir := dir.erase credentialFileName

inductive EnrollFailure where
  | write
  | digest
  | client
  | call (e : ClientError)
deriving DecidableEq, Repr

-- Where `Enroll` is: before its file is written, before or in an attempt of the call, or at its end.
inductive Stage where
  | starting
  | written
  | ready (attempt : Nat)
  | waiting (attempt : Nat)
  | returned (result : Except EnrollFailure Nat)
  | crashed

-- The agent, its state directory, the control plane and the network. A request is delivered once at most, at any
-- time after it was sent.
structure EnrollRun where
  db : Registry
  dir : StateDir
  stage : Stage
  requests : List Nat
  responses : List (Nat × Reply Nat)

-- The call is over: the credential is removed, unless the file system refuses that.
def EnrollRun.gaveUp (s : EnrollRun) (failure : EnrollFailure) (removes : Bool) : EnrollRun :=
  { s with
    dir := if removes then removeUnusedCredential s.dir else s.dir
    stage := .returned (.error failure) }

-- An attempt failed: `post` tries again or returns.
def EnrollRun.attemptFailed (s : EnrollRun) (attempt : Nat) (e : ClientError) (removes : Bool) : EnrollRun :=
  match nextAttempt attempt e with
  | some next => { s with stage := .ready next }
  | none => s.gaveUp (.call e) removes

-- What becomes of the transaction: it may fail before it commits, or commit and be reported as failed.
inductive TransactionFault where
  | none
  | beforeCommit
  | afterCommit
deriving DecidableEq, Repr

def unavailable : Reply Nat := .refused 503 "service_unavailable"

def enrollReply : Except EnrollError Nat → Reply Nat
  | .ok version => .ok version
  | .error .authorizationDenied => .refused 401 "unauthorized"
  | .error .database => unavailable

-- `handleEnroll` with a well-formed request.
def handleEnroll (now : Nat) (fault : TransactionFault) (db : Registry) (input : EnrollInput) (digest : Digest) :
    Registry × Reply Nat :=
  match db.enroll now input.serverID input.enrollmentDigest digest with
  | .error e => (db, enrollReply (.error e))
  | .ok (db', version) =>
      match fault with
      | .none => (db', enrollReply (.ok version))
      | .beforeCommit => (db, unavailable)
      | .afterCommit => (db', unavailable)

inductive Event where
  | write (o : Outcome)
  | connect (removes : Bool)
  | send
  | deliver (attempt now : Nat) (fault : TransactionFault)
  | answer (attempt : Nat) (reply : Reply Nat) (removes : Bool)
  | lose (removes : Bool)
  | cancel (removes : Bool)
  | crash

def EnrollRun.next (input : EnrollInput) (s : EnrollRun) : Event → Option EnrollRun
  | .write o =>
      match s.stage with
      | .starting =>
          match writeCredentialAtomic o s.dir input.token with
          | (dir, .ok ()) => some { s with dir := dir, stage := .written }
          | (dir, .error .error) => some { s with dir := dir, stage := .returned (.error .write) }
          | (dir, .error .crash) => some { s with dir := dir, stage := .crashed }
      | _ => none
  | .connect removes =>
      match s.stage with
      | .written =>
          match credentialTokenDigest input.token with
          | none => some (s.gaveUp .digest removes)
          | some _ => some (if input.validClient then { s with stage := .ready 1 } else s.gaveUp .client removes)
      | _ => none
  | .send =>
      match s.stage with
      | .ready attempt => some { s with stage := .waiting attempt, requests := attempt :: s.requests }
      | _ => none
  | .deliver attempt now fault => do
      let digest ← credentialTokenDigest input.token
      if attempt ∈ s.requests then
        let (db, reply) := handleEnroll now fault s.db input digest
        pure { s with
          db := db
          requests := s.requests.erase attempt
          responses := (attempt, reply) :: s.responses }
      else none
  | .answer attempt reply removes =>
      match s.stage with
      | .waiting current =>
          if current = attempt ∧ (attempt, reply) ∈ s.responses then
            match reply.received with
            | .ok version => some { s with stage := .returned (.ok version) }
            | .error e => some (s.attemptFailed attempt e removes)
          else none
      | _ => none
  -- no usable response within the time of the attempt
  | .lose removes =>
      match s.stage with
      | .waiting attempt => some (s.attemptFailed attempt .transportFailure removes)
      | _ => none
  -- the context ends while `post` waits between two attempts
  | .cancel removes =>
      match s.stage with
      | .ready attempt => if attempt = 1 then none else some (s.gaveUp (.call .cancelled) removes)
      | _ => none
  | .crash =>
      match s.stage with
      | .returned _ => none
      | _ => some { s with stage := .crashed }

-- The control plane stored the digest the agent presents.
def EnrollRun.accepted (input : EnrollInput) (s : EnrollRun) : Prop :=
  ∃ digest row, credentialTokenDigest input.token = some digest ∧
    s.db.credentials.get? (input.serverID, 1) = some row ∧ row.digest = digest

-- Whatever else the control plane does, enrollments of other servers and of this one with another credential included.
-- A row is never deleted and its digest never changes, and the random bytes of this token are nobody else's.
structure Registry.Keeps (input : EnrollInput) (db db' : Registry) : Prop where
  kept : ∀ row, db.credentials.get? (input.serverID, 1) = some row →
    ∃ row', db'.credentials.get? (input.serverID, 1) = some row' ∧ row'.digest = row.digest
  foreign : db.credentials.get? (input.serverID, 1) = none →
    ∀ row', db'.credentials.get? (input.serverID, 1) = some row' → credentialTokenDigest input.token ≠ some row'.digest

inductive EnrollRun.Step (input : EnrollInput) (s : EnrollRun) : EnrollRun → Prop
  | event {e : Event} {s' : EnrollRun} (h : s.next input e = some s') : Step input s s'
  | other {db : Registry} (h : s.db.Keeps input db) : Step input s { s with db := db }

-- The token is new: its digest is not stored yet.
structure EnrollRun.Initial (input : EnrollInput) (s : EnrollRun) : Prop where
  starting : s.stage = .starting
  requests : s.requests = []
  responses : s.responses = []
  unaccepted : ¬ s.accepted input

def enrollmentSystem (input : EnrollInput) : System EnrollRun where
  initial := EnrollRun.Initial input
  next := EnrollRun.Step input

-- `Enroll` has returned, or its process is gone.
def EnrollRun.Ended (s : EnrollRun) : Prop := (∃ result, s.stage = .returned result) ∨ s.stage = .crashed

-- The state directory holds the credential with the digest the control plane has.
def EnrollRun.Holds (input : EnrollInput) (s : EnrollRun) : Prop :=
  ∃ text row, s.dir.get? credentialFileName = some (.token text) ∧
    s.db.credentials.get? (input.serverID, 1) = some row ∧ credentialTokenDigest text = some row.digest

end AutoDeploy.Enrollment
