import AutoDeploy.Lib.Result
import AutoDeploy.Lib.Utf8

namespace AutoDeploy.Checkout

open Lib Lib.Result

-- What the checkout reads of the authorized source identity.
structure CheckoutBinding where
  cloneURL : String
  commitSHA : String
  reservationID : String
deriving DecidableEq, Repr

def CheckoutBinding.cloneURLValid (b : CheckoutBinding) : Bool :=
  "https://github.com/".toList.isPrefixOf b.cloneURL.toList && ".git".toList.isSuffixOf b.cloneURL.toList &&
    decide (b.cloneURL.utf8ByteSize ≤ 1024)

def isLowerHex (v : String) : Bool :=
  v.toList.all fun c => (decide ('0' ≤ c) && decide (c ≤ '9')) || (decide ('a' ≤ c) && decide (c ≤ 'f'))

def CheckoutBinding.usable (b : CheckoutBinding) : Bool :=
  b.cloneURLValid && b.commitSHA.utf8ByteSize == 40 && isLowerHex b.commitSHA && b.reservationID != ""

inductive QuotaError
  | unavailable
  | denied
  | invalid
  | retryable
deriving DecidableEq, Repr

inductive LeaseError
  | unavailable
  | stale
  | revocationRequired
  | redaction
  | controlPlane
  | join (first second : LeaseError)
deriving DecidableEq, Repr

inductive GitOperation
  | init
  | remoteAddOrigin
  | fetchExact
  | revParseFetchHead
  | revParseHead
  | checkoutFetchHead
  | lsTree
  | grepLFS
deriving DecidableEq, Repr

inductive ExitClass
  | success
  | failed
  | timedOut
  | indeterminate
deriving DecidableEq, Repr

structure SpawnResult where
  exitCode : Int
  exitClass : ExitClass
deriving DecidableEq, Repr

-- A cleanup error carries the one result a checkout can own, and why it is still owned when that is known.
inductive CheckoutError
  | gitFailed
  | unsafeSource
  | noMatch
  | system
  | redaction
  | spawn
  | exit (op : GitOperation) (code : Int)
  | quota (e : QuotaError)
  | indeterminate (e : QuotaError)
  | lease (e : LeaseError)
  | join (first second : CheckoutError)
  | cleanup (cause pending : CheckoutError)
  | uncleaned (cause : CheckoutError)
deriving DecidableEq, Repr

-- The cause of the first cleanup error `errors.As` finds.
def CheckoutError.asCleanup : CheckoutError → Option CheckoutError
  | .cleanup cause _ => some cause
  | .uncleaned cause => some cause
  | .join first second => first.asCleanup.or second.asCleanup
  | _ => none

-- `errors.Join` with an error that may be nil.
def CheckoutError.joined (e : CheckoutError) : Option CheckoutError → CheckoutError
  | none => e
  | some e' => .join e e'

-- The lease a checkout is driven by: each call answers and leaves the lease in its next state.
structure Lease (σ : Type) where
  binding : σ → CheckoutBinding
  start : σ → Except LeaseError Unit × σ
  newAskPassBroker : σ → Except LeaseError Unit × σ
  redactingWriter : σ → Except LeaseError Unit
  close : σ → Except LeaseError Unit × σ

inductive AllocateError
  | refused (e : QuotaError)
  | indeterminate (e : QuotaError)
deriving DecidableEq, Repr

-- What a spawned operation does: the redacting writers close, it runs, and this text has reached the output.
structure Spawned where
  writersClosed : Bool
  ran : Option SpawnResult
  output : String

-- What the quota helper, the spawn helper and the system answer in the course of one checkout.
structure Host where
  allocate : Except AllocateError Unit
  resolve : Except QuotaError Unit
  release : Nat → Except QuotaError Unit
  closesDescriptor : Bool
  stdoutPipe : GitOperation → Bool
  stderrPipe : GitOperation → Bool
  duplicatesWorkspace : GitOperation → Bool
  duplicatesAskpass : Bool
  spawn : GitOperation → Spawned
  contextDir : Option String

-- A checkout in progress: the lease, the result that owns the allocation, and every release and close of the
-- workspace descriptor so far.
structure Result where
  closed : Bool
  err : Option CheckoutError
deriving DecidableEq, Repr

structure Progress (σ : Type) where
  lease : σ
  result : Option Result
  releases : List (Except QuotaError Unit)
  closes : Nat

section

variable {σ : Type}

-- One git operation. The lease is asked for two writers before anything runs.
def execute (h : Host) (l : Lease σ) (s : σ) (op : GitOperation) (capture : Bool) : Except CheckoutError String := do
  require (h.stdoutPipe op = true) (.join .gitFailed .system)
  require (h.stderrPipe op = true) (.join .gitFailed .system)
  (l.redactingWriter s).mapError fun _ => .gitFailed
  (l.redactingWriter s).mapError fun _ => .gitFailed
  require (h.duplicatesWorkspace op = true) (.join .gitFailed .system)
  require ((h.spawn op).writersClosed = true) (.join .gitFailed .redaction)
  let r ← found (h.spawn op).ran (.join .gitFailed .spawn)
  if r.exitClass ≠ .success ∨ r.exitCode ≠ 0 then
    if op = .grepLFS ∧ r.exitClass = .failed ∧ r.exitCode = 1 then .error .noMatch
    else .error (.exit op r.exitCode)
  else pure (if capture then (h.spawn op).output else "")

def runGit (h : Host) (l : Lease σ) (s : σ) (op : GitOperation) : Except CheckoutError Unit := do
  let _ ← execute h l s op false
  pure ()

def fields (text : List Char) : List (List Char) := (text.splitOnP Utf8.isSpace).filter (· ≠ [])

-- A line of `ls-tree`: mode, type and object, then a tab and the name.
def unsafeEntry (entry : List Char) : Bool :=
  if entry = [] then false
  else
    match entry.dropWhile (· ≠ '\t'), fields (entry.takeWhile (· ≠ '\t')) with
    | _ :: name, mode :: kind :: _ :: _ =>
        decide (name = ".gitmodules".toList) || decide (mode ≠ "100644".toList ∧ mode ≠ "100755".toList) ||
          decide (kind ≠ "blob".toList)
    | _, _ => true

def unsafeTree (entries : String) : Bool := ((Utf8.trimSpace entries.toList).splitOn '\n').any unsafeEntry

-- Both heads must be the authorized commit.
def checkHead (h : Host) (l : Lease σ) (s : σ) (op : GitOperation) (commitSHA : String) :
    Except CheckoutError Unit := do
  let head ← (execute h l s op true).mapError (.join .gitFailed)
  require (Utf8.trimSpace head.toList = commitSHA.toList) .gitFailed

def checkTree (h : Host) (l : Lease σ) (s : σ) : Except CheckoutError Unit := do
  let tree ← (execute h l s .lsTree true).mapError (.join .gitFailed)
  require (unsafeTree tree = false) .unsafeSource

def checkLFS (h : Host) (l : Lease σ) (s : σ) : Except CheckoutError Unit :=
  match execute h l s .grepLFS true with
  | .error .noMatch => .ok ()
  | .error e => .error (.join .gitFailed e)
  | .ok lfs => require (Utf8.trimSpace lfs.toList = []) .unsafeSource

-- What runs before the credential is delivered, and after.
def prepareWorkspace (h : Host) (l : Lease σ) (s : σ) : Except CheckoutError Unit := do
  runGit h l s .init
  runGit h l s .remoteAddOrigin

def fetchSource (h : Host) (l : Lease σ) (s : σ) (commitSHA : String) : Except CheckoutError Unit := do
  require (h.duplicatesAskpass = true) (.join .gitFailed .system)
  runGit h l s .fetchExact
  checkHead h l s .revParseFetchHead commitSHA
  runGit h l s .checkoutFetchHead
  checkHead h l s .revParseHead commitSHA
  checkTree h l s
  checkLFS h l s

def runSequence (h : Host) (l : Lease σ) (s : σ) (binding : CheckoutBinding) : Except CheckoutError Unit × σ :=
  match prepareWorkspace h l s with
  | .error e => (.error e, s)
  | .ok () =>
      match l.start s with
      | (.error e, s₁) => (.error (.join .gitFailed (.lease e)), s₁)
      | (.ok (), s₁) =>
          match l.newAskPassBroker s₁ with
          | (.error e, s₂) => (.error (.join .gitFailed (.lease e)), s₂)
          | (.ok (), s₂) => (fetchSource h l s₂ binding.commitSHA, s₂)

def joinErrors : Option CheckoutError → Option CheckoutError → Option CheckoutError
  | none, e => e
  | some e, none => some e
  | some e, some e' => some (.join e e')

-- Only an answer of the helper, a release or a refusal, gives the descriptor up.
def retire (h : Host) (p : Progress σ) (denied : Option CheckoutError) : Option CheckoutError × Progress σ :=
  let err := joinErrors denied (if h.closesDescriptor then none else some .system)
  (err, { p with result := some ⟨true, err⟩, closes := p.closes + 1 })

def Result.close (h : Host) (p : Progress σ) (r : Result) : Option CheckoutError × Progress σ :=
  if r.closed then (r.err, p)
  else
    let answer := h.release p.releases.length
    let p := { p with releases := p.releases ++ [answer] }
    match answer with
    | .ok () => retire h p none
    | .error .denied => retire h p (some (.quota .denied))
    | .error e => (some (.quota e), { p with result := some { r with err := some (.quota e) } })

-- What `Checkout` returns: whether a result, and which error.
structure Returned where
  result : Bool
  err : Option CheckoutError
deriving DecidableEq, Repr

-- The capability is owned even when its acknowledgement was lost.
def retireIndeterminate (h : Host) (p : Progress σ) (e : QuotaError) : Returned × Progress σ :=
  let cause := CheckoutError.join .gitFailed (.indeterminate e)
  let cause := match h.resolve with
    | .ok () => cause
    | .error e' => .join cause (.quota e')
  let closed := Result.close h { p with result := some ⟨false, none⟩ } ⟨false, none⟩
  if closed.2.result.any Result.closed then (⟨false, some cause⟩, closed.2)
  else
    match closed.1 with
    | some pending => (⟨true, some (.cleanup cause pending)⟩, closed.2)
    | none => (⟨true, some (.uncleaned cause)⟩, closed.2)

def checkoutBody (h : Host) (l : Lease σ) (p : Progress σ) : Returned × Progress σ :=
  if (l.binding p.lease).usable then
    match h.allocate with
    | .error (.refused e) => (⟨false, some (.join .gitFailed (.quota e))⟩, p)
    | .error (.indeterminate e) => retireIndeterminate h p e
    | .ok () =>
        match runSequence h l p.lease (l.binding p.lease) with
        | (.ok (), s) => (⟨true, none⟩, { p with lease := s, result := some ⟨false, none⟩ })
        | (.error e, s) => (⟨false, some e⟩, { p with lease := s, result := some ⟨false, none⟩ })
  else (⟨false, some .gitFailed⟩, p)

-- The deferred function: a failed checkout gives its allocation up, then the lease is closed in any case.
def cleanUp (h : Host) (ret : Returned) (p : Progress σ) : Returned × Progress σ :=
  match ret.err, p.result with
  | some e, some r =>
      let cause := e.asCleanup.getD e
      match Result.close h p r with
      | (some pending, p') => (⟨true, some (.cleanup cause pending)⟩, p')
      | (none, p') => (⟨false, some cause⟩, p')
  | _, _ => (ret, p)

def closeLease (l : Lease σ) (ret : Returned) (p : Progress σ) : Returned × Progress σ :=
  match l.close p.lease with
  | (.ok (), s) => (ret, { p with lease := s })
  | (.error e, s) => (⟨ret.result, joinErrors ret.err (some (.lease e))⟩, { p with lease := s })

def checkout (h : Host) (l : Lease σ) (s : σ) : Returned × Progress σ :=
  let body := checkoutBody h l ⟨s, none, [], 0⟩
  let cleaned := cleanUp h body.1 body.2
  closeLease l cleaned.1 cleaned.2

-- The agent's checkout step. An error is returned without the result.
def agentCheckout (h : Host) (l : Lease σ) (s : σ) : Except CheckoutError String × Progress σ :=
  match checkout h l s with
  | (⟨_, some e⟩, p) => (.error e, p)
  | (⟨_, none⟩, p) =>
      match h.contextDir, p.result with
      | some dir, _ => (.ok dir, p)
      | none, some r => (.error .system, (Result.close h p r).2)
      | none, none => (.error .system, p)

end

end AutoDeploy.Checkout
