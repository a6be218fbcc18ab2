import AutoDeploy.Lib.Result

namespace AutoDeploy.Agent

-- The errors of `httpclient.go` that callers switch on; `cancelled` is the error of the context.
inductive ClientError where
  | unauthorized
  | staleLease
  | integrityConflict
  | invalidRequest
  | serviceUnavailable
  | transportFailure
  | cancelled
deriving DecidableEq, Repr

def maxRetries : Nat := 5

def maxResponseBytes : Nat := 64 * 1024

-- An answer of the control plane: the body of a 200, or another status with the error its body names.
inductive Reply (α : Type) where
  | ok (body : α)
  | refused (status : Nat) (error : String)
deriving DecidableEq, Repr

def mapStatus (status : Nat) (error : String) : ClientError :=
  if status = 401 then .unauthorized
  else if status = 409 then if error = "stale_lease" then .staleLease else .integrityConflict
  else if status = 400 ∨ status = 413 then .invalidRequest
  else if status = 503 then .serviceUnavailable
  else .transportFailure

-- What `attempt` returns for a response that was read whole; one that was not is a transport failure.
def Reply.received {α : Type} : Reply α → Except ClientError α
  | .ok body => .ok body
  | .refused status error => .error (mapStatus status error)

-- The two errors `post` tries again after.
def ClientError.retried : ClientError → Bool
  | .serviceUnavailable | .transportFailure => true
  | _ => false

-- The attempt after a failed one, when there is another.
def nextAttempt (attempt : Nat) (e : ClientError) : Option Nat :=
  if e.retried ∧ attempt < maxRetries then some (attempt + 1) else none

end AutoDeploy.Agent
