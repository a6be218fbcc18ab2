import AutoDeploy.Lib.Sha256

namespace AutoDeploy.Queue

open Lib

def second : Nat := 1000000

-- The maximum attempt count, expiry included.
def maxAttempts : Nat := 5

def retryBaseDelayNanos : Nat := 5 * 1000000000

def retryCapDelayNanos : Nat := 5 * 60 * 1000000000

def backoffNanos (attemptNumber : Nat) : Nat :=
  let shift := min ((max attemptNumber 1) - 1) 20
  min (retryBaseDelayNanos * 2 ^ shift) retryCapDelayNanos

-- One full-jitter delay. The 53-bit draw of the random source is an argument, and the result
-- is truncated to the microseconds the database keeps.
def fullJitterDelay (attemptNumber draw : Nat) : Nat :=
  (draw % 2 ^ 53) * backoffNanos attemptNumber / 2 ^ 53 / 1000

inductive FailureClass where
  | transient
  | authorization
  | invalidInput
  | cancelled
  | corruptState
  | permanentConfiguration
deriving DecidableEq, Repr

def FailureClass.retryable (c : FailureClass) : Bool := c == .transient

inductive CompletionOutcome where
  | succeeded
  | failed
deriving DecidableEq, Repr

inductive AttemptState where
  | leased
  | succeeded
  | failed
  | expired
  | cancelled
deriving DecidableEq, Repr

inductive JobState where
  | queued
  | leased
  | retryWait
  | succeeded
  | failed
  | cancelled
  | dead
deriving DecidableEq, Repr

def JobState.terminal : JobState → Bool
  | .succeeded | .failed | .cancelled | .dead => true
  | _ => false

structure RenewalResult where
  leaseExpiresAt : Nat
  authorityExpiresAt : Nat
  cancelRequested : Bool
deriving DecidableEq, Repr

-- The answer of an authorized activation: everything the agent needs to render the same
-- route document, and the digest it must find.
structure ActivationResult where
  operationID : String
  routeRevision : Nat
  hostname : String
  entrypointName : String
  certResolverName : String
  backendRuntimeInstanceID : String
  routeDigest : String
deriving DecidableEq, Repr

end AutoDeploy.Queue
