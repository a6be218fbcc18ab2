import AutoDeploy.Protocol.System

namespace AutoDeploy.Agent

open Lib Queue Store Protocol

-- One call of `Renew`: which call it is, and the sequence it carries.
structure RenewalCall where
  call : Nat
  sequence : Nat
deriving DecidableEq, Repr

-- The variables of `runLease` between the start and the end of its loop. `waiting` is the call in progress, and
-- `acknowledged`, which the code does not keep, the last sequence a successful answer confirmed.
structure LeaseLoop where
  sequence : Nat
  cancelled : Bool
  calls : Nat
  waiting : Option RenewalCall
  acknowledged : Nat
  returned : Bool
deriving DecidableEq, Repr

def LeaseLoop.start : LeaseLoop := ⟨0, false, 0, none, 0, false⟩

-- The ticker fires: the sequence is advanced and the call is made.
def LeaseLoop.nextCall (loop : LeaseLoop) : RenewalCall := ⟨loop.calls, loop.sequence + 1⟩

def LeaseLoop.tick (loop : LeaseLoop) : LeaseLoop :=
  { loop with sequence := loop.sequence + 1, calls := loop.calls + 1, waiting := some loop.nextCall }

-- The call failed for any other reason than a stale lease: the same sequence is sent again at the next tick.
def LeaseLoop.lost (loop : LeaseLoop) : LeaseLoop := { loop with sequence := loop.sequence - 1, waiting := none }

-- The call's answer. A stale lease ends the loop.
def LeaseLoop.answered (loop : LeaseLoop) : Except Error RenewalResult → LeaseLoop
  | .ok result =>
      { loop with
        cancelled := loop.cancelled || result.cancelRequested
        waiting := none
        acknowledged := loop.sequence }
  | .error e => if e.is .leaseStale then { loop with waiting := none, returned := true } else loop.lost

-- The lease the loop was started for.
structure Grant where
  serverID : String
  presented : Digest
  attemptID : Nat
  fence : Nat

-- The control plane, the loop, and the network between them. Every request ever sent may still arrive, also again;
-- `extensions` records which of them moved the attempt's deadlines.
structure Renewal where
  db : DB
  loop : LeaseLoop
  requests : List RenewalCall
  responses : List (RenewalCall × Except Error RenewalResult)
  extensions : List Nat

def renewsAttempt (attemptID : Nat) : Txn → Prop
  | .renew _ _ id _ _ => id = attemptID
  | _ => False

-- What the control plane does with a request that arrives.
def Grant.renew (g : Grant) (now : Nat) (db : DB) (sequence : Nat) : DB × Except Error RenewalResult :=
  committed db (Store.renew now db g.serverID g.presented g.attemptID g.fence sequence)

inductive Step (g : Grant) (s : Renewal) : Renewal → Prop
  | tick (hidle : s.loop.waiting = none) (hrunning : s.loop.returned = false) :
      Step g s { s with loop := s.loop.tick, requests := s.requests ++ [s.loop.nextCall] }
  | deliver {m : RenewalCall} (now : Nat) (hsent : m ∈ s.requests) :
      Step g s { s with
        db := (g.renew now s.db m.sequence).1
        responses := s.responses ++ [(m, (g.renew now s.db m.sequence).2)]
        extensions := if (g.renew now s.db m.sequence).1.attempts.get? g.attemptID = s.db.attempts.get? g.attemptID
          then s.extensions else s.extensions ++ [m.sequence] }
  | answer {m : RenewalCall} {answer : Except Error RenewalResult} (hwaiting : s.loop.waiting = some m)
      (hanswer : (m, answer) ∈ s.responses) : Step g s { s with loop := s.loop.answered answer }
  | lose {m : RenewalCall} (hwaiting : s.loop.waiting = some m) : Step g s { s with loop := s.loop.lost }
  | done (hidle : s.loop.waiting = none) : Step g s { s with loop := { s.loop with returned := true } }
  -- any other transaction of the control plane
  | commit (now : Nat) {txn : Txn} (hother : ¬ renewsAttempt g.attemptID txn) :
      Step g s { s with db := exec now s.db txn }

-- The runs of the loop from the claim of its attempt on.
def renewalSystem (g : Grant) : System Renewal where
  initial s := leaseSystem.Reachable s.db ∧
    (∃ attempt, s.db.attempts.get? g.attemptID = some attempt ∧ attempt.renewalSequence = 0) ∧
    s.loop = .start ∧ s.requests = [] ∧ s.responses = [] ∧ s.extensions = []
  next := Step g

end AutoDeploy.Agent
