import AutoDeploy.Checkout.Runner

namespace AutoDeploy.Checkout

open Lib Lib.Result

-- `crypto.NewRedactingWriter` and the pipe of the one-use broker, which both leases end in.
structure Boundary where
  redactable : String → Bool
  pipes : Bool

def Boundary.redactingWriter (b : Boundary) (token : String) : Except LeaseError Unit :=
  if b.redactable token then .ok () else .error .redaction

-- The agent's lease: it has no token before `Start`.
structure AgentLease where
  binding : CheckoutBinding
  reservationID : String
  started : Bool
  closed : Bool
  token : String
  brokerDelivered : Bool
deriving DecidableEq, Repr

-- What the control plane answers to the three checkout calls.
structure CheckoutClient where
  begins : Except LeaseError (String × CheckoutBinding)
  starts : Except LeaseError String
  closes : Except LeaseError Unit

def beginLease (c : CheckoutClient) (attemptID fence : Int) : Except LeaseError AgentLease := do
  require (0 < attemptID ∧ 0 < fence) .unavailable
  let (reservationID, binding) ← c.begins
  require (reservationID ≠ "") .unavailable
  pure ⟨binding, reservationID, false, false, "", false⟩

def AgentLease.start (c : CheckoutClient) (s : AgentLease) : Except LeaseError Unit × AgentLease :=
  if s.started || s.closed then (.error .unavailable, s)
  else if s.reservationID = "" then (.error .unavailable, s)
  else
    match c.starts with
    | .error e => (.error e, s)
    | .ok token =>
        if token = "" then (.error .unavailable, s) else (.ok (), { s with token := token, started := true })

def AgentLease.newAskPassBroker (b : Boundary) (s : AgentLease) : Except LeaseError Unit × AgentLease :=
  if !s.started || s.closed || s.token == "" || s.brokerDelivered then (.error .unavailable, s)
  else if b.pipes then (.ok (), { s with brokerDelivered := true })
  else (.error .unavailable, s)

def AgentLease.redactingWriter (b : Boundary) (s : AgentLease) : Except LeaseError Unit :=
  if !s.started || s.closed || s.token == "" then .error .unavailable else b.redactingWriter s.token

def AgentLease.close (c : CheckoutClient) (s : AgentLease) : Except LeaseError Unit × AgentLease :=
  if s.closed then (.ok (), s)
  else if s.reservationID = "" then (.error .unavailable, { s with closed := true })
  else (c.closes, { s with closed := true })

def agentLease (b : Boundary) (c : CheckoutClient) : Lease AgentLease where
  binding s := s.binding
  start := AgentLease.start c
  newAskPassBroker := AgentLease.newAskPassBroker b
  redactingWriter := AgentLease.redactingWriter b
  close := AgentLease.close c

-- The control plane's lease: it owns its token from the moment it is activated.
structure CheckoutLease where
  token : String
  binding : CheckoutBinding
  delivered : Bool
  invalidated : Bool
deriving DecidableEq, Repr

-- What the reservation store and the provider answer.
structure CheckoutService where
  startCheckout : Except LeaseError Unit
  closeCheckout : Except LeaseError Unit
  revokeToken : Except LeaseError Unit

def CheckoutLease.start (v : CheckoutService) (s : CheckoutLease) : Except LeaseError Unit × CheckoutLease :=
  if s.binding.reservationID = "" then (.error .unavailable, s)
  else if s.invalidated || s.token == "" || s.delivered then (.error .stale, s)
  else (v.startCheckout.mapError fun _ => .stale, s)

def CheckoutLease.newAskPassBroker (b : Boundary) (s : CheckoutLease) : Except LeaseError Unit × CheckoutLease :=
  if s.token == "" || s.delivered || s.invalidated then (.error .unavailable, s)
  else if b.pipes then (.ok (), { s with delivered := true })
  else (.error .unavailable, s)

def CheckoutLease.redactingWriter (b : Boundary) (s : CheckoutLease) : Except LeaseError Unit :=
  if s.token = "" then .error .unavailable else b.redactingWriter s.token

def CheckoutLease.revoke (v : CheckoutService) (s : CheckoutLease) : Except LeaseError Unit × CheckoutLease :=
  if s.token = "" then (.ok (), s)
  else
    match v.revokeToken with
    | .error e => (.error e, s)
    | .ok () => (.ok (), { s with token := "" })

-- Both the reservation and the token are given up, whether or not the other one fails.
def CheckoutLease.close (v : CheckoutService) (s : CheckoutLease) : Except LeaseError Unit × CheckoutLease :=
  let reservation : Except LeaseError Unit :=
    if s.binding.reservationID = "" then .error .unavailable else v.closeCheckout.mapError fun _ => .stale
  match reservation, s.revoke v with
  | .ok (), (.ok (), s') => (.ok (), s')
  | .ok (), (.error _, s') => (.error .revocationRequired, s')
  | .error e, (.ok (), s') => (.error e, s')
  | .error e, (.error _, s') => (.error (.join e .revocationRequired), s')

def checkoutLease (b : Boundary) (v : CheckoutService) : Lease CheckoutLease where
  binding s := s.binding
  start := CheckoutLease.start v
  newAskPassBroker := CheckoutLease.newAskPassBroker b
  redactingWriter := CheckoutLease.redactingWriter b
  close := CheckoutLease.close v

end AutoDeploy.Checkout
