import AutoDeploy.Checkout.Leases
import AutoDeploy.Checkout.Requests
import AutoDeploy.Checkout.Withdrawals
import AutoDeploy.Lib.Threads

namespace AutoDeploy.Checkout

open Lib Lib.Result

-- One control-plane process: its requests run side by side, and each goes on from one lock, transaction or provider
-- call to the next while the others do the same.

-- The lease of the control plane with the snapshot it was activated under.
structure HeldLease extends CheckoutLease where
  snapshot : Snapshot
deriving DecidableEq, Repr

def HeldLease.reservationID (l : HeldLease) : String := l.binding.reservationID

def CheckoutLease.deliverToken (s : CheckoutLease) : Except LeaseError String × CheckoutLease :=
  if s.token == "" || s.delivered || s.invalidated then (.error .unavailable, s)
  else (.ok s.token, { s with delivered := true })

def CheckoutLease.invalidate (s : CheckoutLease) : CheckoutLease := { s with invalidated := true }

-- What can be seen from outside, latest first.
inductive Happening
  | minted (id token : String)
  | revoked (token : String)
  | delivered (id token : String)
  | carried (id token : String)
  | closed (id : String)
  | withdrawn (reservations live : List String)
deriving DecidableEq, Repr

-- `registry` is the `CheckoutRegistry` and `held` the lease of each of its entries, `active` is `activeLeases`. A lease
-- is named after the request that made it.
structure Shared where
  store : GitHubDB
  registry : Registry
  held : Table String Nat
  leases : Table Nat HeldLease
  active : Table String Nat
  log : List Happening

inductive Closer
  | start
  | close
deriving DecidableEq, Repr

-- Where a request stands: what it does next. `finished` has answered.
inductive Stage
  | idle
  | reserving (caller : Caller) (authorization : CheckoutAuthorization)
  | mismatched (id : String)
  | registering (id : String) (caller : Caller)
  | claiming (id : String) (caller : Caller)
  | claimed (id : String)
  | minting (id : String) (row : Reservation)
  | minted (id : String) (row : Reservation) (token : String)
  | discarding (id : String) (token : String)
  | dropping (id : String)
  | releasing (id : String)
  | activated (id : String) (row : Reservation) (token : String)
  | leased (id : String)
  | running (id : String)
  | published (id : String)
  | delivered (id : String) (token : String)
  | matching (id : String) (caller : Caller)
  | closingRow (id : String)
  | closingLease (closer : Closer) (id : String) (lease : Nat)
  | revokingLease (closer : Closer) (id : String) (lease : Nat) (consumed : Bool)
  | removingLease (closer : Closer) (id : String) (lease : Nat) (closed : Bool)
  | marking (id : String) (seen : Option Nat)
  | closed (id : String)
  | withdrawing (w : Withdrawal)
  | invalidating (covered live pending : List String)
  | marked (covered live pending : List String) (lease : Nat)
  | reclaiming (lease : Nat)
  | finished
deriving DecidableEq, Repr

-- What comes in: requests that passed their checks or did not, the withdrawals, the revocation that an invalidation
-- leaves to the background, and whatever else changes the tables of the authority.
inductive Arrival
  | begin (caller : Caller) (authorization : Option CheckoutAuthorization)
  | start (id : String) (caller : Caller) (permitted : Bool)
  | close (id : String) (caller : Caller) (permitted : Bool)
  | withdraw (w : Withdrawal) (granted : Bool)
  | reclaim (lease : Nat)
  | administer (authority : Authority)

-- What the world decides in one turn: the clock, the identity the store draws, whether a store call fails (before its
-- commit or, when `some true`, after it), what the provider mints and whether its answer arrives and is in order, and
-- whether it takes a token back.
structure Outcome where
  arrival : Option Arrival := none
  now : Nat := 0
  id : String := ""
  fault : Option Bool := none
  token : String := ""
  handed : Bool := true
  valid : Bool := true
  revoked : Bool := true

-- A call of the store as its caller sees it.
def GitHubDB.call {α : Type} (db : GitHubDB) (fault : Option Bool) (result : Except ReservationError (GitHubDB × α)) :
    GitHubDB × Option α :=
  match fault, result with
  | none, .ok (db', a) => (db', some a)
  | some true, .ok (db', _) => (db', none)
  | _, _ => (db, none)

def Shared.withStore (s : Shared) (db : GitHubDB) : Shared := { s with store := db }

def Shared.note (s : Shared) (h : Happening) : Shared := { s with log := h :: s.log }

def Shared.setLease (s : Shared) (a : Nat) (l : HeldLease) : Shared := { s with leases := s.leases.put a l }

def Shared.closeCheckout (s : Shared) (o : Outcome) (id : String) : Shared × Bool :=
  let r := s.store.call o.fault (Checkout.closeCheckout o.now s.store id)
  (s.withStore r.1, r.2.isSome)

def Outcome.revokeToken (o : Outcome) : Except LeaseError Unit :=
  if o.revoked then .ok () else .error .revocationRequired

-- `RevokeToken` at the provider: a success is seen there.
def Shared.revokeToken (s : Shared) (o : Outcome) (token : String) : Shared :=
  if o.revoked then s.note (.revoked token) else s

-- `Revoke` of a lease, under its lock. A lease without a token has nothing to revoke.
def Shared.revoke (s : Shared) (o : Outcome) (a : Nat) : Shared × Bool :=
  match s.leases.get? a with
  | none => (s, true)
  | some l =>
      match l.toCheckoutLease.revoke ⟨.ok (), .ok (), o.revokeToken⟩ with
      | (.error _, _) => (s, false)
      | (.ok (), l') =>
          if l.token = "" then (s, true)
          else ((s.setLease a { l with toCheckoutLease := l' }).note (.revoked l.token), true)

-- `Start` of a lease: its lock is held over the transaction.
def Shared.startLease (s : Shared) (o : Outcome) (a : Nat) : Shared × Bool :=
  match s.leases.get? a with
  | none => (s, false)
  | some l =>
      if l.reservationID == "" || l.invalidated || l.token == "" || l.delivered then (s, false)
      else
        let r := s.store.call o.fault (startCheckout o.now s.store l.reservationID l.snapshot)
        (s.withStore r.1, r.2.isSome)

def Shared.deliverToken (s : Shared) (a : Nat) (id : String) : Shared × Option String :=
  match s.leases.get? a with
  | none => (s, none)
  | some l =>
      match l.toCheckoutLease.deliverToken with
      | (.error _, _) => (s, none)
      | (.ok token, l') => ((s.setLease a { l with toCheckoutLease := l' }).note (.delivered id token), some token)

def Shared.invalidate (s : Shared) (a : Nat) : Shared :=
  match s.leases.get? a with
  | none => s
  | some l => s.setLease a { l with toCheckoutLease := l.toCheckoutLease.invalidate }

-- The reservations whose authority a withdrawal takes away, and those of them that are live.
def covered (db : GitHubDB) (w : Withdrawal) : List String :=
  (db.reservations.select fun _ r => w.withdraws db.authority r.snapshot).map Prod.fst

def coveredLive (db : GitHubDB) (w : Withdrawal) : List String :=
  (db.reservations.select fun _ r => w.withdraws db.authority r.snapshot && r.state.live).map Prod.fst

def arrive (s : Shared) : Arrival → Shared × Stage
  | .begin caller authorization =>
      match authorization with
      | some a => (s, if caller.valid then .reserving caller a else .finished)
      | none => (s, .finished)
  | .start id caller permitted =>
      (s, if caller.valid && validReservationID id && permitted then .claiming id caller else .finished)
  | .close id caller permitted =>
      (s, if caller.valid && validReservationID id && permitted then .matching id caller else .finished)
  | .withdraw w granted => (s, if granted then .withdrawing w else .finished)
  | .reclaim a => (s, if (s.leases.get? a).any fun l => l.invalidated then .reclaiming a else .finished)
  | .administer authority => (s.withStore { s.store with authority := authority }, .finished)

-- After `Close` of a lease: the start that made it answers that it failed, a close request answers what came of it.
def Closer.after (id : String) (lease : Nat) (closed : Bool) : Closer → Stage
  | .start => .releasing id
  | .close => if closed then .marking id (some lease) else .finished

@[grind =] def next (s : Shared) (t : Nat) (o : Outcome) : Stage → Shared × Stage
  | .idle =>
      match o.arrival with
      | some arrival => arrive s arrival
      | none => (s, .idle)
  -- begin
  | .reserving caller a =>
      match s.store.call o.fault (reserveCheckout o.now s.store o.id a.ownerID a.projectID a.commitSHA) with
      | (db, none) => (s.withStore db, .finished)
      | (db, some row) =>
          (s.withStore db, if row.snapshot.repositoryID ≠ a.repositoryID ∨ row.commitSHA ≠ a.commitSHA then
            .mismatched o.id else .registering o.id caller)
  | .mismatched id => ((s.closeCheckout o id).1, .finished)
  | .registering id caller => ({ s with registry := s.registry.add id caller o.now }, .finished)
  -- start
  | .claiming id caller =>
      match s.registry.claimStart id caller o.now with
      | some registry => ({ s with registry := registry }, .claimed id)
      | none => ({ s with registry := s.registry.sweep o.now }, .finished)
  | .claimed id =>
      match s.store.call o.fault (beginMintAttempt o.now s.store id) with
      | (db, none) => (s.withStore db, .dropping id)
      | (db, some row) => (s.withStore db, if mintable id row then .minting id row else .dropping id)
  | .minting id row =>
      if o.token = "" then (s, .dropping id)
      else if o.handed then
        (s.note (.minted id o.token), if o.valid then .minted id row o.token else .discarding id o.token)
      else (s.note (.minted id o.token), .dropping id)
  | .minted id row token =>
      match s.store.call o.fault (activateMintAttempt o.now s.store id row.snapshot) with
      | (db, none) => (s.withStore db, .discarding id token)
      | (db, some ()) => (s.withStore db, .activated id row token)
  | .discarding id token => (s.revokeToken o token, .dropping id)
  | .dropping id => ((s.closeCheckout o id).1, .releasing id)
  | .releasing id => ({ s with registry := s.registry.releaseStart id }, .finished)
  | .activated id row token =>
      let lease : HeldLease := ⟨⟨token, ⟨row.snapshot.cloneURL, row.commitSHA, id⟩, false, false⟩, row.snapshot⟩
      ({ s.setLease t lease with active := s.active.put id t }, .leased id)
  | .leased id =>
      match s.startLease o t with
      | (s', true) => (s', .running id)
      | (s', false) => (s', .closingLease .start id t)
  | .running id =>
      ({ s with
        registry := s.registry.setLease id
        held := if (s.registry.get? id).isSome then s.held.put id t else s.held }, .published id)
  | .published id =>
      match s.deliverToken t id with
      | (s', some token) => (s', .delivered id token)
      | (s', none) => (s', .finished)
  | .delivered id token => (s.note (.carried id token), .finished)
  -- close
  | .matching id caller =>
      match s.registry.owned id caller o.now with
      | none => ({ s with registry := s.registry.sweep o.now }, .finished)
      | some e =>
          ({ s with registry := s.registry.sweep o.now },
            if e.closed then .closed id
            else
              match (s.held.get? id).filter fun _ => e.leased with
              | some a => .closingLease .close id a
              | none => .closingRow id)
  | .closingRow id =>
      match s.closeCheckout o id with
      | (s', true) => (s', .marking id none)
      | (s', false) => (s', .finished)
  | .marking id _ => ({ s with registry := s.registry.markClosed id }, .closed id)
  | .closed id => (s.note (.closed id), .finished)
  -- `Close` of a lease
  | .closingLease closer id a =>
      match s.closeCheckout o id with
      | (s', consumed) => (s', .revokingLease closer id a consumed)
  | .revokingLease closer id a consumed =>
      match s.revoke o a with
      | (s', revoked) => (s', .removingLease closer id a (consumed && revoked))
  | .removingLease closer id a closed => ({ s with active := s.active.erase id }, closer.after id a closed)
  -- withdrawals
  | .withdrawing w =>
      match w.apply s.store, o.fault with
      | some (db, ids), none => (s.withStore db, .invalidating (covered s.store w) (coveredLive s.store w) ids)
      | some (db, _), some true => (s.withStore db, .finished)
      | _, _ => (s, .finished)
  | .invalidating ids live [] => (s.note (.withdrawn ids live), .finished)
  | .invalidating ids live (id :: pending) =>
      match s.active.get? id with
      | some a => (s, .marked ids live pending a)
      | none => (s, .invalidating ids live pending)
  | .marked ids live pending a => (s.invalidate a, .invalidating ids live pending)
  | .reclaiming a => ((s.revoke o a).1, .finished)
  | .finished => (s, .finished)

def checkoutProcess : Threads Shared Stage Outcome := ⟨next⟩

-- A process that just started, over whatever its predecessors left in the store.
def fresh (db : GitHubDB) : Config Shared Stage :=
  ⟨⟨db, Table.empty, Table.empty, Table.empty, Table.empty, []⟩, fun _ => .idle⟩

end AutoDeploy.Checkout
