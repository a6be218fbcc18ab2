import AutoDeploy.Store.Resolution
import AutoDeploy.Lib.Unicode

namespace AutoDeploy.Store

open Lib Lib.Result

def normalizeRouteHostname (hostname : String) : String :=
  String.ofList (hostname.toList.map Unicode.toLower)

def hostnameFailure (db : DB) (p : Principal) (environmentID hostname : String) : DB :=
  insertRouteHeadAuditEvent db ⟨p.userID, p.ownerID, environmentID, hostname, none, .failure⟩

def hostnameSuccess (db : DB) (p : Principal) (environmentID hostname : String) (revision : Nat) : DB :=
  insertRouteEvent
    (insertRouteHeadAuditEvent db ⟨p.userID, p.ownerID, environmentID, hostname, some revision, .success⟩)
    ⟨environmentID, .hostnameAssigned, revision, some hostname, none⟩

def isUniqueViolation : DbError → Bool
  | .pg e => e.code == "23505"
  | _ => false

def violates (constraint : String) : DbError → Bool
  | .pg e => e.constraintName == constraint
  | _ => false

-- A refused hostname is audited in a transaction that commits.
def createRouteHead (now : Nat) (db : DB) (p : Principal) (environmentID hostname : String) :
    DB × Except Error RouteHead :=
  let head : RouteHead := ⟨hostname, 0, none, false, now, now⟩
  match insertRouteHead db environmentID head with
  | .error e =>
      if isUniqueViolation e then
        (hostnameFailure db p environmentID hostname,
          .error (.sentinel (if violates "route_heads_pkey" e then .routeHeadAlreadyExists else .hostnameTaken)))
      else (db, .error (.wrap "insert route head" (.db e)))
  | .ok db => (hostnameSuccess db p environmentID hostname 0, .ok head)

def updateRouteHeadHostname (now : Nat) (db : DB) (p : Principal) (environmentID hostname : String)
    (expectedRevision : Nat) : DB × Except Error RouteHead :=
  let refused (s : Sentinel) : DB × Except Error RouteHead :=
    (hostnameFailure db p environmentID hostname, .error (.sentinel s))
  match db.routeHeads.get? environmentID with
  | none => refused .routeHeadNotFound
  | some current =>
      if (current.activeReleaseID.getD "") ≠ "" then refused .hostnameImmutable
      else if current.routeRevision ≠ expectedRevision then refused .routeHeadConflict
      else
        match updateRouteHead db environmentID (fun _ => true) fun h =>
            { h with hostname := hostname, routeRevision := h.routeRevision + 1, updatedAt := now } with
        | .error e =>
            if isUniqueViolation e then refused .hostnameTaken
            else (db, .error (.wrap "update route head" (.db e)))
        | .ok (db, _) =>
            (hostnameSuccess db p environmentID hostname (current.routeRevision + 1),
              .ok { current with hostname := hostname, routeRevision := current.routeRevision + 1, updatedAt := now })

-- `none` creates the route head; an expected revision changes the hostname of an existing one.
def assignRouteHostname (now : Nat) (db : DB) (p : Principal) (environmentID hostname : String)
    (expectedRevision : Option Nat) : DB × Except Error RouteHead :=
  let hostname := normalizeRouteHostname hostname
  if p.valid ∧ validOpaqueID environmentID ∧ Healthgate.validRouteHostname hostname ∧
      administratorSessionLive db now p ∧ environmentOwnedBy db environmentID p.ownerID then
    match expectedRevision with
    | none => createRouteHead now db p environmentID hostname
    | some revision => updateRouteHeadHostname now db p environmentID hostname revision
  else (db, .error (.sentinel .serverAuthorizationDenied))

end AutoDeploy.Store
