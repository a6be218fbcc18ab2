import AutoDeploy.Enrollment.Registry
import AutoDeploy.Protocol.Access

namespace AutoDeploy.Enrollment

open Lib Lib.Result Store

-- The tables of the server repository. The version of a credential and the last heartbeat of a server are columns that
-- the lease protocol does not read; the name, the protocol version and the audit rows of a server nothing reads.
structure Fleet where
  store : Store.DB
  version : Nat → Nat
  lastHeartbeatAt : String → Option Nat
  tokens : Table String TokenRow

namespace Fleet

def denied : Error := .sentinel .serverAuthorizationDenied

def validName (name : String) : Bool :=
  decide (1 ≤ name.utf8ByteSize) && decide (name.utf8ByteSize ≤ 128) && Utf8.trimSpace name.toList == name.toList &&
    name.toList.all fun c => decide (0x20 ≤ c.toNat) && c.toNat != 0x7f

structure RegisterServerInput where
  serverID : String
  name : String
  protocolVersion : Nat
  enrollmentDigest : Digest
  enrollmentTTLSeconds : Nat

def RegisterServerInput.valid (input : RegisterServerInput) (ownerID : String) : Bool :=
  validOpaqueID input.serverID && validOpaqueID ownerID && validName input.name && input.protocolVersion == 1 &&
    decide (0 < input.enrollmentTTLSeconds) && decide (input.enrollmentTTLSeconds ≤ 3600)

-- A new token: it lives for the given number of seconds.
def freshToken (now : Nat) (digest : Digest) (ttlSeconds : Nat) : TokenRow where
  digest := digest
  issuedAt := now
  expiresAt := now + ttlSeconds * Queue.second
  consumedAt := none

def registerServer (now : Nat) (db : Fleet) (p : Principal) (input : RegisterServerInput) :
    Except Error (Fleet × Nat) := do
  require (p.valid ∧ input.valid p.ownerID) denied
  lockAdministratorSession db.store now p
  require (db.store.servers.get? input.serverID = none) denied
  let servers := db.store.servers.put input.serverID ⟨p.ownerID, .active, now, none⟩
  during "insert server enrollment token" <| require (db.tokens.get? input.serverID = none)
    (DbError.uniqueViolation "server_enrollment_tokens_pkey")
  let token := freshToken now input.enrollmentDigest input.enrollmentTTLSeconds
  pure ({ db with
    store := { db.store with servers }
    lastHeartbeatAt := Function.update db.lastHeartbeatAt input.serverID none
    tokens := db.tokens.put input.serverID token }, token.expiresAt)

def lockActiveServer (db : Fleet) (serverID ownerID : String) : Except Error Unit :=
  require ((db.store.servers.get? serverID).any fun s => s.ownerID == ownerID && s.status == .active) denied

def issueEnrollment (now : Nat) (db : Fleet) (p : Principal) (serverID : String) (digest : Digest) (ttlSeconds : Nat) :
    Except Error (Fleet × Nat) := do
  require (p.valid ∧ validOpaqueID serverID ∧ 0 < ttlSeconds ∧ ttlSeconds ≤ 3600) denied
  lockAdministratorSession db.store now p
  lockActiveServer db serverID p.ownerID
  let row ← found (db.tokens.get? serverID) denied
  require (row.consumedAt = none) denied
  let token := freshToken now digest ttlSeconds
  pure ({ db with tokens := db.tokens.put serverID token }, token.expiresAt)

-- The row of a new active credential, with the unique keys of the table.
def insertCredential (message : String) (now : Nat) (db : Fleet) (serverID : String) (version : Nat) (digest : Digest) :
    Except Error Fleet := do
  during message <| require (version ≤ 2147483647) (DbError.other "integer out of range")
  require (db.store.credentials.any (fun id c => c.serverID == serverID && db.version id == version) = false) denied
  require (db.store.credentials.any (fun _ c => c.serverID == serverID && c.status == .active) = false) denied
  let id := db.store.credentials.nextKey
  pure { db with
    store := { db.store with credentials := db.store.credentials.put id ⟨serverID, digest, .active, now, none⟩ }
    version := Function.update db.version id version }

def enroll (now : Nat) (db : Fleet) (serverID : String) (enrollmentDigest credentialDigest : Digest) :
    Except Error (Fleet × Nat) := do
  require (validOpaqueID serverID) denied
  let foundServer := (db.store.servers.get? serverID).any fun s => s.status == .active
  let token := if foundServer then db.tokens.get? serverID else none
  let stored := (token.map TokenRow.digest).getD dummyCredentialDigest
  let live := token.all fun row => row.consumedAt.isNone && decide (now < row.expiresAt)
  require (foundServer ∧ token.isSome ∧ live ∧ stored = enrollmentDigest) denied
  let row ← found token denied
  during "consume server enrollment token" <| require (row.issuedAt ≤ now)
    (DbError.checkViolation "server_enrollment_tokens" "server_enrollment_tokens_check1")
  let db := { db with tokens := db.tokens.put serverID { row with consumedAt := some now } }
  let db ← insertCredential "insert server credential" now db serverID 1 credentialDigest
  pure (db, 1)

def activeCredential (db : Fleet) (serverID : String) : Option (Nat × Credential) :=
  db.store.credentials.find? fun _ c => c.serverID == serverID && c.status == .active

def rotateCredential (now : Nat) (db : Fleet) (p : Principal) (serverID : String) (newDigest : Digest) :
    Except Error (Fleet × Nat) := do
  require (p.valid ∧ validOpaqueID serverID) denied
  lockAdministratorSession db.store now p
  lockActiveServer db serverID p.ownerID
  let (id, active) ← found (db.activeCredential serverID) denied
  during "revoke server credential" <| require (active.issuedAt ≤ now)
    (DbError.checkViolation "server_credentials" "server_credentials_check1")
  let revoked := db.store.credentials.put id { active with status := .revoked, revokedAt := some now }
  let newVersion := db.version id + 1
  let db ← insertCredential "insert rotated server credential" now
    { db with store := { db.store with credentials := revoked } } serverID newVersion newDigest
  pure (db, newVersion)

def revokeServer (now : Nat) (draws : Nat → Nat) (db : Fleet) (p : Principal) (serverID reason : String) :
    Except Error Fleet := do
  let (store, _) ← Store.revokeServer now draws db.store p serverID reason
  pure { db with store }

-- The server and its active credential, when the presented digest is the one stored.
def matchCredential (db : Fleet) (serverID : String) (presented : Digest) : Except Error (Server × Nat) := do
  require (validOpaqueID serverID) denied
  let server := (db.store.servers.get? serverID).filter fun s => s.status == .active
  let credential := if server.isSome then db.activeCredential serverID else none
  let stored := (credential.map fun row => row.2.digest).getD dummyCredentialDigest
  require (server.isSome ∧ credential.isSome ∧ stored = presented) denied
  let server ← found server denied
  let (id, _) ← found credential denied
  pure (server, id)

structure AuthenticatedServer where
  serverID : String
  ownerID : String
  credentialVersion : Nat

def authenticate (db : Fleet) (serverID : String) (presented : Digest) : Except Error AuthenticatedServer := do
  let (server, id) ← matchCredential db serverID presented
  pure ⟨serverID, server.ownerID, db.version id⟩

def heartbeat (now : Nat) (db : Fleet) (serverID : String) (presented : Digest) : Except Error Fleet := do
  let (server, _) ← matchCredential db serverID presented
  let moment := max ((db.lastHeartbeatAt serverID).getD now) now
  during "record server heartbeat" <| require (server.createdAt ≤ moment)
    (DbError.checkViolation "servers" "servers_check2")
  pure { db with lastHeartbeatAt := Function.update db.lastHeartbeatAt serverID (some moment) }

-- What each of them wrote, when it succeeded.

section

variable {now : Nat} {db db' : Fleet} {p : Principal} {serverID : String} {digest : Digest}

def IsActive (db : Fleet) (serverID : String) : Prop :=
  ∃ server, db.store.servers.get? serverID = some server ∧ server.status = .active

theorem lockActiveServer_eq_ok {ownerID : String} {u : Unit} (h : lockActiveServer db serverID ownerID = .ok u) :
    IsActive db serverID := by
  simp only [lockActiveServer, require_eq_ok, Option.any_eq_true_iff_get, Bool.and_eq_true, beq_iff_eq] at h
  obtain ⟨hsome, -, hactive⟩ := h
  exact ⟨_, (Option.some_get hsome).symm, hactive⟩

theorem registerServer_cases {input : RegisterServerInput} {expiresAt : Nat}
    (h : registerServer now db p input = .ok (db', expiresAt)) :
    db.store.servers.get? input.serverID = none ∧ db.tokens.get? input.serverID = none ∧
      db'.store.servers = db.store.servers.put input.serverID ⟨p.ownerID, .active, now, none⟩ ∧
      db'.store.credentials = db.store.credentials ∧ db'.version = db.version ∧
      ∃ token, token.digest = input.enrollmentDigest ∧ token.expiresAt = expiresAt ∧ token.consumedAt = none ∧
        db'.tokens = db.tokens.put input.serverID token := by
  simp only [registerServer, bind_eq_ok, require_eq_ok, during_eq_ok, pure_eq_ok, Prod.mk.injEq] at h
  obtain ⟨-, -, -, -, -, hserver, -, htoken, rfl, rfl⟩ := h
  exact ⟨hserver, htoken, rfl, rfl, rfl, _, rfl, rfl, rfl, rfl⟩

theorem issueEnrollment_cases {ttlSeconds expiresAt : Nat}
    (h : issueEnrollment now db p serverID digest ttlSeconds = .ok (db', expiresAt)) :
    IsActive db serverID ∧ (∃ row, db.tokens.get? serverID = some row ∧ row.consumedAt = none) ∧ db'.store = db.store ∧
      db'.version = db.version ∧
      ∃ token, token.digest = digest ∧ token.expiresAt = expiresAt ∧ token.consumedAt = none ∧
        db'.tokens = db.tokens.put serverID token := by
  simp only [issueEnrollment, bind_eq_ok, require_eq_ok, found_eq_ok, pure_eq_ok, Prod.mk.injEq] at h
  obtain ⟨-, -, -, -, _, hserver, row, hrow, -, hconsumed, rfl, rfl⟩ := h
  exact ⟨lockActiveServer_eq_ok hserver, ⟨row, hrow, hconsumed⟩, rfl, rfl, _, rfl, rfl, rfl, rfl⟩

theorem insertCredential_cases {message : String} {version : Nat}
    (h : insertCredential message now db serverID version digest = .ok db') :
    (∀ id c, db.store.credentials.get? id = some c → c.serverID = serverID → db.version id ≠ version) ∧
      (∀ id c, db.store.credentials.get? id = some c → c.serverID = serverID → c.status ≠ .active) ∧
      db' = { db with
        store := { db.store with
          credentials := db.store.credentials.put db.store.credentials.nextKey ⟨serverID, digest, .active, now, none⟩ }
        version := Function.update db.version db.store.credentials.nextKey version } := by
  simp only [insertCredential, bind_eq_ok, require_eq_ok, during_eq_ok, pure_eq_ok] at h
  obtain ⟨-, -, -, hversions, -, hactive, rfl⟩ := h
  refine ⟨fun id c hrow hserver heq => ?_, fun id c hrow hserver hstatus => ?_, rfl⟩
  · have := Table.any_eq_false hversions hrow
    simp [hserver, heq] at this
  · have := Table.any_eq_false hactive hrow
    simp [hserver, hstatus] at this

theorem enroll_cases {token credential : Digest} {version : Nat}
    (h : enroll now db serverID token credential = .ok (db', version)) :
    IsActive db serverID ∧ ∃ row, db.tokens.get? serverID = some row ∧ row.digest = token ∧ row.consumedAt = none ∧
      now < row.expiresAt ∧ insertCredential "insert server credential" now
        { db with tokens := db.tokens.put serverID { row with consumedAt := some now } } serverID 1 credential = .ok db' := by
  simp only [enroll, bind_eq_ok, require_eq_ok, found_eq_ok, during_eq_ok, pure_eq_ok, Prod.mk.injEq] at h
  obtain ⟨-, -, -, ⟨hserver, -, hlive, hdigest⟩, row, htoken, -, -, next, hinsert, rfl, -⟩ := h
  rw [htoken] at hlive hdigest
  rw [if_pos hserver] at htoken
  simp only [Option.all_some, Bool.and_eq_true, Option.isNone_iff_eq_none, decide_eq_true_eq] at hlive
  simp only [Option.any_eq_true_iff_get, beq_iff_eq] at hserver
  obtain ⟨hsome, hactive⟩ := hserver
  exact ⟨⟨_, (Option.some_get hsome).symm, hactive⟩, row, htoken, hdigest, hlive.1, hlive.2, hinsert⟩

theorem activeCredential_eq_some {id : Nat} {c : Credential} (h : db.activeCredential serverID = some (id, c)) :
    db.store.credentials.get? id = some c ∧ c.serverID = serverID ∧ c.status = .active := by
  obtain ⟨hrow, hwhich⟩ := Table.find?_some h
  simp only [Bool.and_eq_true, beq_iff_eq] at hwhich
  exact ⟨hrow, hwhich.1, hwhich.2⟩

theorem rotateCredential_cases {version : Nat} (h : rotateCredential now db p serverID digest = .ok (db', version)) :
    IsActive db serverID ∧ ∃ id active, db.store.credentials.get? id = some active ∧ active.serverID = serverID ∧
      active.status = .active ∧ insertCredential "insert rotated server credential" now
        { db with
          store := { db.store with
            credentials := db.store.credentials.put id { active with status := .revoked, revokedAt := some now } } }
        serverID (db.version id + 1) digest = .ok db' := by
  simp only [rotateCredential, bind_eq_ok, require_eq_ok, found_eq_ok, during_eq_ok, pure_eq_ok, Prod.mk.injEq] at h
  obtain ⟨-, -, -, -, _, hserver, ⟨id, active⟩, hactive, -, -, next, hinsert, rfl, -⟩ := h
  obtain ⟨hrow, hmine, hstatus⟩ := activeCredential_eq_some hactive
  exact ⟨lockActiveServer_eq_ok hserver, id, active, hrow, hmine, hstatus, hinsert⟩

theorem matchCredential_cases {server : Server} {id : Nat} (h : matchCredential db serverID digest = .ok (server, id)) :
    IsActive db serverID ∧ ∃ c, db.store.credentials.get? id = some c ∧ c.serverID = serverID ∧ c.status = .active ∧
      c.digest = digest := by
  simp only [matchCredential, bind_eq_ok, require_eq_ok, found_eq_ok, pure_eq_ok, Prod.mk.injEq] at h
  obtain ⟨-, -, -, ⟨-, -, hdigest⟩, server', hserver, ⟨id', c⟩, hcredential, rfl, rfl⟩ := h
  rw [hcredential] at hdigest
  rw [hserver] at hcredential
  obtain ⟨hrow, hactive⟩ := Option.filter_eq_some_iff.1 hserver
  obtain ⟨hc, hmine, hstatus⟩ := activeCredential_eq_some hcredential
  exact ⟨⟨server', hrow, by simpa using hactive⟩, c, hc, hmine, hstatus, hdigest⟩

-- A revocation: the server's row, and the row of its active credential if there is one.
theorem revokeServer_cases {draws : Nat → Nat} {reason : String}
    (h : Fleet.revokeServer now draws db p serverID reason = .ok db') :
    IsActive db serverID ∧ db'.tokens = db.tokens ∧ db'.version = db.version ∧
      (∃ server, server.status = .revoked ∧ db'.store.servers = db.store.servers.put serverID server) ∧
      (db'.store.credentials = db.store.credentials ∨
        ∃ id c, db.store.credentials.get? id = some c ∧ c.serverID = serverID ∧
          db'.store.credentials = db.store.credentials.put id { c with status := .revoked, revokedAt := some now }) := by
  simp only [Fleet.revokeServer, Store.revokeServer, revokeInFlightLeases, bind_eq_ok, found_eq_ok,
    Option.filter_eq_some_iff, pure_eq_ok, Prod.exists, Prod.mk.injEq] at h
  obtain ⟨store, -, ⟨-, -, -, -, server, ⟨hserver, hwhich⟩, -, -, -, -, ended, hloop, rfl, -⟩, rfl⟩ := h
  simp only [Bool.and_eq_true, beq_iff_eq] at hwhich
  refine ⟨⟨server, hserver, hwhich.2⟩, rfl, rfl, ?_⟩
  cases hcredential : db.store.credentials.find? fun _ c => c.serverID == serverID && c.status == .active with
  | none =>
      simp only [hcredential] at hloop
      have hkept := Protocol.revokeLoop_access rfl _ hloop
      simp only [Protocol.access, Prod.mk.injEq] at hkept
      exact ⟨⟨_, rfl, hkept.2.1⟩, .inl hkept.2.2⟩
  | some row =>
      obtain ⟨id, c⟩ := row
      obtain ⟨hrow, hmine, -⟩ := activeCredential_eq_some hcredential
      simp only [hcredential] at hloop
      have hkept := Protocol.revokeLoop_access rfl _ hloop
      simp only [Protocol.access, Prod.mk.injEq] at hkept
      exact ⟨⟨_, rfl, hkept.2.1⟩, .inr ⟨id, c, hrow, hmine, hkept.2.2⟩⟩

end

end Fleet

end AutoDeploy.Enrollment
