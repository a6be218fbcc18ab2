import AutoDeploy.Protocol.Frames

namespace AutoDeploy.Protocol

open Lib Lib.Result Queue Store Deployment

-- Who may call is written by none of the lease transactions but the revocation of a server.

-- The administrators, the servers and the credentials.
def access (db : DB) : Administration × Table String Server × Table Nat Credential :=
  (db.administration, db.servers, db.credentials)

section

variable {db : DB} {rows : Administration × Table String Server × Table Nat Credential}

-- No move of a deployment touches them.
theorem access_absorbs (target : Status) : Absorbs (fun administration servers credentials _ _ =>
    (administration, servers, credentials) = rows) target :=
  fun _ _ _ _ _ _ _ _ h => h

-- ... and no freezing.
theorem access_freezes : Freezes fun administration servers credentials _ _ =>
    (administration, servers, credentials) = rows :=
  fun _ _ _ _ _ _ _ _ _ h => freeze_keeps fun _ => h

-- Every other transaction leaves the administrators, the servers and the credentials as they are.
theorem exec_access {now : Nat} {txn : Txn} (h : ¬ txn.regrants) : access (exec now db txn) = access db :=
  exec_keeps (Q := fun administration servers credentials _ _ => (administration, servers, credentials) = access db) h
    (fun target _ => access_absorbs target) (fun _ => access_freezes) rfl

theorem tryClaim_access {now jobID : Nat} {serverID environmentID : String} (h : access db = rows) :
    Returns (fun r => access r.1 = rows) (tryClaim now db serverID jobID environmentID) :=
  tryClaim_keeps (access_absorbs .assigned) access_freezes h

theorem openSlots_access {now : Nat} (environments : List String) (h : access db = rows) :
    access (environments.foldl (ensureSlot now) db) = rows :=
  openSlots_frames (Q := fun administration servers credentials _ _ => (administration, servers, credentials) = rows)
    environments h

theorem revokeLoop_access {now : Nat} {draws : Nat → Nat} {attempts : List Nat} (h : access db = rows) :
    Returns (fun db' => access db' = rows) (revokeLoop now draws attempts db) :=
  revokeLoop_keeps (access_absorbs .cancelled) (access_absorbs .failed) h

end

-- A revocation keeps the stamps of creation and issue.
theorem revokeServer_stamps {now : Nat} {draws : Nat → Nat} {db db' : DB} {p : Principal} {serverID reason : String}
    (h : revokeServer now draws db p serverID reason = .ok (db', ())) :
    SameBy Server.createdAt db'.servers.get? db.servers.get? ∧
      SameBy Credential.issuedAt db'.credentials.get? db.credentials.get? := by
  simp only [revokeServer, bind_eq_ok, found_eq_ok, Option.filter_eq_some_iff, pure_eq_ok, Prod.mk.injEq] at h
  obtain ⟨_, -, _, -, server, ⟨hserver, -⟩, _, -, _, -, db₁, hloop, rfl, -⟩ := h
  have hservers : SameBy Server.createdAt
      (db.servers.put serverID { server with status := .revoked, revokedAt := some now }).get? db.servers.get? := by
    rw [Table.get?_put_eq_update]
    exact SameBy.write hserver rfl
  cases hcredential : db.credentials.find? fun _ c => c.serverID == serverID && c.status == .active with
  | none =>
      simp only [hcredential] at hloop
      have hkept := revokeLoop_access rfl _ hloop
      simp only [access, Prod.mk.injEq] at hkept
      simp only [insertServerAuditEvent, hkept.2.1, hkept.2.2]
      exact ⟨hservers, SameBy.refl⟩
  | some row =>
      obtain ⟨id, c⟩ := row
      simp only [hcredential] at hloop
      have hkept := revokeLoop_access rfl _ hloop
      simp only [access, Prod.mk.injEq] at hkept
      simp only [insertServerAuditEvent, hkept.2.1, hkept.2.2, Table.get?_put_eq_update db.credentials]
      exact ⟨hservers, SameBy.write (Table.find?_some hcredential).1 rfl⟩

theorem Registered.mono {clock now : Nat} {servers : Table String Server} {credentials : Table Nat Credential}
    (h : Registered clock servers credentials) (hle : clock ≤ now) : Registered now servers credentials :=
  ⟨h.servers.imp fun _ _ _ ht => ht.trans hle, h.credentials.imp fun _ _ _ ht => ht.trans hle⟩

-- The servers and credentials of a timed run carry no stamp ahead of its clock.
theorem registered_of_reachable {clock : Nat} {db : DB} (h : timedSystem.Reachable (clock, db)) :
    Registered clock db.servers db.credentials := by
  refine System.Reachable.invariant
    (P := fun state : Nat × DB => Registered state.1 state.2.servers state.2.credentials) ?_ ?_ h
  · rintro ⟨clock, db⟩ ⟨-, -, hregistered, -⟩
    exact hregistered
  · rintro ⟨clock, db⟩ ⟨clock', db'⟩ h ⟨txn, hle, hstamped, hexec⟩
    have hexec : db' = exec clock' db txn := hexec
    rw [hexec]
    have h' : Registered clock' db.servers db.credentials := h.mono hle
    by_cases hregrants : txn.regrants
    · cases txn with
      | revokeServer draws p serverID reason =>
          show Registered clock' (committed db (revokeServer clock' draws db p serverID reason)).1.servers
            (committed db (revokeServer clock' draws db p serverID reason)).1.credentials
          cases hrevoke : revokeServer clock' draws db p serverID reason with
          | error e => exact h'
          | ok r =>
              obtain ⟨hservers, hcredentials⟩ := revokeServer_stamps hrevoke
              refine ⟨fun id server hrow => ?_, fun id credential hrow => ?_⟩
              · obtain ⟨old, hold, hsame⟩ := hservers.symm.forward hrow
                exact hsame ▸ h'.servers id old hold
              · obtain ⟨old, hold, hsame⟩ := hcredentials.symm.forward hrow
                exact hsame ▸ h'.credentials id old hold
      | administer administration servers credentials => exact hstamped
      | _ => exact absurd hregrants id
    · have hkept : access (exec clock' db txn) = access db := exec_access hregrants
      simp only [access, Prod.mk.injEq] at hkept
      simp only [hkept.2.1, hkept.2.2]
      exact h'

end AutoDeploy.Protocol
