import AutoDeploy.Secret.Service

namespace AutoDeploy.Secret

open Lib Lib.Result Crypto

-- What each operation of the repository requires and writes.
variable {db db' : DB}

theorem reserveWrapInvocation_eq_ok {kekID : Bytes} (h : reserveWrapInvocation db kekID = .ok db') :
    ∃ row, db.wrapInvocations.get? kekID = some row ∧ row.generationID = db.generationID ∧
      row.reserved < maxReservedWrapInvocations ∧
      db' = { db with wrapInvocations := db.wrapInvocations.put kekID { row with reserved := row.reserved + 1 } } := by
  simp only [reserveWrapInvocation, bind_eq_ok, require_eq_ok, found_eq_ok, pure_eq_ok] at h
  obtain ⟨_, _, row, hrow, _, ⟨hgeneration, hlimit⟩, rfl⟩ := h
  exact ⟨row, hrow, hgeneration, hlimit, rfl⟩

theorem initializeActiveLedger_eq_ok {kekID generationID : Bytes}
    (h : initializeActiveLedger db kekID generationID = .ok db') :
    db.wrapInvocations.get? kekID = none ∧ db.generationID = generationID ∧
      (∀ id row, db.versions.get? id = some row → row.envelope.kekID ≠ kekID) ∧
      db' = { db with wrapInvocations := db.wrapInvocations.put kekID ⟨0, generationID⟩ } := by
  simp only [initializeActiveLedger, bind_eq_ok, require_eq_ok, pure_eq_ok] at h
  obtain ⟨_, _, _, hgeneration, _, hunreferenced, _, hnone, rfl⟩ := h
  refine ⟨hnone, hgeneration, ?_, rfl⟩
  intro id row hrow hsame
  have hfalse := Table.any_eq_false hunreferenced hrow
  simp [hsame] at hfalse

theorem insertSecretVersion_eq_ok {v : Version} (h : insertSecretVersion db v = .ok db') :
    (∃ head, db.heads.get? v.scope.secretID = some head ∧ v.scope.ownerID = head.ownerID ∧
      v.scope.projectID = head.projectID ∧ v.scope.environmentID = head.environmentID) ∧
      db.versions.get? v.id = none ∧
      (∀ id row, db.versions.get? id = some row → row.secretID = v.scope.secretID → row.number ≠ v.number) ∧
      (v.state = .active →
        ∀ id row, db.versions.get? id = some row → row.secretID = v.scope.secretID → row.state ≠ .active) ∧
      db' = { db with versions := db.versions.put v.id v.row } := by
  simp only [insertSecretVersion, bind_eq_ok, require_eq_ok, found_eq_ok, pure_eq_ok] at h
  obtain ⟨_, _, head, hhead, _, hscope, _, hnone, _, hnumber, _, hactive, rfl⟩ := h
  refine ⟨⟨head, hhead, hscope⟩, hnone, ?_, ?_, rfl⟩
  · intro id row hrow hsecret hsame
    have hfalse := Table.any_eq_false hnumber hrow
    simp [hsecret, hsame] at hfalse
  · intro hstate id row hrow hsecret hsame
    have hfalse := Table.any_eq_false (hactive.resolve_left (not_not_intro hstate)) hrow
    simp [hsecret, hsame] at hfalse

theorem insertSecretAudit_eq_ok {a : Audit} (h : insertSecretAudit db a = .ok db') :
    db.audits.get? a.id = none ∧ ∃ projectID environmentID,
      db' = { db with audits := db.audits.put a.id ⟨a, projectID, environmentID⟩ } := by
  simp only [insertSecretAudit, bind_eq_ok, require_eq_ok, found_eq_ok, pure_eq_ok] at h
  obtain ⟨_, _, head, _, _, _, _, _, _, _, _, _, _, _, _, _, _, hnone, rfl⟩ := h
  exact ⟨hnone, head.projectID, head.environmentID, rfl⟩

theorem appendMaterializationAudit_eq_ok {a : Audit} (h : appendMaterializationAudit db a = .ok db') :
    a.action = .materialized ∧ db.audits.get? a.id = none ∧ ∃ projectID environmentID,
      db' = { db with audits := db.audits.put a.id ⟨a, projectID, environmentID⟩ } := by
  simp only [appendMaterializationAudit, bind_eq_ok, require_eq_ok] at h
  obtain ⟨_, ⟨haction, _, _⟩, hinsert⟩ := h
  exact ⟨haction, insertSecretAudit_eq_ok hinsert⟩

theorem validSecretMutation_eq_ok {m : Mutation} {want : Nat} {u : Unit} (h : validSecretMutation m want = .ok u) :
    m.audit.versionID = m.version.id ∧ m.version.id ≠ [] ∧ validStoredVersion m.version = true ∧
      (want = 1 → m.version.number = 1 ∧ m.version.state = .active ∧ m.audit.action = .created) ∧
      (want = 0 → m.version.state = .active ∧
        (m.audit.action = .replaced ∨ m.audit.action = .replacedCompromised)) := by
  simp only [validSecretMutation, bind_eq_ok, require_eq_ok] at h
  obtain ⟨_, hnumber, _, ⟨hid, _, _, _, hversion, hstored⟩, _, _, _, _, _, hcreate, hreplace⟩ := h
  refine ⟨hversion, hid, hstored, ?_, hreplace⟩
  rintro rfl
  exact ⟨hnumber.resolve_left (by decide), hcreate rfl⟩

-- A create: a new head, its first version and the audit row.
theorem create_eq_ok {m : Mutation} (h : create db m = .ok db') :
    m.audit.versionID = m.version.id ∧ m.version.id ≠ [] ∧ validStoredVersion m.version = true ∧ m.version.number = 1 ∧
      m.version.state = .active ∧ m.audit.action = .created ∧ db.heads.get? m.version.scope.secretID = none ∧
      db.versions.get? m.version.id = none ∧ db.audits.get? m.audit.id = none ∧
      (∀ id row, db.versions.get? id = some row → row.secretID = m.version.scope.secretID → row.number ≠ 1) ∧
      ∃ head projectID environmentID, head.inScope m.version.scope = true ∧
        head.currentVersionID = some m.version.id ∧ head.revision = 1 ∧
        db' = { db with
          heads := db.heads.put m.version.scope.secretID head
          versions := db.versions.put m.version.id m.version.row
          audits := db.audits.put m.audit.id ⟨m.audit, projectID, environmentID⟩ } := by
  simp only [create, bind_eq_ok, require_eq_ok] at h
  obtain ⟨_, hvalid, _, _, _, hnohead, inserted, hversion, haudit⟩ := h
  obtain ⟨hid, hne, hstored, hcreate, _⟩ := validSecretMutation_eq_ok hvalid
  obtain ⟨hnumber, hstate, haction⟩ := hcreate rfl
  obtain ⟨_, hnoversion, hnumbers, _, rfl⟩ := insertSecretVersion_eq_ok hversion
  obtain ⟨hnoaudit, projectID, environmentID, rfl⟩ := insertSecretAudit_eq_ok haudit
  refine ⟨hid, hne, hstored, hnumber, hstate, haction, hnohead, hnoversion, hnoaudit, ?_, ?_⟩
  · intro id row hrow hsecret
    rw [← hnumber]
    exact hnumbers id row hrow hsecret
  · let head : Head := ⟨m.version.scope.ownerID, m.version.scope.projectID, m.version.scope.environmentID,
      m.version.scope.purpose, m.version.scope.deliveryScope, some m.version.id, 1⟩
    refine ⟨head, projectID, environmentID, ?_, rfl, rfl, ?_⟩
    · simp [head, Head.inScope]
    · simp only [Table.put_put]
      rfl

-- A replace: the head moves on, the version it named is retired, and the audit row links the two.
theorem replace_eq_ok {m : Mutation} {compromised : Bool} (h : replace db m compromised = .ok db') :
    m.audit.versionID = m.version.id ∧ m.version.id ≠ [] ∧ validStoredVersion m.version = true ∧
      m.version.state = .active ∧ m.audit.action = (if compromised then .replacedCompromised else .replaced) ∧
      ∃ head currentID current projectID environmentID,
        db.heads.get? m.version.scope.secretID = some head ∧ head.inScope m.version.scope = true ∧
        head.currentVersionID = some currentID ∧ db.versions.get? currentID = some current ∧
        current.secretID = m.version.scope.secretID ∧ current.state = .active ∧
        m.version.number = current.number + 1 ∧ m.audit.oldVersionID = currentID ∧
        db.versions.get? m.version.id = none ∧ db.audits.get? m.audit.id = none ∧
        (∀ id row, db.versions.get? id = some row → row.secretID = m.version.scope.secretID →
          row.number ≠ m.version.number) ∧
        db' = { db with
          heads := db.heads.put m.version.scope.secretID
            { head with currentVersionID := some m.version.id, revision := head.revision + 1 }
          versions := (db.versions.put currentID { current with state := replacedState compromised }).put m.version.id
            m.version.row
          audits := db.audits.put m.audit.id ⟨m.audit, projectID, environmentID⟩ } := by
  simp only [replace, bind_eq_ok, require_eq_ok, found_eq_ok] at h
  obtain ⟨_, hvalid, _, hkind, head, hhead, _, hscope, currentID, hcurrentID, current, hcurrent, _, ⟨hsecret, hactive⟩, _,
    hnumber, _, hold, inserted, hversion, haudit⟩ := h
  obtain ⟨hid, hne, hstored, _, hreplace⟩ := validSecretMutation_eq_ok hvalid
  obtain ⟨hstate, haction⟩ := hreplace rfl
  obtain ⟨_, hnoversion, hnumbers, _, rfl⟩ := insertSecretVersion_eq_ok hversion
  obtain ⟨hnoaudit, projectID, environmentID, rfl⟩ := insertSecretAudit_eq_ok haudit
  have hfresh : m.version.id ≠ currentID := by
    intro hsame
    rw [hsame, Table.get?_put_self] at hnoversion
    cases hnoversion
  refine ⟨hid, hne, hstored, hstate, ?_, head, currentID, current, projectID, environmentID, hhead, hscope, hcurrentID,
    hcurrent, hsecret, hactive, hnumber, hold, ?_, hnoaudit, ?_, rfl⟩
  · cases compromised with
    | true => simpa using hkind
    | false =>
        have hnot : m.audit.action ≠ .replacedCompromised := by simpa using hkind
        simpa using haction.resolve_right hnot
  · rwa [Table.get?_put, if_neg hfresh] at hnoversion
  · intro id row hrow hsame
    by_cases hid' : id = currentID
    · subst hid'
      obtain rfl := Option.some.inj (hcurrent.symm.trans hrow)
      omega
    · refine hnumbers id row ?_ hsame
      rwa [Table.get?_put, if_neg hid']

theorem rewrap_eq_ok {scope : Scope} {versionID : Bytes} {expectedRevision : Nat} {envelope : Envelope}
    (h : rewrap db scope versionID expectedRevision envelope = .ok db') :
    validKEKID envelope.kekID = true ∧ envelope.wrappedDEK.length = keyBytes + sealOverhead ∧
      ∃ row, db.versions.get? versionID = some row ∧ row.secretID = scope.secretID ∧ row.state ≠ .revoked ∧
        row.envelopeRevision = expectedRevision ∧
        db' = { db with versions := db.versions.put versionID { row with
          envelope := { row.envelope with kekID := envelope.kekID, wrappedDEK := envelope.wrappedDEK }
          envelopeRevision := row.envelopeRevision + 1 } } := by
  simp only [rewrap, bind_eq_ok, require_eq_ok, found_eq_ok, pure_eq_ok] at h
  obtain ⟨_, ⟨_, hid, _, _, hlength, _⟩, row, hrow, _, _, _, ⟨hsecret, _, hstate, hrevision, _⟩, _, _, rfl⟩ := h
  exact ⟨hid, hlength, row, hrow, hsecret, hstate, hrevision, rfl⟩

end AutoDeploy.Secret
