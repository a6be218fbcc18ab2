import AutoDeploy.Auth.Login

namespace AutoDeploy.Auth

open Lib Lib.Result

-- What each transaction on users and sessions writes.

section

variable {db db' : DB}

-- The throttle tables and their cap are as they were.
def SameThrottles (db db' : DB) : Prop :=
  db'.maxRows = db.maxRows ∧ db'.buckets = db.buckets ∧ db'.usernames = db.usernames

theorem SameThrottles.trans {db₁ db₂ db₃ : DB} (h : SameThrottles db₁ db₂) (h' : SameThrottles db₂ db₃) :
    SameThrottles db₁ db₃ :=
  ⟨h'.1.trans h.1, h'.2.1.trans h.2.1, h'.2.2.trans h.2.2⟩

-- The users, their policy and their sessions are as they were.
def SameAccounts (db db' : DB) : Prop :=
  db'.policy = db.policy ∧ db'.users = db.users ∧ db'.sessions = db.sessions

theorem SameAccounts.trans {db₁ db₂ db₃ : DB} (h : SameAccounts db₁ db₂) (h' : SameAccounts db₂ db₃) :
    SameAccounts db₁ db₃ :=
  ⟨h'.1.trans h.1, h'.2.1.trans h.2.1, h'.2.2.trans h.2.2⟩

theorem insertAudit_same {id : String} {row : AuditRow} (h : insertAudit db id row = .ok db') :
    SameThrottles db db' ∧ SameAccounts db db' := by
  simp only [insertAudit, bind_eq_ok, pure_eq_ok] at h
  obtain ⟨-, -, rfl⟩ := h
  exact ⟨⟨rfl, rfl, rfl⟩, ⟨rfl, rfl, rfl⟩⟩

theorem recordLogin_same {input : CompleteLoginInput} {ownerID : String} {limited : Bool}
    (h : recordLogin db input ownerID limited = .ok db') : SameThrottles db db' ∧ SameAccounts db db' := by
  unfold recordLogin at h
  split at h
  · simp only [bind_eq_ok] at h
    obtain ⟨first, hfirst, hsecond⟩ := h
    obtain ⟨hthrottles, haccounts⟩ := insertAudit_same hfirst
    obtain ⟨hthrottles', haccounts'⟩ := insertAudit_same hsecond
    exact ⟨hthrottles.trans hthrottles', haccounts.trans haccounts'⟩
  · exact insertAudit_same h

theorem clearIdentities_accounts (mine : BucketRow → Bool) (identities : List ThrottleIdentity) :
    SameAccounts db (identities.foldl (clearIdentity mine) db) := by
  induction identities generalizing db with
  | nil => exact ⟨rfl, rfl, rfl⟩
  | cons identity rest ih =>
      refine SameAccounts.trans ?_ ih
      unfold clearIdentity
      split
      · exact ⟨rfl, rfl, rfl⟩
      · exact ⟨rfl, rfl, rfl⟩
      · exact ⟨rfl, rfl, rfl⟩

theorem revokeSessions_eq_ok {message : String} {moments : String → Nat} {reason : RevokedReason}
    {which : String → SessionRow → Bool} (h : revokeSessions message db moments reason which = .ok db') :
    db' = { db with
      sessions := db.sessions.mapValues fun id row => if which id row then row.revoke (moments id) reason else row } := by
  simp only [revokeSessions, bind_eq_ok, pure_eq_ok] at h
  obtain ⟨-, -, rfl⟩ := h
  rfl

-- The users table after a login: the rehash is stored, nothing else.
def rehashedUsers (db : DB) (input : CompleteLoginInput) (user : UserRow) : Table String UserRow :=
  match input.replacement with
  | none => db.users
  | some verifier => db.users.put input.user.id { user with verifier }

theorem rehash_eq_ok {policy : Argon2Policy} {input : CompleteLoginInput} {user : UserRow}
    (h : rehash db policy input user = .ok db') : db' = { db with users := rehashedUsers db input user } := by
  unfold rehash at h
  unfold rehashedUsers
  cases hcase : input.replacement with
  | none =>
      rw [hcase] at h
      cases h
      rfl
  | some verifier =>
      rw [hcase] at h
      simp only [bind_eq_ok, pure_eq_ok] at h
      obtain ⟨-, -, -, -, rfl⟩ := h
      rfl

-- The sessions a login finds beyond the ten newest, its own among them.
def limitedBy (db : DB) (input : CompleteLoginInput) (session : SessionRow) : List String :=
  (excessiveSessions { db with sessions := db.sessions.put input.sessionID session } input.user.id).map Prod.fst

-- A login that succeeds.
structure LogsIn (clock : Clock) (db : DB) (input : CompleteLoginInput) (user : UserRow) (session : SessionRow)
    (db' : DB) : Prop where
  row : db.users.get? input.user.id = some user
  owner : user.ownerID = input.user.ownerID
  active : user.status = .active
  revision : user.authRevision = input.user.authRevision
  verifier : user.verifier = input.user.verifier
  session_eq : ∃ digest, sessionTokenDigest input.token = some digest ∧
    session = newSession (clock 0) digest input.user.id user
  fresh : db.sessions.get? input.sessionID = none
  freshToken : ∀ id row, db.sessions.get? id = some row → row.tokenDigest ≠ session.tokenDigest
  few : (limitedBy db input session).length ≤ 1
  users : db'.users = rehashedUsers db input user
  sessions : db'.sessions = (db.sessions.put input.sessionID session).mapValues fun id row =>
    if (limitedBy db input session).contains id then row.revoke (clock 1) .sessionLimit else row
  cleared : ∃ recorded mine, SameThrottles db recorded ∧ db' = input.throttleIdentities.foldl (clearIdentity mine) recorded

theorem lockLoginUser_eq_ok {user : LoginUser} {row : UserRow} {policy : Argon2Policy}
    (h : lockLoginUser db user = .ok (row, policy)) :
    db.users.get? user.id = some row ∧ row.ownerID = user.ownerID ∧ row.status = .active ∧
      row.authRevision = user.authRevision ∧ row.verifier = user.verifier := by
  simp only [lockLoginUser, bind_eq_ok, found_eq_ok, require_eq_ok, pure_eq_ok, Prod.mk.injEq] at h
  obtain ⟨found, hrow, policy', -, -, ⟨howner, hactive, hrevision, hphc, hpolicy⟩, -, -, -, -, rfl, rfl⟩ := h
  exact ⟨hrow, howner, hactive, hrevision, PasswordVerifier.ext hphc hpolicy⟩

theorem completeLogin_cases {clock : Clock} {input : CompleteLoginInput} {session : SessionRow}
    (h : completeLogin clock db input = .ok (session, db')) : ∃ user, LogsIn clock db input user session db' := by
  simp only [completeLogin, bind_eq_ok, found_eq_ok, require_eq_ok, pure_eq_ok, Prod.mk.injEq] at h
  obtain ⟨-, -, digest, hdigest, ⟨user, policy⟩, huser, rehashed, hrehash, inserted, hinsert, limited, hlimit, -, hfew,
    recorded, hrecord, rfl, rfl⟩ := h
  obtain ⟨hrow, howner, hactive, hrevision, hverifier⟩ := lockLoginUser_eq_ok huser
  obtain rfl := rehash_eq_ok hrehash
  simp only [insertSession, bind_eq_ok, require_eq_ok, pure_eq_ok] at hinsert
  obtain ⟨-, ⟨hfresh, htoken⟩, rfl⟩ := hinsert
  obtain rfl := revokeSessions_eq_ok hlimit
  obtain ⟨hthrottles, haccounts⟩ := recordLogin_same hrecord
  have hfinal := fun mine => haccounts.trans (clearIdentities_accounts mine input.throttleIdentities)
  refine ⟨user, ⟨hrow, howner, hactive, hrevision, hverifier, ⟨digest, hdigest, rfl⟩, hfresh, fun id row hrow => ?_, hfew,
    (hfinal _).2.1, (hfinal _).2.2, recorded, _, hthrottles, rfl⟩⟩
  simpa using Table.any_eq_false htoken hrow

-- A reset that succeeds.
structure Resets (moments : String → Nat) (db : DB) (userID : String) (verifier : PasswordVerifier)
    (digests : List Digest) (user : UserRow) (db' : DB) : Prop where
  row : db.users.get? userID = some user
  users : db'.users = db.users.put userID { user with verifier, authRevision := user.authRevision + 1 }
  sessions : db'.sessions = db.sessions.mapValues fun id row =>
    if row.userID == userID && row.unrevoked then row.revoke (moments id) .passwordReset else row
  cleared : ∃ recorded, SameThrottles db recorded ∧ SameThrottles (clearRecovery recorded userID digests) db'

theorem resetPassword_cases {moments : String → Nat} {userID auditID : String} {verifier : PasswordVerifier}
    {digests : List Digest} (h : resetPassword moments db userID verifier auditID digests = .ok db') :
    ∃ user, Resets moments db userID verifier digests user db' := by
  simp only [resetPassword, bind_eq_ok, found_eq_ok, require_eq_ok] at h
  obtain ⟨-, -, -, -, -, -, -, -, -, -, user, hrow, policy, -, -, -, -, -, revoked, hrevoke, haudit⟩ := h
  obtain rfl := revokeSessions_eq_ok hrevoke
  obtain ⟨hthrottles, haccounts⟩ := insertAudit_same haudit
  exact ⟨user, ⟨hrow, haccounts.2.1, haccounts.2.2, _, ⟨rfl, rfl, rfl⟩, hthrottles⟩⟩

-- A session that is validated, and the row it is left with: the old one, or the touched one.
structure Validates (clock : Clock) (db : DB) (principal : Principal) (row row' : SessionRow) (db' : DB) : Prop where
  found : db.sessions.get? principal.sessionID = some row
  owner : row.userID = principal.userID
  unrevoked : row.unrevoked = true
  idle : clock 0 < row.idleExpiresAt
  absolute : clock 1 < row.absoluteExpiresAt
  touched : row' = row ∨ row' = { row with
    lastSeenAt := clock 3
    idleExpiresAt := min row.absoluteExpiresAt (clock 4 + sessionIdleTimeout) }
  users : db'.users = db.users
  sessions : ∀ id, db'.sessions.get? id = if id = principal.sessionID then some row' else db.sessions.get? id

theorem touchSession_cases {clock : Clock} {id : String} {row : SessionRow} (hrow : db.sessions.get? id = some row)
    (h : touchSession clock db id row = .ok db') :
    ∃ row', (row' = row ∨ row' = { row with
        lastSeenAt := clock 1
        idleExpiresAt := min row.absoluteExpiresAt (clock 2 + sessionIdleTimeout) }) ∧ db'.users = db.users ∧
      ∀ x, db'.sessions.get? x = if x = id then some row' else db.sessions.get? x := by
  unfold touchSession at h
  split at h
  · simp only [bind_eq_ok, pure_eq_ok] at h
    obtain ⟨-, -, rfl⟩ := h
    exact ⟨_, .inr rfl, rfl, fun x => Table.get?_put _ _ _ _⟩
  · cases h
    refine ⟨row, .inl rfl, rfl, fun x => ?_⟩
    by_cases hx : x = id
    · rw [if_pos hx, hx, hrow]
    · rw [if_neg hx]

theorem validateSession_cases {clock : Clock} {seen : DB} {token : Bytes} {principal : Principal}
    (h : validateSession clock seen db token = .ok (principal, db')) :
    ∃ row row', Validates clock db principal row row' db' := by
  simp only [validateSession, bind_eq_ok, found_eq_ok, require_eq_ok, pure_eq_ok, Prod.mk.injEq] at h
  obtain ⟨digest, -, userID, -, ⟨id, row⟩, hfind, user, -, -, -, -, -, -, ⟨hidle, habsolute⟩, touched, htouch, rfl, rfl⟩ := h
  obtain ⟨hrow, hwhich⟩ := Table.find?_some hfind
  simp only [Bool.and_eq_true] at hwhich
  obtain ⟨row', htouched, husers, hsessions⟩ := touchSession_cases hrow htouch
  exact ⟨row, row', hrow, rfl, hwhich.2, hidle, habsolute, htouched, husers, hsessions⟩

-- What a logout writes.
theorem revokeSession_cases {clock : Clock} {seen : DB} {token : Bytes} {principal : Principal} {auditID : String}
    (h : revokeSession clock seen db token principal auditID = .ok db') :
    ∃ digest, db'.users = db.users ∧ db'.sessions = db.sessions.mapValues fun _ row =>
      if row.tokenDigest == digest then row.revoke (clock 0) .logout else row := by
  simp only [revokeSession, bind_eq_ok, found_eq_ok, require_eq_ok] at h
  obtain ⟨-, -, -, -, digest, -, userID, -, ⟨id, row⟩, -, user, -, -, -, -, -, -, -, revoked, hrevoke, haudit⟩ := h
  obtain rfl := revokeSessions_eq_ok hrevoke
  obtain ⟨-, haccounts⟩ := insertAudit_same haudit
  exact ⟨digest, haccounts.2.1, haccounts.2.2⟩

theorem cleanupSessions_cases {clock : Readings String} {place : String → Nat} {limit deleted : Nat}
    (h : cleanupSessions clock place db limit = .ok (deleted, db')) :
    ∃ which, db' = { db with sessions := db.sessions.keep which } := by
  simp only [cleanupSessions, bind_eq_ok, pure_eq_ok, Prod.mk.injEq] at h
  obtain ⟨-, -, -, rfl⟩ := h
  exact ⟨_, rfl⟩

end

end AutoDeploy.Auth
