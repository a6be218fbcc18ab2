import AutoDeploy.Auth.Steps
import AutoDeploy.Lib.Runs

namespace AutoDeploy.Auth

open Lib Lib.Result

-- A session: its user and the moment it was created. The id and the token of a deleted session may be used again.
structure SessionName where
  userID : String
  createdAt : Nat
deriving DecidableEq

def SessionRow.name (row : SessionRow) : SessionName := ⟨row.userID, row.createdAt⟩

-- What a committed transaction did: a login with the revision and the verifier it carried and the rehash it stored, a
-- validation with its first and its last reading of the clock, a reset with the revision it replaced.
inductive SessionEvent where
  | loggedIn (session : SessionName) (revision : Nat) (verifier : PasswordVerifier) (rehashed : Option PasswordVerifier)
  | validated (session : SessionName) (checked finished : Nat)
  | loggedOut
  | reset (userID : String) (revision : Nat) (verifier : PasswordVerifier)
  | cleaned

namespace SessionEvent

def creates (session : SessionName) : SessionEvent → Bool
  | .loggedIn created _ _ _ => decide (created = session)
  | _ => false

-- The moment the session was created or, by the end of the validation, used.
def uses (session : SessionName) : SessionEvent → Option Nat
  | .loggedIn created _ _ _ => if created = session then some created.createdAt else none
  | .validated used _ finished => if used = session then some finished else none
  | _ => none

def resets (userID : String) : SessionEvent → Bool
  | .reset user _ _ => decide (user = userID)
  | _ => false

-- The verifier the transaction stored for the user.
def stores (userID : String) : SessionEvent → Option PasswordVerifier
  | .loggedIn session _ _ rehashed => if session.userID = userID then rehashed else none
  | .reset user _ verifier => if user = userID then some verifier else none
  | _ => none

end SessionEvent

-- A committed transaction with the sessions that were not revoked before it and are revoked after it.
structure SessionEntry where
  event : SessionEvent
  revoked : List SessionName

def newlyRevoked (before after : DB) : List SessionName :=
  (after.sessions.select fun id row => !row.unrevoked && (before.sessions.get? id).all SessionRow.unrevoked).map
    fun session => session.2.name

-- The logs have the newest entry first.

def lastUse (session : SessionName) (log : List SessionEntry) : Option Nat :=
  log.findSome? fun entry => entry.event.uses session

def lastStored (userID : String) (log : List SessionEntry) : Option PasswordVerifier :=
  log.findSome? fun entry => entry.event.stores userID

def Created (session : SessionName) (log : List SessionEntry) : Prop :=
  ∃ entry ∈ log, entry.event.creates session = true

-- The session was revoked, or its user's password was reset after it was created.
def Ended (session : SessionName) : List SessionEntry → Prop
  | [] => False
  | entry :: earlier =>
      session ∈ entry.revoked ∨ (entry.event.resets session.userID = true ∧ Created session earlier) ∨
        Ended session earlier

-- What is promised of a transaction that committed after the given ones.
def Authorised (earlier : List SessionEntry) (entry : SessionEntry) : Prop :=
  match entry.event with
  | .loggedIn session revision verifier _ =>
      entry.revoked.length ≤ 1 ∧ session ∉ entry.revoked ∧
        (∀ reset ∈ earlier, ∀ old new, reset.event = .reset session.userID old new → old < revision) ∧
        ∀ stored, lastStored session.userID earlier = some stored → verifier = stored
  | .validated session checked _ =>
      (∃ used, lastUse session earlier = some used ∧ checked < used + sessionIdleTimeout) ∧
        checked < session.createdAt + sessionAbsoluteLife ∧ ¬ Ended session earlier
  | .loggedOut => True
  | .reset _ _ _ => True
  | .cleaned => True

-- The database, the last reading of the clock by a transaction that held a user's lock, and the log.
structure Sessions where
  db : DB
  reading : String → Nat
  log : List SessionEntry

namespace Sessions

-- The readings of a transaction that holds the user's lock: after those of the transactions that held it before.
def Ticks (s : Sessions) (userID : String) (clock : Clock) : Prop := StrictMono clock ∧ s.reading userID < clock 0

-- The same for a transaction that reads the clock once for each row and then ends.
def TicksEach (s : Sessions) (userID : String) (moments : String → Nat) (ended : Nat) : Prop :=
  s.reading userID < ended ∧ ∀ id, s.reading userID < moments id ∧ moments id ≤ ended

def record (s : Sessions) (db : DB) (userID : String) (reading : Nat) (event : SessionEvent) : Sessions where
  db := db
  reading := Function.update s.reading userID reading
  log := ⟨event, newlyRevoked s.db db⟩ :: s.log

def unrevoked (s : Sessions) (userID : String) : List (String × SessionRow) :=
  s.db.sessions.select fun _ row => row.userID == userID && row.unrevoked

-- The committed transactions; a failed one is rolled back. The login, the validation, the logout and the reset lock the
-- row of their user before they read anything but `seen`, so those of one user take place one after the other. The
-- cleanup takes no such lock and its readings are not ordered with those of the others.
inductive Commits (s : Sessions) : Sessions → Prop
  | login {clock : Clock} {input : CompleteLoginInput} {session : SessionRow} {db : DB}
      (hclock : s.Ticks input.user.id clock) (h : completeLogin clock s.db input = .ok (session, db)) :
      Commits s (s.record db input.user.id (clock 1)
        (.loggedIn session.name input.user.authRevision input.user.verifier input.replacement))
  | validate {clock : Clock} {seen : DB} {token : Bytes} {principal : Principal} {row : SessionRow} {db : DB}
      (hclock : s.Ticks principal.userID clock) (h : validateSession clock seen s.db token = .ok (principal, db))
      (hrow : s.db.sessions.get? principal.sessionID = some row) :
      Commits s (s.record db principal.userID (clock 4) (.validated row.name (clock 0) (clock 4)))
  | logout {clock : Clock} {seen : DB} {token : Bytes} {principal : Principal} {auditID : String} {db : DB}
      (hclock : s.Ticks principal.userID clock) (h : revokeSession clock seen s.db token principal auditID = .ok db) :
      Commits s (s.record db principal.userID (clock 0) .loggedOut)
  | reset {moments : String → Nat} {ended : Nat} {userID : String} {verifier : PasswordVerifier} {auditID : String}
      {digests : List Digest} {user : UserRow} {db : DB} (hclock : s.TicksEach userID moments ended)
      (h : resetPassword moments s.db userID verifier auditID digests = .ok db)
      (hrow : s.db.users.get? userID = some user) :
      Commits s (s.record db userID ended (.reset userID user.authRevision verifier))
  | cleanup {clock : Readings String} {place : String → Nat} {limit deleted : Nat} {db : DB}
      (h : cleanupSessions clock place s.db limit = .ok (deleted, db)) :
      Commits s { s with db, log := ⟨.cleaned, newlyRevoked s.db db⟩ :: s.log }

end Sessions

-- The runs of the five transactions, from a database without sessions.
def sessionRuns : System Sessions where
  initial s := (∀ id, s.db.sessions.get? id = none) ∧ s.log = []
  next s s' := s.Commits s'

section

variable {session : SessionName} {entry : SessionEntry} {log : List SessionEntry}

theorem lastUse_cons (session : SessionName) (entry : SessionEntry) (log : List SessionEntry) :
    lastUse session (entry :: log) = (entry.event.uses session).or (lastUse session log) := by
  simp only [lastUse, List.findSome?_cons]
  cases entry.event.uses session with
  | none => rfl
  | some moment => rfl

theorem lastStored_cons (userID : String) (entry : SessionEntry) (log : List SessionEntry) :
    lastStored userID (entry :: log) = (entry.event.stores userID).or (lastStored userID log) := by
  simp only [lastStored, List.findSome?_cons]
  cases entry.event.stores userID with
  | none => rfl
  | some verifier => rfl

-- A log tells of a session when it was created or when it is revoked.
def Mentioned (session : SessionName) (log : List SessionEntry) : Prop :=
  ∃ entry ∈ log, session ∈ entry.revoked ∨ entry.event.creates session = true

theorem Created.mentioned (h : Created session log) : Mentioned session log := by
  obtain ⟨entry, hmem, hcreates⟩ := h
  exact ⟨entry, hmem, .inr hcreates⟩

theorem Mentioned.cons (h : Mentioned session log) : Mentioned session (entry :: log) := by
  obtain ⟨entry, hmem, hmention⟩ := h
  exact ⟨entry, List.mem_cons_of_mem _ hmem, hmention⟩

theorem Ended.mentioned (h : Ended session log) : Mentioned session log := by
  induction log with
  | nil => exact h.elim
  | cons entry earlier ih =>
      rcases h with hrevoked | ⟨-, hcreated⟩ | hended
      · exact ⟨entry, List.mem_cons_self, .inl hrevoked⟩
      · exact hcreated.mentioned.cons
      · exact (ih hended).cons

end

theorem mem_newlyRevoked {before after : DB} {session : SessionName} (h : session ∈ newlyRevoked before after) :
    ∃ id row, after.sessions.get? id = some row ∧ row.name = session ∧ row.unrevoked = false := by
  obtain ⟨⟨id, row⟩, hmem, hname⟩ := List.mem_map.1 h
  obtain ⟨hrow, hwhich⟩ := (Table.mem_select _ _ _ _).1 hmem
  simp only [Bool.and_eq_true, Bool.not_eq_true'] at hwhich
  exact ⟨id, row, hrow, hname, hwhich.1⟩

-- The last use of a session is in the log and its idle time runs from there.
def Used (reading : String → Nat) (log : List SessionEntry) (row : SessionRow) : Prop :=
  ∃ used, lastUse row.name log = some used ∧ used ≤ reading row.userID ∧ row.idleExpiresAt ≤ used + sessionIdleTimeout

structure SoundSession (reading : String → Nat) (log : List SessionEntry) (row : SessionRow) : Prop where
  absolute : row.absoluteExpiresAt = row.createdAt + sessionAbsoluteLife
  created : row.createdAt ≤ reading row.userID
  used : Used reading log row
  live : row.unrevoked = true → ¬ Ended row.name log

structure SoundUser (log : List SessionEntry) (userID : String) (user : UserRow) : Prop where
  revision : ∀ reset ∈ log, ∀ old new, reset.event = .reset userID old new → old < user.authRevision
  verifier : ∀ stored, lastStored userID log = some stored → user.verifier = stored

def UniqueNames (sessions : Table String SessionRow) : Prop :=
  ∀ id id' row row', sessions.get? id = some row → sessions.get? id' = some row' → row.name = row'.name → id = id'

-- The invariant of every run.
structure SoundSessions (s : Sessions) : Prop where
  rows : ∀ id row, s.db.sessions.get? id = some row → SoundSession s.reading s.log row
  names : UniqueNames s.db.sessions
  past : ∀ session, Mentioned session s.log → session.createdAt ≤ s.reading session.userID
  users : ∀ userID user, s.db.users.get? userID = some user → SoundUser s.log userID user
  few : ∀ userID, (s.unrevoked userID).length ≤ maxActiveSessions
  log : ∀ later entry earlier, s.log = later ++ entry :: earlier → Authorised earlier entry

-- A session row after a transaction that does not create it.
structure SessionRow.Ages (row row' : SessionRow) : Prop where
  name : row'.name = row.name
  absolute : row'.absoluteExpiresAt = row.absoluteExpiresAt
  unrevoked : row'.unrevoked = true → row.unrevoked = true

def Ages (sessions sessions' : Table String SessionRow) : Prop :=
  ∀ id row', sessions'.get? id = some row' → ∃ row, sessions.get? id = some row ∧ row.Ages row'

section

variable {s : Sessions} {db : DB} {reading : String → Nat} {event : SessionEvent}
  {sessions sessions' : Table String SessionRow}

theorem SessionRow.Ages.refl (row : SessionRow) : row.Ages row := ⟨rfl, rfl, id⟩

theorem SessionRow.Ages.revoke (row : SessionRow) (moment : Nat) (reason : RevokedReason) :
    row.Ages (row.revoke moment reason) :=
  ⟨rfl, rfl, fun h => by simp [SessionRow.unrevoked, SessionRow.revoke] at h⟩

theorem SessionRow.Ages.userID_eq {row row' : SessionRow} (h : row.Ages row') : row'.userID = row.userID :=
  congrArg SessionName.userID h.name

theorem SessionRow.Ages.createdAt_eq {row row' : SessionRow} (h : row.Ages row') : row'.createdAt = row.createdAt :=
  congrArg SessionName.createdAt h.name

theorem UniqueNames.ages (h : UniqueNames sessions) (hages : Ages sessions sessions') : UniqueNames sessions' := by
  intro id id' row row' hrow hrow' hname
  obtain ⟨old, hold, ha⟩ := hages id row hrow
  obtain ⟨old', hold', ha'⟩ := hages id' row' hrow'
  exact h id id' old old' hold hold' (by rw [← ha.name, ← ha'.name, hname])

-- A revocation of some of the rows.
theorem get?_revoke {which : String → SessionRow → Bool} {moments : String → Nat} {reason : RevokedReason} {id : String}
    {row' : SessionRow}
    (h : (sessions.mapValues fun id row => if which id row then row.revoke (moments id) reason else row).get? id =
      some row') :
    ∃ row, sessions.get? id = some row ∧
      ((which id row = false ∧ row' = row) ∨ (which id row = true ∧ row' = row.revoke (moments id) reason)) := by
  rw [Table.get?_mapValues, Option.map_eq_some_iff] at h
  obtain ⟨row, hrow, rfl⟩ := h
  refine ⟨row, hrow, ?_⟩
  by_cases hwhich : which id row = true
  · exact .inr ⟨hwhich, if_pos hwhich⟩
  · exact .inl ⟨by simpa using hwhich, if_neg hwhich⟩

-- Its rows are the old ones but for the revocation.
theorem ages_revoke {which : String → SessionRow → Bool} {moments : String → Nat} {reason : RevokedReason} {id : String}
    {row' : SessionRow}
    (h : (sessions.mapValues fun id row => if which id row then row.revoke (moments id) reason else row).get? id =
      some row') :
    ∃ row, sessions.get? id = some row ∧ row.Ages row' ∧ row'.idleExpiresAt = row.idleExpiresAt := by
  obtain ⟨row, hrow, ⟨-, rfl⟩ | ⟨-, rfl⟩⟩ := get?_revoke h
  · exact ⟨row', hrow, .refl row', rfl⟩
  · exact ⟨row, hrow, .revoke row (moments id) reason, rfl⟩

theorem unrevoked_le_of_ages (hages : Ages sessions sessions') (userID : String) :
    (sessions'.select fun _ row => row.userID == userID && row.unrevoked).length ≤
      (sessions.select fun _ row => row.userID == userID && row.unrevoked).length := by
  refine Table.length_select_mono fun id row' hrow' hwhich => ?_
  obtain ⟨row, hrow, ha⟩ := hages id row' hrow'
  simp only [Bool.and_eq_true, beq_iff_eq] at hwhich ⊢
  exact ⟨row, hrow, ha.userID_eq ▸ hwhich.1, ha.unrevoked hwhich.2⟩

-- What a commit has to show, whatever it was.
theorem SoundSessions.commit (h : SoundSessions s) (hmono : ∀ userID, s.reading userID ≤ reading userID)
    (hrows : ∀ id row, db.sessions.get? id = some row → row.absoluteExpiresAt = row.createdAt + sessionAbsoluteLife ∧
      row.createdAt ≤ reading row.userID ∧ Used reading (⟨event, newlyRevoked s.db db⟩ :: s.log) row ∧
      (row.unrevoked = true → ¬ Ended row.name s.log ∧ (event.resets row.userID = true → ¬ Created row.name s.log)))
    (hnames : UniqueNames db.sessions)
    (hcreates : ∀ session, event.creates session = true → session.createdAt ≤ reading session.userID)
    (husers : ∀ userID user, db.users.get? userID = some user →
      SoundUser (⟨event, newlyRevoked s.db db⟩ :: s.log) userID user)
    (hfew : ∀ userID, (db.sessions.select fun _ row => row.userID == userID && row.unrevoked).length ≤ maxActiveSessions)
    (hauthorised : Authorised s.log ⟨event, newlyRevoked s.db db⟩) :
    SoundSessions ⟨db, reading, ⟨event, newlyRevoked s.db db⟩ :: s.log⟩ := by
  refine ⟨fun id row hrow => ?_, hnames, fun session hmention => ?_, husers, hfew, fun later entry earlier hlog => ?_⟩
  · obtain ⟨habsolute, hcreated, hused, hlive⟩ := hrows id row hrow
    refine ⟨habsolute, hcreated, hused, fun hunrevoked hended => ?_⟩
    obtain ⟨hnot, hreset⟩ := hlive hunrevoked
    rcases hended with hrevoked | ⟨hresets, hcreated'⟩ | hended
    · -- The row that was revoked has the same name, so it is this one.
      obtain ⟨id', row', hrow', hname, hrevoked'⟩ := mem_newlyRevoked hrevoked
      obtain rfl := hnames id' id row' row hrow' hrow hname
      obtain rfl : row' = row := Option.some.inj (hrow'.symm.trans hrow)
      rw [hunrevoked] at hrevoked'
      cases hrevoked'
    · exact hreset hresets hcreated'
    · exact hnot hended
  · obtain ⟨entry, hmem, hmention⟩ := hmention
    rcases List.mem_cons.1 hmem with rfl | hmem
    · rcases hmention with hrevoked | hcreated
      · obtain ⟨id, row, hrow, rfl, -⟩ := mem_newlyRevoked hrevoked
        exact (hrows id row hrow).2.1
      · exact hcreates session hcreated
    · exact (h.past session ⟨entry, hmem, hmention⟩).trans (hmono _)
  · cases later with
    | nil =>
        obtain ⟨rfl, rfl⟩ := List.cons.inj hlog
        exact hauthorised
    | cons newest later =>
        obtain ⟨-, hlog⟩ := List.cons.inj hlog
        exact h.log later entry earlier hlog

-- The sessions a commit does not use keep their last use.
theorem Used.cons {log : List SessionEntry} {row row' : SessionRow} {entry : SessionEntry} (h : Used s.reading log row)
    (hmono : ∀ userID, s.reading userID ≤ reading userID) (hname : row'.name = row.name)
    (hidle : row'.idleExpiresAt = row.idleExpiresAt) (huses : entry.event.uses row.name = none) :
    Used reading (entry :: log) row' := by
  obtain ⟨used, hlast, hle, hexpires⟩ := h
  have huser : row'.userID = row.userID := congrArg SessionName.userID hname
  refine ⟨used, ?_, huser ▸ hle.trans (hmono _), hidle ▸ hexpires⟩
  rw [lastUse_cons, hname, huses, hlast]
  rfl

-- A commit that creates no session and shows what it did to the ones there are.
theorem SoundSessions.commit_aged (h : SoundSessions s) (hmono : ∀ userID, s.reading userID ≤ reading userID)
    (hrows : ∀ id row', db.sessions.get? id = some row' → ∃ row, s.db.sessions.get? id = some row ∧ row.Ages row' ∧
      Used reading (⟨event, newlyRevoked s.db db⟩ :: s.log) row' ∧
      (row'.unrevoked = true → event.resets row'.userID = false))
    (hcreates : ∀ session, event.creates session = false)
    (husers : ∀ userID user, db.users.get? userID = some user →
      SoundUser (⟨event, newlyRevoked s.db db⟩ :: s.log) userID user)
    (hauthorised : Authorised s.log ⟨event, newlyRevoked s.db db⟩) :
    SoundSessions ⟨db, reading, ⟨event, newlyRevoked s.db db⟩ :: s.log⟩ := by
  have hages : Ages s.db.sessions db.sessions := by
    intro id row' hrow'
    obtain ⟨row, hrow, ha, -⟩ := hrows id row' hrow'
    exact ⟨row, hrow, ha⟩
  refine h.commit hmono (fun id row' hrow' => ?_) (h.names.ages hages) (fun session hcreated => ?_) husers
    (fun userID => (unrevoked_le_of_ages hages userID).trans (h.few userID)) hauthorised
  · obtain ⟨row, hrow, ha, hused, hresets⟩ := hrows id row' hrow'
    have hsound := h.rows id row hrow
    refine ⟨?_, ?_, hused, fun hunrevoked => ⟨?_, ?_⟩⟩
    · rw [ha.absolute, hsound.absolute, ha.createdAt_eq]
    · rw [ha.createdAt_eq, ha.userID_eq]
      exact hsound.created.trans (hmono _)
    · rw [ha.name]
      exact hsound.live (ha.unrevoked hunrevoked)
    · intro hreset
      rw [hresets hunrevoked] at hreset
      cases hreset
  · rw [hcreates session] at hcreated
    cases hcreated

theorem SoundUser.cons {log : List SessionEntry} {userID : String} {user : UserRow} {entry : SessionEntry}
    (h : SoundUser log userID user) (hresets : entry.event.resets userID = false)
    (hstores : entry.event.stores userID = none) : SoundUser (entry :: log) userID user := by
  refine ⟨fun reset hmem old new hreset => ?_, fun stored hstored => ?_⟩
  · rcases List.mem_cons.1 hmem with rfl | hmem
    · simp [hreset, SessionEvent.resets] at hresets
    · exact h.revision reset hmem old new hreset
  · rw [lastStored_cons, hstores] at hstored
    exact h.verifier stored hstored

theorem Sessions.reading_le_update {userID : String} {reading : Nat} (h : s.reading userID ≤ reading) (other : String) :
    s.reading other ≤ Function.update s.reading userID reading other := by
  by_cases hother : other = userID
  · rw [hother, Function.update_self]
    exact h
  · rw [Function.update_of_ne hother]

theorem Sessions.Ticks.mono {userID : String} {clock : Clock} (h : s.Ticks userID clock) (n : Nat) (other : String) :
    s.reading other ≤ Function.update s.reading userID (clock n) other :=
  s.reading_le_update (h.2.le.trans (h.1.monotone (Nat.zero_le n))) other

theorem Sessions.TicksEach.mono {userID : String} {moments : String → Nat} {ended : Nat}
    (h : s.TicksEach userID moments ended) (other : String) :
    s.reading other ≤ Function.update s.reading userID ended other :=
  s.reading_le_update h.1.le other

theorem SoundSessions.validate (h : SoundSessions s) {clock : Clock} {principal : Principal} {row row' : SessionRow}
    (hclock : s.Ticks principal.userID clock) (hvalid : Validates clock s.db principal row row' db) :
    SoundSessions (s.record db principal.userID (clock 4) (.validated row.name (clock 0) (clock 4))) := by
  have hsound := h.rows _ _ hvalid.found
  obtain ⟨used, hlast, hle, hexpires⟩ := hsound.used
  rw [hvalid.owner] at hle
  have hfour : clock 0 ≤ clock 4 := hclock.1.monotone (Nat.zero_le 4)
  have hzero := hclock.2
  have hone : clock 0 ≤ clock 1 := hclock.1.monotone (Nat.zero_le 1)
  have hidle := hvalid.idle
  have habsolute := hvalid.absolute
  rw [hsound.absolute] at habsolute
  refine h.commit_aged (hclock.mono 4) (fun id next hnext => ?_) (fun _ => rfl) (fun userID user huser => ?_) ?_
  · rw [hvalid.sessions] at hnext
    by_cases hid : id = principal.sessionID
    · -- The session itself: the validation is its last use.
      rw [if_pos hid] at hnext
      cases hnext
      have ha : row.Ages row' := by
        rcases hvalid.touched with rfl | rfl
        · exact .refl row'
        · exact ⟨rfl, rfl, fun hunrevoked => hunrevoked⟩
      refine ⟨row, hid ▸ hvalid.found, ha, ⟨clock 4, ?_, ?_, ?_⟩, fun _ => rfl⟩
      · rw [lastUse_cons, ha.name]
        simp [SessionEvent.uses]
      · rw [ha.userID_eq, hvalid.owner, Function.update_self]
      · rcases hvalid.touched with rfl | rfl
        · omega
        · exact min_le_right _ _
    · rw [if_neg hid] at hnext
      have hne : row.name ≠ next.name := fun hname => hid (h.names _ _ _ _ hnext hvalid.found hname.symm)
      refine ⟨next, hnext, .refl next, ?_, fun _ => rfl⟩
      exact (h.rows id next hnext).used.cons (hclock.mono 4) rfl rfl (if_neg hne)
  · rw [hvalid.users] at huser
    exact (h.users userID user huser).cons rfl rfl
  · refine ⟨⟨used, hlast, by omega⟩, ?_, hsound.live hvalid.unrevoked⟩
    show clock 0 < row.createdAt + sessionAbsoluteLife
    omega

theorem SoundSessions.logout (h : SoundSessions s) {clock : Clock} {userID : String} {digest : Digest}
    (hclock : s.Ticks userID clock) (husers : db.users = s.db.users)
    (hsessions : db.sessions = s.db.sessions.mapValues fun _ row =>
      if row.tokenDigest == digest then row.revoke (clock 0) .logout else row) :
    SoundSessions (s.record db userID (clock 0) .loggedOut) := by
  refine h.commit_aged (hclock.mono 0) (fun id row' hrow' => ?_) (fun _ => rfl) (fun other user huser => ?_) trivial
  · rw [hsessions] at hrow'
    obtain ⟨row, hrow, ha, hidle⟩ := ages_revoke hrow'
    exact ⟨row, hrow, ha, (h.rows id row hrow).used.cons (hclock.mono 0) ha.name hidle rfl, fun _ => rfl⟩
  · rw [husers] at huser
    exact (h.users other user huser).cons rfl rfl

theorem SoundSessions.cleanup (h : SoundSessions s) {which : String → SessionRow → Bool} :
    SoundSessions ⟨{ s.db with sessions := s.db.sessions.keep which }, s.reading,
      ⟨.cleaned, newlyRevoked s.db { s.db with sessions := s.db.sessions.keep which }⟩ :: s.log⟩ := by
  refine h.commit_aged (fun _ => le_rfl) (fun id row hrow => ?_) (fun _ => rfl) (fun userID user huser => ?_) trivial
  · simp only [Table.get?_keep, Option.filter_eq_some_iff] at hrow
    exact ⟨row, hrow.1, .refl row, (h.rows id row hrow.1).used.cons (fun _ => le_rfl) rfl rfl rfl, fun _ => rfl⟩
  · exact (h.users userID user huser).cons rfl rfl

theorem SoundSessions.reset (h : SoundSessions s) {moments : String → Nat} {ended : Nat} {userID : String}
    {verifier : PasswordVerifier} {digests : List Digest} {user : UserRow} (hclock : s.TicksEach userID moments ended)
    (hresets : Resets moments s.db userID verifier digests user db) :
    SoundSessions (s.record db userID ended (.reset userID user.authRevision verifier)) := by
  refine h.commit_aged hclock.mono (fun id row' hrow' => ?_) (fun _ => rfl) (fun other found hfound => ?_) trivial
  · rw [hresets.sessions] at hrow'
    obtain ⟨row, hrow, ha, hidle⟩ := ages_revoke hrow'
    refine ⟨row, hrow, ha, (h.rows id row hrow).used.cons hclock.mono ha.name hidle rfl, fun hunrevoked => ?_⟩
    -- No session of the user is left unrevoked.
    obtain ⟨row₀, -, ⟨hwhich, rfl⟩ | ⟨-, rfl⟩⟩ := get?_revoke hrow'
    · simp only [hunrevoked, Bool.and_true, beq_eq_false_iff_ne] at hwhich
      exact decide_eq_false (Ne.symm hwhich)
    · simp [SessionRow.unrevoked, SessionRow.revoke] at hunrevoked
  · rw [hresets.users, Table.get?_put] at hfound
    by_cases hother : other = userID
    · rw [if_pos hother] at hfound
      cases hfound
      subst hother
      have hsound := h.users _ _ hresets.row
      refine ⟨fun reset hmem old new hreset => ?_, fun stored hstored => ?_⟩
      · rcases List.mem_cons.1 hmem with rfl | hmem
        · cases hreset
          exact Nat.lt_succ_self _
        · exact (hsound.revision reset hmem old new hreset).trans (Nat.lt_succ_self _)
      · rw [lastStored_cons] at hstored
        simpa [SessionEvent.stores] using hstored
    · rw [if_neg hother] at hfound
      refine (h.users other found hfound).cons (decide_eq_false (Ne.symm hother)) ?_
      exact if_neg (Ne.symm hother)

end

-- The limit: the sessions of a user from the newest on, of which all but ten are revoked.

theorem createdAfter_total (x y : String × SessionRow) : createdAfter x y ∨ createdAfter y x := by
  unfold createdAfter
  rcases lt_trichotomy x.2.createdAt y.2.createdAt with h | h | h
  · exact .inr (.inl h)
  · rcases le_total x.1.toList y.1.toList with hid | hid
    · exact .inr (.inr ⟨h.symm, hid⟩)
    · exact .inl (.inr ⟨h, hid⟩)
  · exact .inl (.inl h)

theorem createdAfter_trans {x y z : String × SessionRow} (hxy : createdAfter x y) (hyz : createdAfter y z) :
    createdAfter x z := by
  unfold createdAfter at *
  rcases hxy with hxy | ⟨hxy, hid⟩
  · rcases hyz with hyz | ⟨hyz, -⟩
    · exact .inl (hyz.trans hxy)
    · exact .inl (hyz ▸ hxy)
  · rcases hyz with hyz | ⟨hyz, hid'⟩
    · exact .inl (hxy ▸ hyz)
    · exact .inr ⟨hxy.trans hyz, le_trans hid' hid⟩

instance : Std.Total createdAfter := ⟨createdAfter_total⟩

instance : IsTrans (String × SessionRow) createdAfter := ⟨fun _ _ _ => createdAfter_trans⟩

section

variable {s : Sessions} {db : DB} {clock : Clock} {input : CompleteLoginInput} {user : UserRow} {session : SessionRow}

theorem excessiveSessions_subset {db : DB} {userID id : String} {row : SessionRow}
    (h : (id, row) ∈ excessiveSessions db userID) : db.sessions.get? id = some row ∧ row.userID = userID := by
  have hmem := (List.mem_insertionSort createdAfter).1 (List.mem_of_mem_drop h)
  obtain ⟨hrow, hwhich⟩ := (Table.mem_select _ _ _ _).1 hmem
  simp only [Bool.and_eq_true, beq_iff_eq] at hwhich
  exact ⟨hrow, hwhich.1⟩

-- The session that is newer than every other one of its user is not among those beyond the ten newest.
theorem newest_not_excessive {db : DB} {userID id : String} {row : SessionRow}
    (hnewest : ∀ other row', db.sessions.get? other = some row' → row'.userID = userID → other ≠ id →
      row'.createdAt < row.createdAt) : (id, row) ∉ excessiveSessions db userID := by
  intro hmem
  unfold excessiveSessions at hmem
  generalize hsorted : (db.sessions.select fun _ row => row.userID == userID && row.unrevoked).insertionSort createdAfter =
    sorted at hmem
  have hpairwise : sorted.Pairwise createdAfter := hsorted ▸ List.pairwise_insertionSort createdAfter _
  have hkeys : (sorted.map Prod.fst).Nodup := by
    rw [← hsorted]
    exact ((List.perm_insertionSort createdAfter _).map Prod.fst).nodup_iff.2 (Table.nodup_keys_select _ _)
  cases sorted with
  | nil => simp at hmem
  | cons first rest =>
      have hrest : (id, row) ∈ rest := List.mem_of_mem_drop (i := 9) hmem
      have hfirst : first ∈ (db.sessions.select fun _ row => row.userID == userID && row.unrevoked) := by
        refine (List.mem_insertionSort createdAfter).1 ?_
        rw [hsorted]
        exact List.mem_cons_self
      obtain ⟨hrow, hwhich⟩ := (Table.mem_select _ _ _ _).1 hfirst
      simp only [Bool.and_eq_true, beq_iff_eq] at hwhich
      have hne : first.1 ≠ id := by
        intro heq
        exact (List.nodup_cons.1 hkeys).1 (heq ▸ List.mem_map.2 ⟨(id, row), hrest, rfl⟩)
      have hlt := hnewest first.1 first.2 hrow hwhich.1 hne
      rcases (List.pairwise_cons.1 hpairwise).1 (id, row) hrest with hafter | ⟨hequal, -⟩
      · exact absurd hafter (Nat.not_lt.2 hlt.le)
      · exact absurd hequal hlt.ne

-- All but the excessive ones of a user's unrevoked sessions are at most ten.
theorem unrevoked_le_of_limited (db : DB) {userID : String} {sessions : Table String SessionRow}
    (h : ∀ id row', sessions.get? id = some row' → row'.userID = userID → row'.unrevoked = true →
      ∃ row, db.sessions.get? id = some row ∧ row.userID = userID ∧ row.unrevoked = true ∧
        id ∉ (excessiveSessions db userID).map Prod.fst) :
    (sessions.select fun _ row => row.userID == userID && row.unrevoked).length ≤ maxActiveSessions := by
  let sorted := (db.sessions.select fun _ row => row.userID == userID && row.unrevoked).insertionSort createdAfter
  have hle : (sessions.select fun _ row => row.userID == userID && row.unrevoked).length ≤
      ((sorted.take maxActiveSessions).map Prod.fst).length := by
    refine Table.length_select_le fun id row' hrow' hwhich => ?_
    simp only [Bool.and_eq_true, beq_iff_eq] at hwhich
    obtain ⟨row, hrow, huser, hunrevoked, hnot⟩ := h id row' hrow' hwhich.1 hwhich.2
    have hsorted : (id, row) ∈ sorted := by
      refine (List.mem_insertionSort createdAfter).2 ((Table.mem_select _ _ _ _).2 ⟨hrow, ?_⟩)
      simp [huser, hunrevoked]
    rw [← List.take_append_drop maxActiveSessions sorted] at hsorted
    rcases List.mem_append.1 hsorted with htake | hdrop
    · exact List.mem_map.2 ⟨(id, row), htake, rfl⟩
    · exact absurd (List.mem_map.2 ⟨(id, row), hdrop, rfl⟩) hnot
  rw [List.length_map] at hle
  exact hle.trans (List.length_take_le _ _)

-- The rows a login leaves: its own, and the old ones; those it revokes are among the excessive ones.
theorem LogsIn.row_cases (hin : LogsIn clock s.db input user session db) {id : String} {row' : SessionRow}
    (hrow' : db.sessions.get? id = some row') :
    ∃ row, ((id = input.sessionID ∧ row = session) ∨ (id ≠ input.sessionID ∧ s.db.sessions.get? id = some row)) ∧
      row.Ages row' ∧ row'.idleExpiresAt = row.idleExpiresAt ∧
      ((id ∉ limitedBy s.db input session ∧ row' = row) ∨ (id ∈ limitedBy s.db input session ∧ row'.unrevoked = false)) := by
  rw [hin.sessions] at hrow'
  obtain ⟨row, hrow, ha, hidle⟩ := ages_revoke hrow'
  obtain ⟨row₀, hrow₀, hlimit⟩ := get?_revoke hrow'
  obtain rfl : row₀ = row := Option.some.inj (hrow₀.symm.trans hrow)
  refine ⟨row₀, ?_, ha, hidle, ?_⟩
  · rw [Table.get?_put] at hrow
    split at hrow
    · rename_i hid
      exact .inl ⟨hid, (Option.some.inj hrow).symm⟩
    · rename_i hid
      exact .inr ⟨hid, hrow⟩
  · rcases hlimit with ⟨hnot, rfl⟩ | ⟨hlimited, rfl⟩
    · exact .inl ⟨by simpa using hnot, rfl⟩
    · exact .inr ⟨by simpa using hlimited, rfl⟩

-- A login reads the clock after everything that is stored of its user.
theorem SoundSessions.older (h : SoundSessions s) (hclock : s.Ticks input.user.id clock)
    (hin : LogsIn clock s.db input user session db) {id : String} {row : SessionRow}
    (hrow : s.db.sessions.get? id = some row) (huser : row.userID = input.user.id) : row.createdAt < session.createdAt := by
  obtain ⟨digest, -, rfl⟩ := hin.session_eq
  have hcreated := (h.rows id row hrow).created
  rw [huser] at hcreated
  exact lt_of_le_of_lt hcreated hclock.2

theorem SoundSessions.name_ne (h : SoundSessions s) (hclock : s.Ticks input.user.id clock)
    (hin : LogsIn clock s.db input user session db) {id : String} {row : SessionRow}
    (hrow : s.db.sessions.get? id = some row) : session.name ≠ row.name := by
  intro hname
  have huser : row.userID = input.user.id := by
    obtain ⟨digest, -, rfl⟩ := hin.session_eq
    exact (congrArg SessionName.userID hname).symm
  exact (h.older hclock hin hrow huser).ne (congrArg SessionName.createdAt hname).symm

theorem SoundSessions.login_names (h : SoundSessions s) (hclock : s.Ticks input.user.id clock)
    (hin : LogsIn clock s.db input user session db) : UniqueNames db.sessions := by
  intro id id' row row' hrow hrow' hname
  obtain ⟨old, hold, ha, -⟩ := hin.row_cases hrow
  obtain ⟨old', hold', ha', -⟩ := hin.row_cases hrow'
  have hold_name : old.name = old'.name := by rw [← ha.name, ← ha'.name, hname]
  rcases hold with ⟨hid, rfl⟩ | ⟨-, hold⟩
  · rcases hold' with ⟨hid', -⟩ | ⟨-, hold'⟩
    · rw [hid, hid']
    · exact absurd hold_name (h.name_ne hclock hin hold')
  · rcases hold' with ⟨-, rfl⟩ | ⟨-, hold'⟩
    · exact absurd hold_name.symm (h.name_ne hclock hin hold)
    · exact h.names id id' old old' hold hold' hold_name

-- The session a login creates is not among those it revokes.
theorem SoundSessions.login_keeps (h : SoundSessions s) (hclock : s.Ticks input.user.id clock)
    (hin : LogsIn clock s.db input user session db) : input.sessionID ∉ limitedBy s.db input session := by
  intro hmem
  obtain ⟨⟨id, row⟩, hexcessive, hid⟩ := List.mem_map.1 hmem
  obtain rfl : id = input.sessionID := hid
  obtain ⟨hrow, -⟩ := excessiveSessions_subset hexcessive
  simp only [Table.get?_put_self, Option.some.injEq] at hrow
  subst hrow
  refine newest_not_excessive (fun other row' hrow' huser hne => ?_) hexcessive
  simp only [Table.get?_put, if_neg hne] at hrow'
  exact h.older hclock hin hrow' huser

theorem SoundSessions.login_few (h : SoundSessions s) (hin : LogsIn clock s.db input user session db) (userID : String) :
    (db.sessions.select fun _ row => row.userID == userID && row.unrevoked).length ≤ maxActiveSessions := by
  by_cases huserID : userID = input.user.id
  · subst huserID
    refine unrevoked_le_of_limited { s.db with sessions := s.db.sessions.put input.sessionID session }
      fun id row' hrow' huser hunrevoked => ?_
    obtain ⟨row, hrow, -, -, ⟨hnot, rfl⟩ | ⟨-, hrevoked⟩⟩ := hin.row_cases hrow'
    · refine ⟨row', ?_, huser, hunrevoked, hnot⟩
      rw [Table.get?_put]
      rcases hrow with ⟨hid, rfl⟩ | ⟨hid, hrow⟩
      · exact if_pos hid
      · exact (if_neg hid).trans hrow
    · rw [hunrevoked] at hrevoked
      cases hrevoked
  · refine le_trans (Table.length_select_mono fun id row' hrow' hwhich => ?_) (h.few userID)
    simp only [Bool.and_eq_true, beq_iff_eq] at hwhich ⊢
    obtain ⟨row, hrow, ha, -⟩ := hin.row_cases hrow'
    rcases hrow with ⟨-, rfl⟩ | ⟨-, hrow⟩
    · obtain ⟨digest, -, rfl⟩ := hin.session_eq
      exact absurd (hwhich.1.symm.trans ha.userID_eq) huserID
    · exact ⟨row, hrow, ha.userID_eq ▸ hwhich.1, ha.unrevoked hwhich.2⟩

-- What a login newly revokes was excessive.
theorem LogsIn.newlyRevoked_le (hin : LogsIn clock s.db input user session db) : (newlyRevoked s.db db).length ≤ 1 := by
  unfold newlyRevoked
  rw [List.length_map]
  refine le_trans (Table.length_select_le fun id row' hrow' hwhich => ?_) hin.few
  simp only [Bool.and_eq_true, Bool.not_eq_true'] at hwhich
  obtain ⟨row, hrow, -, -, ⟨-, rfl⟩ | ⟨hlimited, -⟩⟩ := hin.row_cases hrow'
  · have hunrevoked : row'.unrevoked = true := by
      rcases hrow with ⟨-, rfl⟩ | ⟨-, hrow⟩
      · obtain ⟨digest, -, rfl⟩ := hin.session_eq
        rfl
      · simpa [hrow] using hwhich.2
    rw [hunrevoked] at hwhich
    cases hwhich.1
  · exact hlimited

theorem SoundSessions.login_spares (h : SoundSessions s) (hclock : s.Ticks input.user.id clock)
    (hin : LogsIn clock s.db input user session db) : session.name ∉ newlyRevoked s.db db := by
  intro hrevoked
  obtain ⟨id, row', hrow', hname, hnot⟩ := mem_newlyRevoked hrevoked
  obtain ⟨row, hrow, ha, -, hlimit⟩ := hin.row_cases hrow'
  rcases hrow with ⟨rfl, rfl⟩ | ⟨-, hrow⟩
  · rcases hlimit with ⟨-, rfl⟩ | ⟨hlimited, -⟩
    · obtain ⟨digest, -, rfl⟩ := hin.session_eq
      cases hnot
    · exact h.login_keeps hclock hin hlimited
  · exact h.name_ne hclock hin hrow (hname.symm.trans ha.name)

-- The user of a login keeps the revision, and the verifier is the one stored last.
theorem SoundSessions.login_users (h : SoundSessions s) (hin : LogsIn clock s.db input user session db)
    {revoked : List SessionName} {userID : String} {found : UserRow} (hfound : db.users.get? userID = some found) :
    SoundUser (⟨.loggedIn session.name input.user.authRevision input.user.verifier input.replacement, revoked⟩ :: s.log)
      userID found := by
  have hsession : session.name.userID = input.user.id := by
    obtain ⟨digest, -, rfl⟩ := hin.session_eq
    rfl
  rw [hin.users] at hfound
  unfold rehashedUsers at hfound
  cases hreplacement : input.replacement with
  | none =>
      rw [hreplacement] at hfound
      refine (h.users userID found hfound).cons rfl ?_
      simp only [SessionEvent.stores, ite_self]
  | some verifier =>
      rw [hreplacement] at hfound
      simp only [Table.get?_put] at hfound
      by_cases huserID : userID = input.user.id
      · rw [if_pos huserID] at hfound
        cases hfound
        subst huserID
        refine ⟨fun reset hmem old new hreset => ?_, fun stored hstored => ?_⟩
        · rcases List.mem_cons.1 hmem with rfl | hmem
          · cases hreset
          · exact (h.users _ _ hin.row).revision reset hmem old new hreset
        · rw [lastStored_cons] at hstored
          simpa [SessionEvent.stores, hsession] using hstored
      · rw [if_neg huserID] at hfound
        refine (h.users userID found hfound).cons rfl (if_neg ?_)
        rw [hsession]
        exact Ne.symm huserID

theorem SoundSessions.login (h : SoundSessions s) (hclock : s.Ticks input.user.id clock)
    (hin : LogsIn clock s.db input user session db) :
    SoundSessions (s.record db input.user.id (clock 1)
      (.loggedIn session.name input.user.authRevision input.user.verifier input.replacement)) := by
  have hone : clock 0 ≤ clock 1 := hclock.1.monotone (Nat.zero_le 1)
  obtain ⟨digest, -, hsession⟩ := hin.session_eq
  have hcreated : session.createdAt = clock 0 := by rw [hsession]; rfl
  have huser : session.userID = input.user.id := by rw [hsession]; rfl
  have hnames := h.login_names hclock hin
  refine h.commit (hclock.mono 1) (fun id row' hrow' => ?_) hnames (fun other hother => ?_) (fun userID found hfound => ?_)
    (h.login_few hin) ?_
  · obtain ⟨row, hrow, ha, hidle, -⟩ := hin.row_cases hrow'
    rw [ha.absolute, ha.createdAt_eq, ha.userID_eq, ha.name]
    rcases hrow with ⟨-, rfl⟩ | ⟨-, hrow⟩
    · refine ⟨by rw [hsession]; rfl, ?_, ⟨clock 0, ?_, ?_, ?_⟩, fun _ => ⟨fun hended => ?_, fun hreset => ?_⟩⟩
      · rw [hcreated, huser, Function.update_self]
        exact hone
      · rw [lastUse_cons, ha.name]
        simp only [SessionEvent.uses, if_true, Option.some_or]
        exact congrArg some hcreated
      · rw [ha.userID_eq, huser, Function.update_self]
        exact hone
      · rw [hidle, hsession]
        exact le_rfl
      · have hle := h.past _ hended.mentioned
        have hlt := hclock.2
        simp only [SessionRow.name, hcreated, huser] at hle
        omega
      · cases hreset
    · have hsound := h.rows id row hrow
      refine ⟨hsound.absolute, hsound.created.trans (hclock.mono 1 _), ?_, fun hunrevoked => ⟨?_, fun hreset => ?_⟩⟩
      · exact hsound.used.cons (hclock.mono 1) ha.name hidle (if_neg (h.name_ne hclock hin hrow))
      · exact hsound.live (ha.unrevoked hunrevoked)
      · cases hreset
  · obtain rfl : session.name = other := of_decide_eq_true hother
    show session.createdAt ≤ Function.update s.reading input.user.id (clock 1) session.userID
    rw [hcreated, huser, Function.update_self]
    exact hone
  · exact h.login_users hin hfound
  · have hsound := h.users _ _ hin.row
    refine ⟨hin.newlyRevoked_le, h.login_spares hclock hin, fun reset hmem old new hreset => ?_, fun stored hstored => ?_⟩
    · rw [← hin.revision]
      exact hsound.revision reset hmem old new (huser ▸ hreset)
    · rw [← hin.verifier]
      exact hsound.verifier stored (huser ▸ hstored)

theorem SoundSessions.commits (h : SoundSessions s) {s' : Sessions} (hnext : s.Commits s') : SoundSessions s' := by
  cases hnext with
  | login hclock hlogin =>
      obtain ⟨user, hin⟩ := completeLogin_cases hlogin
      exact h.login hclock hin
  | validate hclock hvalidate hrow =>
      obtain ⟨row, row', hvalid⟩ := validateSession_cases hvalidate
      obtain rfl := Option.some.inj (hrow.symm.trans hvalid.found)
      exact h.validate hclock hvalid
  | logout hclock hrevoke =>
      obtain ⟨digest, husers, hsessions⟩ := revokeSession_cases hrevoke
      exact h.logout hclock husers hsessions
  | reset hclock hreset hrow =>
      obtain ⟨user, hresets⟩ := resetPassword_cases hreset
      obtain rfl := Option.some.inj (hrow.symm.trans hresets.row)
      exact h.reset hclock hresets
  | cleanup hcleanup =>
      obtain ⟨which, rfl⟩ := cleanupSessions_cases hcleanup
      exact h.cleanup

theorem soundSessions_of_reachable (h : sessionRuns.Reachable s) : SoundSessions s := by
  refine h.invariant (fun start hstart => ?_) fun before after hbefore hnext => hbefore.commits hnext
  obtain ⟨hnone, hlog⟩ := hstart
  refine ⟨fun id row hrow => ?_, fun id id' row row' hrow => ?_, fun session hmention => ?_, fun userID user huser => ?_,
    fun userID => ?_, fun later entry earlier hsplit => ?_⟩
  · simp [hnone] at hrow
  · simp [hnone] at hrow
  · simp [hlog, Mentioned] at hmention
  · exact ⟨by simp [hlog], by simp [hlog, lastStored]⟩
  · have hempty : (start.unrevoked userID).length ≤ ([] : List String).length :=
      Table.length_select_le fun id row hrow _ => by simp [hnone] at hrow
    exact hempty.trans (Nat.zero_le _)
  · simp [hlog] at hsplit

-- In every run each user has at most ten unrevoked sessions, and every transaction that committed was entitled to by the
-- ones before it.
theorem sessions_bounded_and_revocable (h : sessionRuns.Reachable s) :
    (∀ userID, (s.unrevoked userID).length ≤ 10) ∧
      ∀ later entry earlier, s.log = later ++ entry :: earlier → Authorised earlier entry :=
  ⟨(soundSessions_of_reachable h).few, (soundSessions_of_reachable h).log⟩

end

namespace Sessions

def login (clock : Clock) (input : CompleteLoginInput) (s : Sessions) : Sessions :=
  match completeLogin clock s.db input with
  | .ok (session, db) => s.record db input.user.id (clock 1)
      (.loggedIn session.name input.user.authRevision input.user.verifier input.replacement)
  | .error _ => s

def reset (moment : Nat) (userID : String) (verifier : PasswordVerifier) (auditID : String) (s : Sessions) : Sessions :=
  match resetPassword (fun _ => moment) s.db userID verifier auditID [], s.db.users.get? userID with
  | .ok db, some user => s.record db userID moment (.reset userID user.authRevision verifier)
  | _, _ => s

end Sessions

def adminVerifier : PasswordVerifier where
  phc := Bytes.ofString ("$argon2id$v=19$m=19456,t=2,p=1$BwcHBwcHBwcHBwcHBwcHBw$" ++
    "CQkJCQkJCQkJCQkJCQkJCQkJCQkJCQkJCQkJCQkJCQk")
  policyRevision := 1

def adminInput : CompleteLoginInput where
  sessionID := "session"
  auditID := "audit-1"
  sessionLimitAuditID := "audit-2"
  token := Bytes.ofString "v1.AAECAwQFBgcICQoLDA0ODxAREhMUFRYXGBkaGxwdHh8"
  user := ⟨"user", "owner", adminVerifier, 1, true⟩
  replacement := none
  throttleIdentities :=
    let digest (b : UInt8) : Digest := ⟨List.replicate 32 b, length_constant b⟩
    [⟨.pair, "k1", digest 1, [], "user"⟩, ⟨.username, "k1", digest 2, [], ""⟩, ⟨.ip, "k1", digest 3, [], ""⟩]

def bootstrapped : Sessions where
  db := ⟨none, .empty, .empty, some ⟨1, 19456, 2, 1⟩, Table.empty.put "user" ⟨"owner", adminVerifier, 1, .active⟩, .empty,
    .empty⟩
  reading _ := 0
  log := []

-- A login and then a reset of the same user.
def adminRun : Sessions :=
  (bootstrapped.login (fun n => minutes 60 + n) adminInput).reset (minutes 70) "user" adminVerifier "audit-3"

theorem adminRun_reachable : sessionRuns.Reachable adminRun := by
  have hmono : ∀ moment : Nat, StrictMono fun n => moment + n := fun moment => strictMono_id.const_add moment
  have hstart : sessionRuns.Reachable bootstrapped := .of_initial ⟨fun _ => rfl, rfl⟩
  have hlogin : sessionRuns.Reachable (bootstrapped.login (fun n => minutes 60 + n) adminInput) := by
    unfold Sessions.login
    split
    · rename_i session db h
      exact hstart.step (.login ⟨hmono _, by decide⟩ h)
    · exact hstart
  have hreading : (bootstrapped.login (fun n => minutes 60 + n) adminInput).reading "user" < minutes 70 := by
    decide +kernel
  unfold adminRun Sessions.reset
  split
  · rename_i db user h huser
    exact hlogin.step (.reset ⟨hreading, fun _ => ⟨hreading, le_refl _⟩⟩ h huser)
  · exact hlogin

theorem sessions_bounded_and_revocable_adminRun :
    (adminRun.log.map fun entry => (entry.event.resets "user", entry.revoked)) =
        [(true, [⟨"user", minutes 60⟩]), (false, [])] ∧
      (∀ userID, (adminRun.unrevoked userID).length ≤ 10) ∧
        ∀ later entry earlier, adminRun.log = later ++ entry :: earlier → Authorised earlier entry :=
  ⟨by decide +kernel, sessions_bounded_and_revocable adminRun_reachable⟩

end AutoDeploy.Auth
