import AutoDeploy.Enrollment.Servers

namespace AutoDeploy.Enrollment

open Lib Lib.Result Store Fleet

-- What a committed transaction did: the digest and the end of a token it issued, the digests an enrollment carried and
-- the moment it read, the digest a rotation brought in or the one that was accepted.
inductive FleetEvent where
  | registered (serverID : String) (token : Digest) (expiresAt : Nat)
  | issued (serverID : String) (token : Digest) (expiresAt : Nat)
  | enrolled (serverID : String) (token credential : Digest) (moment : Nat)
  | rotated (serverID : String) (credential : Digest)
  | revoked (serverID : String)
  | authenticated (serverID : String) (credential : Digest)
  | heartbeat (serverID : String) (credential : Digest)

namespace FleetEvent

def issues (serverID : String) : FleetEvent → Option (Digest × Nat)
  | .registered id token expiresAt => if id = serverID then some (token, expiresAt) else none
  | .issued id token expiresAt => if id = serverID then some (token, expiresAt) else none
  | _ => none

def enrolls (serverID : String) : FleetEvent → Bool
  | .enrolled id _ _ _ => decide (id = serverID)
  | _ => false

-- The new credential digest the event brought in.
def presents (serverID : String) : FleetEvent → Option Digest
  | .enrolled id _ credential _ => if id = serverID then some credential else none
  | .rotated id credential => if id = serverID then some credential else none
  | _ => none

end FleetEvent

-- The logs have the newest event first.

def lastIssued (serverID : String) (log : List FleetEvent) : Option (Digest × Nat) :=
  log.findSome? (FleetEvent.issues serverID)

def lastPresented (serverID : String) (log : List FleetEvent) : Option Digest :=
  log.findSome? (FleetEvent.presents serverID)

def Enrolled (serverID : String) (log : List FleetEvent) : Prop := ∃ event ∈ log, event.enrolls serverID = true

def Revoked (serverID : String) (log : List FleetEvent) : Prop := .revoked serverID ∈ log

-- What is promised of a transaction that committed after the given ones.
def Warranted (earlier : List FleetEvent) : FleetEvent → Prop
  | .registered serverID _ _ => ¬ Enrolled serverID earlier ∧ ¬ Revoked serverID earlier
  | .issued serverID _ _ => ¬ Enrolled serverID earlier ∧ ¬ Revoked serverID earlier
  | .enrolled serverID token _ moment => ¬ Enrolled serverID earlier ∧ ¬ Revoked serverID earlier ∧
      ∃ expiresAt, lastIssued serverID earlier = some (token, expiresAt) ∧ moment < expiresAt
  | .rotated serverID _ => ¬ Revoked serverID earlier
  | .revoked serverID => ¬ Revoked serverID earlier
  | .authenticated serverID credential => ¬ Revoked serverID earlier ∧ lastPresented serverID earlier = some credential
  | .heartbeat serverID credential => ¬ Revoked serverID earlier ∧ lastPresented serverID earlier = some credential

structure Servers where
  db : Fleet
  log : List FleetEvent

namespace Servers

-- The committed transactions; a failed one is rolled back. Each of them locks the row of its server before it reads a
-- token or a credential of it, or inserts that row, so those of one server take place one after the other. The rest of
-- the product writes neither servers nor credentials nor tokens.
inductive Commits (s : Servers) : Servers → Prop
  | register {now expiresAt : Nat} {p : Principal} {input : RegisterServerInput} {db : Fleet}
      (h : registerServer now s.db p input = .ok (db, expiresAt)) :
      Commits s ⟨db, .registered input.serverID input.enrollmentDigest expiresAt :: s.log⟩
  | issue {now expiresAt ttlSeconds : Nat} {p : Principal} {serverID : String} {digest : Digest} {db : Fleet}
      (h : issueEnrollment now s.db p serverID digest ttlSeconds = .ok (db, expiresAt)) :
      Commits s ⟨db, .issued serverID digest expiresAt :: s.log⟩
  | enroll {now version : Nat} {serverID : String} {token credential : Digest} {db : Fleet}
      (h : enroll now s.db serverID token credential = .ok (db, version)) :
      Commits s ⟨db, .enrolled serverID token credential now :: s.log⟩
  | rotate {now version : Nat} {p : Principal} {serverID : String} {digest : Digest} {db : Fleet}
      (h : rotateCredential now s.db p serverID digest = .ok (db, version)) :
      Commits s ⟨db, .rotated serverID digest :: s.log⟩
  | revoke {now : Nat} {draws : Nat → Nat} {p : Principal} {serverID reason : String} {db : Fleet}
      (h : Fleet.revokeServer now draws s.db p serverID reason = .ok db) :
      Commits s ⟨db, .revoked serverID :: s.log⟩
  | authenticate {serverID : String} {digest : Digest} {result : AuthenticatedServer}
      (h : authenticate s.db serverID digest = .ok result) :
      Commits s ⟨s.db, .authenticated serverID digest :: s.log⟩
  | heartbeat {now : Nat} {serverID : String} {digest : Digest} {db : Fleet}
      (h : Fleet.heartbeat now s.db serverID digest = .ok db) :
      Commits s ⟨db, .heartbeat serverID digest :: s.log⟩
  | elsewhere {store : Store.DB} (hservers : store.servers = s.db.store.servers)
      (hcredentials : store.credentials = s.db.store.credentials) :
      Commits s ⟨{ s.db with store }, s.log⟩

end Servers

-- The credentials of one server with their versions, by row.
def Fleet.credentialsOf (db : Fleet) (serverID : String) (id : Nat) : Option (Nat × Credential) :=
  ((db.store.credentials.get? id).filter fun c => c.serverID == serverID).map fun c => (db.version id, c)

def serverRuns : System Servers where
  initial s := (∀ id, s.db.store.servers.get? id = none) ∧ (∀ id, s.db.store.credentials.get? id = none) ∧
    (∀ id, s.db.tokens.get? id = none) ∧ s.log = []
  next s s' := s.Commits s'

-- The credentials of a server are one line: versions 1 to n, each once, and only the last may be active.
structure Line (credentials : Nat → Option Credential) (version : Nat → Nat) (serverID : String) (n : Nat) : Prop where
  versions : ∀ v, (∃ id c, credentials id = some c ∧ c.serverID = serverID ∧ version id = v) ↔ 1 ≤ v ∧ v ≤ n
  distinct : ∀ id id' c c', credentials id = some c → credentials id' = some c' → c.serverID = serverID →
    c'.serverID = serverID → version id = version id' → id = id'
  active : ∀ id c, credentials id = some c → c.serverID = serverID → c.status = .active → version id = n

namespace Line

variable {credentials : Nat → Option Credential} {version : Nat → Nat} {serverID : String} {n id : Nat} {c c' : Credential}

theorem one_active (h : Line credentials version serverID n) {id' : Nat} (hrow : credentials id = some c)
    (hrow' : credentials id' = some c') (hserver : c.serverID = serverID) (hserver' : c'.serverID = serverID)
    (hactive : c.status = .active) (hactive' : c'.status = .active) : id = id' := by
  refine h.distinct id id' c c' hrow hrow' hserver hserver' ?_
  rw [h.active id c hrow hserver hactive, h.active id' c' hrow' hserver' hactive']

-- A row that keeps its server, and is active only if it was, keeps every line.
theorem write (h : Line credentials version serverID n) (hrow : credentials id = some c)
    (hserver : c'.serverID = c.serverID) (hactive : c'.status = .active → c.status = .active) :
    Line (Function.update credentials id (some c')) version serverID n := by
  have hold : ∀ x d, Function.update credentials id (some c') x = some d →
      ∃ d₀, credentials x = some d₀ ∧ d.serverID = d₀.serverID ∧ (d.status = .active → d₀.status = .active) := by
    intro x d hd
    by_cases hx : x = id
    · subst hx
      rw [Function.update_self] at hd
      obtain rfl := Option.some.inj hd
      exact ⟨c, hrow, hserver, hactive⟩
    · rw [Function.update_of_ne hx] at hd
      exact ⟨d, hd, rfl, fun hstatus => hstatus⟩
  refine ⟨fun v => ?_, ?_, ?_⟩
  · rw [← h.versions v]
    constructor
    · rintro ⟨x, d, hd, hd_server, hv⟩
      obtain ⟨d₀, hd₀, hsame, -⟩ := hold x d hd
      exact ⟨x, d₀, hd₀, hsame ▸ hd_server, hv⟩
    · rintro ⟨x, d, hd, hd_server, hv⟩
      by_cases hx : x = id
      · subst hx
        obtain rfl : d = c := Option.some.inj (hd.symm.trans hrow)
        exact ⟨x, c', Function.update_self .., hserver.trans hd_server, hv⟩
      · exact ⟨x, d, (Function.update_of_ne hx ..).trans hd, hd_server, hv⟩
  · intro x x' d d' hd hd' hd_server hd'_server hv
    obtain ⟨d₀, hd₀, hsame, -⟩ := hold x d hd
    obtain ⟨d₀', hd₀', hsame', -⟩ := hold x' d' hd'
    exact h.distinct x x' d₀ d₀' hd₀ hd₀' (hsame ▸ hd_server) (hsame' ▸ hd'_server) hv
  · intro x d hd hd_server hd_active
    obtain ⟨d₀, hd₀, hsame, hstatus⟩ := hold x d hd
    exact h.active x d₀ hd₀ (hsame ▸ hd_server) (hstatus hd_active)

-- A new row of another server.
theorem insert_other (h : Line credentials version serverID n) (hfresh : credentials id = none)
    (hserver : c.serverID ≠ serverID) {v : Nat} :
    Line (Function.update credentials id (some c)) (Function.update version id v) serverID n := by
  have hmine : ∀ x d, d.serverID = serverID →
      (Function.update credentials id (some c) x = some d ↔ credentials x = some d) ∧
      (credentials x = some d → Function.update version id v x = version x) := by
    intro x d hd
    by_cases hx : x = id
    · subst hx
      rw [Function.update_self, hfresh]
      refine ⟨⟨fun heq => ?_, fun heq => ?_⟩, fun heq => ?_⟩
      · obtain rfl := Option.some.inj heq
        exact absurd hd hserver
      · cases heq
      · cases heq
    · rw [Function.update_of_ne hx, Function.update_of_ne hx]
      exact ⟨Iff.rfl, fun _ => rfl⟩
  refine ⟨fun w => ?_, ?_, ?_⟩
  · rw [← h.versions w]
    refine exists_congr fun x => exists_congr fun d => ?_
    constructor
    · rintro ⟨hd, hd_server, hw⟩
      have hrow := (hmine x d hd_server).1.1 hd
      exact ⟨hrow, hd_server, ((hmine x d hd_server).2 hrow).symm.trans hw⟩
    · rintro ⟨hd, hd_server, hw⟩
      exact ⟨(hmine x d hd_server).1.2 hd, hd_server, ((hmine x d hd_server).2 hd).trans hw⟩
  · intro x x' d d' hd hd' hd_server hd'_server hw
    have hrow := (hmine x d hd_server).1.1 hd
    have hrow' := (hmine x' d' hd'_server).1.1 hd'
    rw [(hmine x d hd_server).2 hrow, (hmine x' d' hd'_server).2 hrow'] at hw
    exact h.distinct x x' d d' hrow hrow' hd_server hd'_server hw
  · intro x d hd hd_server hd_active
    have hrow := (hmine x d hd_server).1.1 hd
    rw [(hmine x d hd_server).2 hrow]
    exact h.active x d hrow hd_server hd_active

-- The next row of the line, when none of the others is active.
theorem insert (h : Line credentials version serverID n) (hfresh : credentials id = none) (hserver : c.serverID = serverID)
    (hnone : ∀ x d, credentials x = some d → d.serverID = serverID → d.status ≠ .active) :
    Line (Function.update credentials id (some c)) (Function.update version id (n + 1)) serverID (n + 1) := by
  have hrow : ∀ x d, Function.update credentials id (some c) x = some d → d.serverID = serverID →
      (x = id ∧ d = c) ∨ (x ≠ id ∧ credentials x = some d ∧ 1 ≤ version x ∧ version x ≤ n) := by
    intro x d hd hd_server
    by_cases hx : x = id
    · subst hx
      rw [Function.update_self] at hd
      exact .inl ⟨rfl, (Option.some.inj hd).symm⟩
    · rw [Function.update_of_ne hx] at hd
      exact .inr ⟨hx, hd, (h.versions (version x)).1 ⟨x, d, hd, hd_server, rfl⟩⟩
  refine ⟨fun v => ⟨?_, fun hv => ?_⟩, ?_, ?_⟩
  · rintro ⟨x, d, hd, hd_server, hv⟩
    rcases hrow x d hd hd_server with ⟨rfl, -⟩ | ⟨hx, -, hversion⟩
    · rw [Function.update_self] at hv
      omega
    · rw [Function.update_of_ne hx] at hv
      omega
  · by_cases hlast : v = n + 1
    · exact ⟨id, c, Function.update_self .., hserver, (Function.update_self ..).trans hlast.symm⟩
    · obtain ⟨x, d, hd, hd_server, hversion⟩ := (h.versions v).2 ⟨hv.1, by omega⟩
      have hx : x ≠ id := by
        rintro rfl
        rw [hfresh] at hd
        cases hd
      exact ⟨x, d, (Function.update_of_ne hx ..).trans hd, hd_server, (Function.update_of_ne hx ..).trans hversion⟩
  · intro x x' d d' hd hd' hd_server hd'_server hv
    rcases hrow x d hd hd_server with ⟨rfl, -⟩ | ⟨hx, hold, hversion⟩
    · rcases hrow x' d' hd' hd'_server with ⟨rfl, -⟩ | ⟨hx', -, hversion'⟩
      · rfl
      · rw [Function.update_self, Function.update_of_ne hx'] at hv
        omega
    · rcases hrow x' d' hd' hd'_server with ⟨rfl, -⟩ | ⟨hx', hold', -⟩
      · rw [Function.update_self, Function.update_of_ne hx] at hv
        omega
      · rw [Function.update_of_ne hx, Function.update_of_ne hx'] at hv
        exact h.distinct x x' d d' hold hold' hd_server hd'_server hv
  · intro x d hd hd_server hd_active
    rcases hrow x d hd hd_server with ⟨rfl, -⟩ | ⟨hx, hold, -⟩
    · exact Function.update_self ..
    · exact absurd hd_active (hnone x d hold hd_server)

end Line

-- The invariant of every run.
structure SoundServers (s : Servers) : Prop where
  lines : ∀ serverID, ∃ n, Line s.db.store.credentials.get? s.db.version serverID n
  revoked : ∀ serverID, Revoked serverID s.log →
    ∃ server, s.db.store.servers.get? serverID = some server ∧ server.status = .revoked
  tokens : ∀ serverID row, s.db.tokens.get? serverID = some row →
    lastIssued serverID s.log = some (row.digest, row.expiresAt)
  consumed : ∀ serverID, Enrolled serverID s.log → ∃ row, s.db.tokens.get? serverID = some row ∧ row.consumedAt ≠ none
  presented : ∀ id c, s.db.store.credentials.get? id = some c → c.status = .active →
    lastPresented c.serverID s.log = some c.digest
  log : ∀ later event earlier, s.log = later ++ event :: earlier → Warranted earlier event

section

variable {s : Servers} {serverID : String} {event : FleetEvent} {log : List FleetEvent}

theorem lastIssued_cons (serverID : String) (event : FleetEvent) (log : List FleetEvent) :
    lastIssued serverID (event :: log) = (event.issues serverID).or (lastIssued serverID log) := by
  simp only [lastIssued, List.findSome?_cons]
  cases event.issues serverID with
  | none => rfl
  | some token => rfl

theorem lastPresented_cons (serverID : String) (event : FleetEvent) (log : List FleetEvent) :
    lastPresented serverID (event :: log) = (event.presents serverID).or (lastPresented serverID log) := by
  simp only [lastPresented, List.findSome?_cons]
  cases event.presents serverID with
  | none => rfl
  | some digest => rfl

theorem Enrolled.of_cons (h : Enrolled serverID (event :: log)) (hevent : event.enrolls serverID = false) :
    Enrolled serverID log := by
  obtain ⟨found, hmem, henrolls⟩ := h
  rcases List.mem_cons.1 hmem with rfl | hmem
  · rw [hevent] at henrolls
    cases henrolls
  · exact ⟨found, hmem, henrolls⟩

theorem Revoked.of_cons (h : Revoked serverID (event :: log)) (hevent : event ≠ .revoked serverID) :
    Revoked serverID log :=
  (List.mem_cons.1 h).resolve_left fun heq => hevent heq.symm

namespace SoundServers

theorem not_revoked (h : SoundServers s) (hactive : s.db.IsActive serverID) : ¬ Revoked serverID s.log := by
  intro hrevoked
  obtain ⟨server, hserver, hstatus⟩ := h.revoked serverID hrevoked
  obtain ⟨server', hserver', hstatus'⟩ := hactive
  rw [hserver] at hserver'
  obtain rfl := Option.some.inj hserver'
  rw [hstatus] at hstatus'
  cases hstatus'

theorem not_enrolled (h : SoundServers s) (htoken : ∀ row, s.db.tokens.get? serverID = some row → row.consumedAt = none) :
    ¬ Enrolled serverID s.log := by
  intro henrolled
  obtain ⟨row, hrow, hconsumed⟩ := h.consumed serverID henrolled
  exact hconsumed (htoken row hrow)

theorem log_cons (h : SoundServers s) (hevent : Warranted s.log event) :
    ∀ later found earlier, event :: s.log = later ++ found :: earlier → Warranted earlier found := by
  intro later found earlier hlog
  cases later with
  | nil =>
      obtain ⟨rfl, rfl⟩ := List.cons.inj hlog
      exact hevent
  | cons newest later =>
      obtain ⟨-, hlog⟩ := List.cons.inj hlog
      exact h.log later found earlier hlog

theorem presented_cons (h : SoundServers s) (hevent : ∀ serverID, event.presents serverID = none) :
    ∀ id c, s.db.store.credentials.get? id = some c → c.status = .active →
      lastPresented c.serverID (event :: s.log) = some c.digest := by
  intro id c hrow hactive
  rw [lastPresented_cons, hevent]
  exact h.presented id c hrow hactive

-- A new token of a server whose token was not consumed, or that has none.
theorem tokens_issue (h : SoundServers s) {token : TokenRow} (hissues : ∀ other, event.issues other =
      if serverID = other then some (token.digest, token.expiresAt) else none) :
    ∀ other row, (s.db.tokens.put serverID token).get? other = some row →
      lastIssued other (event :: s.log) = some (row.digest, row.expiresAt) := by
  intro other row hrow
  rw [lastIssued_cons, hissues]
  rw [Table.get?_put] at hrow
  by_cases hother : other = serverID
  · rw [if_pos hother] at hrow
    rw [if_pos hother.symm, ← Option.some.inj hrow]
    rfl
  · rw [if_neg hother] at hrow
    rw [if_neg (Ne.symm hother)]
    exact h.tokens other row hrow

theorem consumed_issue (h : SoundServers s) (hfree : ¬ Enrolled serverID s.log) {token : TokenRow}
    (henrolls : ∀ other, event.enrolls other = false) :
    ∀ other, Enrolled other (event :: s.log) →
      ∃ row, (s.db.tokens.put serverID token).get? other = some row ∧ row.consumedAt ≠ none := by
  intro other henrolled
  have henrolled := henrolled.of_cons (henrolls other)
  have hother : other ≠ serverID := fun heq => hfree (heq ▸ henrolled)
  simp only [Table.get?_put, if_neg hother]
  exact h.consumed other henrolled

theorem register (h : SoundServers s) {now expiresAt : Nat} {p : Principal} {input : RegisterServerInput} {db : Fleet}
    (hregister : registerServer now s.db p input = .ok (db, expiresAt)) :
    SoundServers ⟨db, .registered input.serverID input.enrollmentDigest expiresAt :: s.log⟩ := by
  obtain ⟨hserver, hnone, hservers, hcredentials, hversion, token, hdigest, hexpires, -, htokens⟩ :=
    registerServer_cases hregister
  have hfree : ¬ Enrolled input.serverID s.log := h.not_enrolled fun row hrow => by
    rw [hnone] at hrow
    cases hrow
  have hnew : ¬ Revoked input.serverID s.log := by
    intro hrevoked
    obtain ⟨server, hsome, -⟩ := h.revoked _ hrevoked
    rw [hserver] at hsome
    cases hsome
  refine ⟨?_, fun other hrevoked => ?_, ?_, ?_, ?_, h.log_cons ⟨hfree, hnew⟩⟩
  · rw [hcredentials, hversion]
    exact h.lines
  · have hrevoked := hrevoked.of_cons (by simp)
    have hother : other ≠ input.serverID := fun heq => hnew (heq ▸ hrevoked)
    rw [hservers, Table.get?_put, if_neg hother]
    exact h.revoked other hrevoked
  · rw [htokens]
    exact h.tokens_issue fun other => by rw [hdigest, hexpires]; rfl
  · rw [htokens]
    exact h.consumed_issue hfree fun _ => rfl
  · rw [hcredentials]
    exact h.presented_cons fun _ => rfl

theorem issue (h : SoundServers s) {now expiresAt ttlSeconds : Nat} {p : Principal} {digest : Digest} {db : Fleet}
    (hissue : issueEnrollment now s.db p serverID digest ttlSeconds = .ok (db, expiresAt)) :
    SoundServers ⟨db, .issued serverID digest expiresAt :: s.log⟩ := by
  obtain ⟨hactive, ⟨row, hrow, hunconsumed⟩, hstore, hversion, token, hdigest, hexpires, -, htokens⟩ :=
    issueEnrollment_cases hissue
  have hfree : ¬ Enrolled serverID s.log := h.not_enrolled fun row' hrow' => by
    rw [hrow] at hrow'
    exact Option.some.inj hrow' ▸ hunconsumed
  refine ⟨?_, fun other hrevoked => ?_, ?_, ?_, ?_, h.log_cons ⟨hfree, h.not_revoked hactive⟩⟩
  · rw [hstore, hversion]
    exact h.lines
  · rw [hstore]
    exact h.revoked other (hrevoked.of_cons (by simp))
  · rw [htokens]
    exact h.tokens_issue fun other => by rw [hdigest, hexpires]; rfl
  · rw [htokens]
    exact h.consumed_issue hfree fun _ => rfl
  · rw [hstore]
    exact h.presented_cons fun _ => rfl

-- A new credential extends the line of its server and leaves the others as they are.
theorem lines_insert {message : String} {now n version : Nat} {db db' : Fleet} {digest : Digest}
    (hinsert : insertCredential message now db serverID version digest = .ok db')
    (hlines : ∀ other, ∃ n, Line db.store.credentials.get? db.version other n)
    (hline : Line db.store.credentials.get? db.version serverID n) (hnext : version = n + 1) :
    ∀ other, ∃ n, Line db'.store.credentials.get? db'.version other n := by
  obtain ⟨-, hnone, rfl⟩ := insertCredential_cases hinsert
  intro other
  simp only [Table.get?_put_eq_update]
  by_cases hother : serverID = other
  · subst hother
    rw [hnext]
    exact ⟨n + 1, hline.insert (Table.get?_nextKey _) rfl hnone⟩
  · obtain ⟨m, hm⟩ := hlines other
    exact ⟨m, hm.insert_other (Table.get?_nextKey _) hother⟩

-- The digest of a new credential is the one presented last.
theorem presented_insert {message : String} {now version : Nat} {db db' : Fleet} {digest : Digest}
    (hinsert : insertCredential message now db serverID version digest = .ok db')
    (hpresents : ∀ other, event.presents other = if serverID = other then some digest else none)
    (hothers : ∀ id c, db.store.credentials.get? id = some c → c.status = .active →
      lastPresented c.serverID log = some c.digest) :
    ∀ id c, db'.store.credentials.get? id = some c → c.status = .active →
      lastPresented c.serverID (event :: log) = some c.digest := by
  obtain ⟨-, hnone, rfl⟩ := insertCredential_cases hinsert
  intro id c hrow hactive
  rw [lastPresented_cons, hpresents]
  obtain ⟨-, rfl⟩ | hrow := Table.get?_put_cases hrow
  · rw [if_pos rfl]
    rfl
  · rw [if_neg fun heq => hnone id c hrow heq.symm hactive]
    exact hothers id c hrow hactive

theorem enroll (h : SoundServers s) {now version : Nat} {token credential : Digest} {db : Fleet}
    (henroll : Fleet.enroll now s.db serverID token credential = .ok (db, version)) :
    SoundServers ⟨db, .enrolled serverID token credential now :: s.log⟩ := by
  obtain ⟨hactive, row, hrow, hdigest, hunconsumed, hlive, hinsert⟩ := enroll_cases henroll
  have hfree : ¬ Enrolled serverID s.log := h.not_enrolled fun row' hrow' => by
    rw [hrow] at hrow'
    exact Option.some.inj hrow' ▸ hunconsumed
  have hissued := h.tokens serverID row hrow
  rw [hdigest] at hissued
  obtain ⟨hversions, -, hdb⟩ := insertCredential_cases hinsert
  -- The server has no version 1 yet, so its line is empty.
  obtain ⟨n, hline⟩ := h.lines serverID
  have hzero : n = 0 := by
    by_contra hne
    obtain ⟨id, c, hc, hmine, hone⟩ := (hline.versions 1).2 ⟨Nat.le_refl 1, by omega⟩
    exact hversions id c hc hmine hone
  have hservers : db.store.servers = s.db.store.servers := by rw [hdb]
  have htokens : db.tokens = s.db.tokens.put serverID { row with consumedAt := some now } := by rw [hdb]
  refine ⟨lines_insert hinsert h.lines hline (by omega), fun other hrevoked => ?_, fun other found hfound => ?_,
    fun other henrolled => ?_, presented_insert hinsert (fun _ => rfl) h.presented,
    h.log_cons ⟨hfree, h.not_revoked hactive, row.expiresAt, hissued, hlive⟩⟩
  · rw [hservers]
    exact h.revoked other (hrevoked.of_cons (by simp))
  · rw [lastIssued_cons]
    show (none : Option (Digest × Nat)).or _ = _
    rw [htokens] at hfound
    obtain ⟨rfl, rfl⟩ | hfound := Table.get?_put_cases hfound
    · exact h.tokens other row hrow
    · exact h.tokens other found hfound
  · rw [htokens, Table.get?_put]
    by_cases hother : other = serverID
    · rw [if_pos hother]
      exact ⟨_, rfl, by simp⟩
    · rw [if_neg hother]
      exact h.consumed other (henrolled.of_cons (decide_eq_false (Ne.symm hother)))

theorem rotate (h : SoundServers s) {now version : Nat} {p : Principal} {digest : Digest} {db : Fleet}
    (hrotate : rotateCredential now s.db p serverID digest = .ok (db, version)) :
    SoundServers ⟨db, .rotated serverID digest :: s.log⟩ := by
  obtain ⟨hactive, id, active, hrow, hmine, hstatus, hinsert⟩ := rotateCredential_cases hrotate
  obtain ⟨-, -, hdb⟩ := insertCredential_cases hinsert
  have hwrite : ∀ other n, Line s.db.store.credentials.get? s.db.version other n →
      Line (s.db.store.credentials.put id { active with status := .revoked, revokedAt := some now }).get? s.db.version
        other n := by
    intro other n hline
    rw [Table.get?_put_eq_update]
    exact hline.write hrow rfl fun hrevoked => by cases hrevoked
  obtain ⟨n, hline⟩ := h.lines serverID
  have hlast := hline.active id active hrow hmine hstatus
  have hservers : db.store.servers = s.db.store.servers := by rw [hdb]
  have htokens : db.tokens = s.db.tokens := by rw [hdb]
  refine ⟨lines_insert hinsert (fun other => ?_) (hwrite serverID n hline) (by rw [hlast]), fun other hrevoked => ?_,
    fun other row hother => ?_, fun other henrolled => ?_,
    presented_insert hinsert (fun _ => rfl) fun other c hc hc_active => ?_, h.log_cons (h.not_revoked hactive)⟩
  · obtain ⟨m, hm⟩ := h.lines other
    exact ⟨m, hwrite other m hm⟩
  · rw [hservers]
    exact h.revoked other (hrevoked.of_cons (by simp))
  · rw [htokens] at hother
    exact h.tokens other row hother
  · rw [htokens]
    exact h.consumed other (henrolled.of_cons rfl)
  · obtain ⟨-, rfl⟩ | hc := Table.get?_put_cases hc
    · cases hc_active
    · exact h.presented other c hc hc_active

theorem revoke (h : SoundServers s) {now : Nat} {draws : Nat → Nat} {p : Principal} {reason : String} {db : Fleet}
    (hrevoke : Fleet.revokeServer now draws s.db p serverID reason = .ok db) :
    SoundServers ⟨db, .revoked serverID :: s.log⟩ := by
  obtain ⟨hactive, htokens, hversion, ⟨server, hstatus, hservers⟩, hcredentials⟩ := revokeServer_cases hrevoke
  refine ⟨fun other => ?_, fun other hrevoked => ?_, fun other row hrow => ?_, fun other henrolled => ?_,
    fun id c hc hc_active => ?_, h.log_cons (h.not_revoked hactive)⟩
  · obtain ⟨n, hline⟩ := h.lines other
    rw [hversion]
    rcases hcredentials with hsame | ⟨id, c, hrow, -, hput⟩
    · rw [hsame]
      exact ⟨n, hline⟩
    · rw [hput, Table.get?_put_eq_update]
      exact ⟨n, hline.write hrow rfl fun hrevoked => by cases hrevoked⟩
  · rw [hservers, Table.get?_put]
    by_cases hother : other = serverID
    · rw [if_pos hother]
      exact ⟨server, rfl, hstatus⟩
    · rw [if_neg hother]
      refine h.revoked other (hrevoked.of_cons fun heq => hother ?_)
      cases heq
      rfl
  · rw [htokens] at hrow
    exact h.tokens other row hrow
  · rw [htokens]
    exact h.consumed other (henrolled.of_cons rfl)
  · rcases hcredentials with hsame | ⟨id', c', hrow, -, hput⟩
    · rw [hsame] at hc
      exact h.presented id c hc hc_active
    · rw [hput] at hc
      obtain ⟨-, rfl⟩ | hc := Table.get?_put_cases hc
      · cases hc_active
      · exact h.presented id c hc hc_active

-- A digest that is accepted is the one presented last.
theorem accepted (h : SoundServers s) {digest : Digest} {server : Server} {id : Nat}
    (hmatch : matchCredential s.db serverID digest = .ok (server, id)) :
    ¬ Revoked serverID s.log ∧ lastPresented serverID s.log = some digest := by
  obtain ⟨hactive, c, hrow, hmine, hstatus, hdigest⟩ := matchCredential_cases hmatch
  refine ⟨h.not_revoked hactive, ?_⟩
  rw [← hmine, ← hdigest]
  exact h.presented id c hrow hstatus

-- A commit that writes none of the three tables.
theorem observe (h : SoundServers s) {db : Fleet} (hservers : db.store.servers = s.db.store.servers)
    (hcredentials : db.store.credentials = s.db.store.credentials) (hversion : db.version = s.db.version)
    (htokens : db.tokens = s.db.tokens) (hissues : ∀ other, event.issues other = none)
    (henrolls : ∀ other, event.enrolls other = false) (hpresents : ∀ other, event.presents other = none)
    (hrevokes : ∀ other, event ≠ .revoked other) (hevent : Warranted s.log event) :
    SoundServers ⟨db, event :: s.log⟩ := by
  refine ⟨?_, fun other hrevoked => ?_, fun other row hrow => ?_, fun other henrolled => ?_, ?_, h.log_cons hevent⟩
  · rw [hcredentials, hversion]
    exact h.lines
  · rw [hservers]
    exact h.revoked other (hrevoked.of_cons (hrevokes other))
  · rw [htokens] at hrow
    rw [lastIssued_cons, hissues]
    exact h.tokens other row hrow
  · rw [htokens]
    exact h.consumed other (henrolled.of_cons (henrolls other))
  · rw [hcredentials]
    exact h.presented_cons hpresents

theorem commits (h : SoundServers s) {s' : Servers} (hnext : s.Commits s') : SoundServers s' := by
  cases hnext with
  | register hregister => exact h.register hregister
  | issue hissue => exact h.issue hissue
  | enroll henroll => exact h.enroll henroll
  | rotate hrotate => exact h.rotate hrotate
  | revoke hrevoke => exact h.revoke hrevoke
  | authenticate hauthenticate =>
      simp only [authenticate, bind_eq_ok, Prod.exists] at hauthenticate
      obtain ⟨server, id, hmatch, -⟩ := hauthenticate
      exact h.observe rfl rfl rfl rfl (fun _ => rfl) (fun _ => rfl) (fun _ => rfl) (by simp) (h.accepted hmatch)
  | heartbeat hheartbeat =>
      simp only [Fleet.heartbeat, bind_eq_ok, during_eq_ok, require_eq_ok, pure_eq_ok, Prod.exists] at hheartbeat
      obtain ⟨server, id, hmatch, -, -, rfl⟩ := hheartbeat
      exact h.observe rfl rfl rfl rfl (fun _ => rfl) (fun _ => rfl) (fun _ => rfl) (by simp) (h.accepted hmatch)
  | elsewhere hservers hcredentials =>
      refine ⟨?_, fun other hrevoked => ?_, h.tokens, h.consumed, ?_, h.log⟩
      · rw [hcredentials]
        exact h.lines
      · rw [hservers]
        exact h.revoked other hrevoked
      · rw [hcredentials]
        exact h.presented

theorem of_reachable (h : serverRuns.Reachable s) : SoundServers s := by
  refine h.invariant (fun start hstart => ?_) fun before after hbefore hnext => hbefore.commits hnext
  obtain ⟨hservers, hcredentials, htokens, hlog⟩ := hstart
  refine ⟨fun serverID => ⟨0, fun v => ?_, ?_, ?_⟩, ?_, ?_, ?_, ?_, ?_⟩
  · constructor
    · rintro ⟨id, c, hc, -⟩
      rw [hcredentials] at hc
      cases hc
    · omega
  · simp [hcredentials]
  · simp [hcredentials]
  · simp [hlog, Revoked]
  · simp [htokens]
  · simp [hlog, Enrolled]
  · simp [hcredentials]
  · simp [hlog]

end SoundServers

-- A new credential of another server.
theorem credentialsOf_insert {message : String} {now version : Nat} {db db' : Fleet} {digest : Digest}
    {other : String} (hinsert : insertCredential message now db other version digest = .ok db')
    (hother : other ≠ serverID) : db'.credentialsOf serverID = db.credentialsOf serverID := by
  obtain ⟨-, -, rfl⟩ := insertCredential_cases hinsert
  funext id
  simp only [Fleet.credentialsOf, Table.get?_put]
  by_cases hid : id = db.store.credentials.nextKey
  · rw [if_pos hid, hid, Table.get?_nextKey]
    simp [hother]
  · rw [if_neg hid, Function.update_of_ne hid]

-- A write to a credential of another server.
theorem credentialsOf_write {db db' : Fleet} {id : Nat} {c c' : Credential}
    (hrow : db.store.credentials.get? id = some c) (hother : c.serverID ≠ serverID) (hsame : c'.serverID = c.serverID)
    (hput : db'.store.credentials = db.store.credentials.put id c') (hversion : db'.version = db.version) :
    db'.credentialsOf serverID = db.credentialsOf serverID := by
  funext x
  simp only [Fleet.credentialsOf, hput, hversion, Table.get?_put]
  by_cases hx : x = id
  · have hc : (c.serverID == serverID) = false := beq_eq_false_iff_ne.2 hother
    have hc' : (c'.serverID == serverID) = false := hsame ▸ hc
    rw [if_pos hx, hx, hrow]
    simp only [Option.filter_some, hc, hc', Bool.false_eq_true, if_false]
  · rw [if_neg hx]

theorem credentialsOf_congr {db db' : Fleet} (hcredentials : db'.store.credentials = db.store.credentials)
    (hversion : db'.version = db.version) : db'.credentialsOf serverID = db.credentialsOf serverID := by
  funext id
  simp only [Fleet.credentialsOf, hcredentials, hversion]

-- Nothing changes the credentials of a server once it is revoked.
theorem SoundServers.fixed (h : SoundServers s) (hrevoked : Revoked serverID s.log) {s' : Servers} (hnext : s.Commits s') :
    Revoked serverID s'.log ∧ s'.db.credentialsOf serverID = s.db.credentialsOf serverID := by
  have hother : ∀ other, s.db.IsActive other → other ≠ serverID :=
    fun other hactive heq => h.not_revoked hactive (heq ▸ hrevoked)
  cases hnext with
  | register hregister =>
      obtain ⟨-, -, -, hcredentials, hversion, -⟩ := registerServer_cases hregister
      exact ⟨List.mem_cons_of_mem _ hrevoked, credentialsOf_congr hcredentials hversion⟩
  | issue hissue =>
      obtain ⟨-, -, hstore, hversion, -⟩ := issueEnrollment_cases hissue
      exact ⟨List.mem_cons_of_mem _ hrevoked, credentialsOf_congr (by rw [hstore]) hversion⟩
  | enroll henroll =>
      obtain ⟨hactive, row, -, -, -, -, hinsert⟩ := enroll_cases henroll
      exact ⟨List.mem_cons_of_mem _ hrevoked,
        (credentialsOf_insert hinsert (hother _ hactive)).trans (credentialsOf_congr rfl rfl)⟩
  | rotate hrotate =>
      obtain ⟨hactive, id, active, hrow, hmine, -, hinsert⟩ := rotateCredential_cases hrotate
      refine ⟨List.mem_cons_of_mem _ hrevoked, (credentialsOf_insert hinsert (hother _ hactive)).trans ?_⟩
      refine credentialsOf_write hrow (hmine ▸ hother _ hactive) ?_ rfl rfl
      rfl
  | revoke hrevoke =>
      obtain ⟨hactive, -, hversion, -, hcredentials⟩ := revokeServer_cases hrevoke
      refine ⟨List.mem_cons_of_mem _ hrevoked, ?_⟩
      rcases hcredentials with hsame | ⟨id, c, hrow, hmine, hput⟩
      · exact credentialsOf_congr hsame hversion
      · refine credentialsOf_write hrow (hmine ▸ hother _ hactive) ?_ hput hversion
        rfl
  | authenticate _ => exact ⟨List.mem_cons_of_mem _ hrevoked, rfl⟩
  | heartbeat hheartbeat =>
      simp only [Fleet.heartbeat, bind_eq_ok, during_eq_ok, require_eq_ok, pure_eq_ok, Prod.exists] at hheartbeat
      obtain ⟨server, id, -, -, -, rfl⟩ := hheartbeat
      exact ⟨List.mem_cons_of_mem _ hrevoked, rfl⟩
  | elsewhere _ hcredentials => exact ⟨hrevoked, credentialsOf_congr hcredentials rfl⟩

-- In every run the credentials of each server are one line with at most one active row, every transaction that committed
-- was warranted by the ones before it, and once a server is revoked its credentials stay as they are.
theorem server_credentials_one_line (h : serverRuns.Reachable s) :
    (∀ serverID, (∃ n, Line s.db.store.credentials.get? s.db.version serverID n) ∧
      ∀ id id' c c', s.db.store.credentials.get? id = some c → s.db.store.credentials.get? id' = some c' →
        c.serverID = serverID → c'.serverID = serverID → c.status = .active → c'.status = .active → id = id') ∧
    (∀ later event earlier, s.log = later ++ event :: earlier → Warranted earlier event) ∧
    ∀ serverID s', Revoked serverID s.log → serverRuns.Run s s' →
      s'.db.credentialsOf serverID = s.db.credentialsOf serverID := by
  have hsound := SoundServers.of_reachable h
  refine ⟨fun serverID => ⟨hsound.lines serverID, fun id id' c c' hc hc' hmine hmine' hactive hactive' => ?_⟩, hsound.log,
    fun serverID s' hrevoked hrun => ?_⟩
  · obtain ⟨n, hline⟩ := hsound.lines serverID
    exact hline.one_active hc hc' hmine hmine' hactive hactive'
  · refine (chain_preserves (P := fun t => SoundServers t ∧ Revoked serverID t.log ∧
      t.db.credentialsOf serverID = s.db.credentialsOf serverID) (fun t t' ht hnext => ?_) hrun
      ⟨hsound, hrevoked, rfl⟩).2.2
    obtain ⟨hlog, hsame⟩ := ht.1.fixed ht.2.1 hnext
    exact ⟨ht.1.commits hnext, hlog, hsame.trans ht.2.2⟩

end

-- The state after a transaction: it is recorded if it commits.
def Servers.attempt {α : Type} (s : Servers) (result : Except Error (Fleet × α)) (event : α → FleetEvent) : Servers :=
  match result with
  | .ok (db, value) => ⟨db, event value :: s.log⟩
  | .error _ => s

theorem reachable_attempt {α : Type} {s : Servers} (hs : serverRuns.Reachable s) {result : Except Error (Fleet × α)}
    {event : α → FleetEvent} (hcommits : ∀ db value, result = .ok (db, value) → s.Commits ⟨db, event value :: s.log⟩) :
    serverRuns.Reachable (s.attempt result event) := by
  unfold Servers.attempt
  split
  · exact hs.step (hcommits _ _ rfl)
  · exact hs

def owner : Principal := ⟨"user", "owner", "session", 1, true⟩

theorem length_sampleDigest (b : UInt8) : (List.replicate 32 b).length = 32 := List.length_replicate

def sampleDigest (b : UInt8) : Digest := ⟨List.replicate 32 b, length_sampleDigest b⟩

def noServers : Servers where
  db :=
    { store :=
        { administration :=
            { users := Table.empty.put "user" ⟨"owner", 1, true⟩
              sessions := Table.empty.put "session" ⟨"user", "owner", 1, 3600 * Queue.second, 28800 * Queue.second, false⟩
              runtimeConfigs := .empty
              bindings := .empty
              secretHeads := .empty
              secretVersions := .empty }
          servers := .empty
          credentials := .empty
          deployments := .empty
          jobs := .empty
          slots := .empty
          attempts := .empty
          executions := .empty
          frozenBindings := .empty
          frozenLiterals := .empty
          releases := .empty
          operations := .empty
          routeHeads := .empty
          jobEvents := []
          routeEvents := []
          routeHeadAuditEvents := []
          serverAuditEvents := [] }
      version := fun _ => 0
      lastHeartbeatAt := fun _ => none
      tokens := .empty }
  log := []

def sampleServer : RegisterServerInput := ⟨"server", "build host", 1, sampleDigest 1, 600⟩

def withServer : Servers :=
  noServers.attempt (registerServer 1 noServers.db owner sampleServer)
    (.registered sampleServer.serverID sampleServer.enrollmentDigest)

def withCredential : Servers :=
  withServer.attempt (enroll 2 withServer.db "server" (sampleDigest 1) (sampleDigest 2))
    fun _ => .enrolled "server" (sampleDigest 1) (sampleDigest 2) 2

def withRotation : Servers :=
  withCredential.attempt (rotateCredential 3 withCredential.db owner "server" (sampleDigest 3))
    fun _ => .rotated "server" (sampleDigest 3)

theorem withRotation_reachable : serverRuns.Reachable withRotation := by
  have hstart : serverRuns.Reachable noServers := .of_initial ⟨fun _ => rfl, fun _ => rfl, fun _ => rfl, rfl⟩
  have hserver : serverRuns.Reachable withServer := by
    refine reachable_attempt hstart fun db value h => ?_
    exact .register h
  have hcredential : serverRuns.Reachable withCredential := by
    refine reachable_attempt hserver fun db value h => ?_
    exact .enroll h
  refine reachable_attempt hcredential fun db value h => ?_
  exact .rotate h

theorem server_credentials_one_line_withRotation :
    withRotation.log.length = 3 ∧
      ((∀ serverID, (∃ n, Line withRotation.db.store.credentials.get? withRotation.db.version serverID n) ∧
        ∀ id id' c c', withRotation.db.store.credentials.get? id = some c →
          withRotation.db.store.credentials.get? id' = some c' → c.serverID = serverID → c'.serverID = serverID →
          c.status = .active → c'.status = .active → id = id') ∧
      (∀ later event earlier, withRotation.log = later ++ event :: earlier → Warranted earlier event) ∧
      ∀ serverID s', Revoked serverID withRotation.log → serverRuns.Run withRotation s' →
        s'.db.credentialsOf serverID = withRotation.db.credentialsOf serverID) :=
  ⟨by decide +kernel, server_credentials_one_line withRotation_reachable⟩

end AutoDeploy.Enrollment
