import AutoDeploy.Checkout.Runner
import AutoDeploy.Lib.Table
import Mathlib.Data.List.Induction

namespace AutoDeploy.Checkout

open Lib Lib.Result

-- github_checkout_reservations and what decides who may reserve. Times are microseconds of the database clock.

inductive ReservationState
  | reserved
  | minting
  | active
  | running
  | consumed
  | invalidated
  | expired
deriving DecidableEq, Repr

-- The states the unique index counts.
def ReservationState.live : ReservationState → Bool
  | .reserved | .minting | .active | .running => true
  | .consumed | .invalidated | .expired => false

structure Snapshot where
  ownerID : String
  projectID : String
  installationID : Nat
  repositoryID : Nat
  bindingRevision : Nat
  repositoryRevision : Nat
  installationRevision : Nat
  cloneURL : String
deriving DecidableEq, Repr

structure Reservation where
  snapshot : Snapshot
  commitSHA : String
  state : ReservationState
  attempts : Nat
  expiresAt : Nat
  consumedAt : Option Nat
deriving DecidableEq, Repr

structure ProjectBinding where
  installationID : Nat
  repositoryID : Nat
  revision : Nat
  active : Bool
deriving DecidableEq, Repr

structure Repository where
  ownerID : String
  installationID : Nat
  cloneURL : String
  revision : Nat
  active : Bool
deriving DecidableEq, Repr

structure Installation where
  ownerID : String
  revision : Nat
  active : Bool
  suspended : Bool
deriving DecidableEq, Repr

-- A binding names a repository of its installation and owner: the foreign key of github_project_bindings.
structure Authority where
  bindings : Table (String × String) ProjectBinding
  repositories : Table Nat Repository
  installations : Table Nat Installation
  registered : Bool
  referenced : ∀ key b, bindings.get? key = some b →
    ∃ r, repositories.get? b.repositoryID = some r ∧ r.installationID = b.installationID ∧ r.ownerID = key.1

structure GitHubDB where
  authority : Authority
  reservations : Table String Reservation

inductive ReservationError
  | denied
deriving DecidableEq, Repr

-- The query every checkout transaction starts with: the binding, its repository and installation and the app, all
-- active and not suspended.
def authorized (a : Authority) (owner project : String) : Option Snapshot := do
  let b ← (a.bindings.get? (owner, project)).filter ProjectBinding.active
  let r ← (a.repositories.get? b.repositoryID).filter fun r => r.ownerID == owner && r.active
  let i ← (a.installations.get? b.installationID).filter fun i => i.ownerID == owner && i.active && !i.suspended
  if a.registered then
    some ⟨owner, project, b.installationID, b.repositoryID, b.revision, r.revision, i.revision, r.cloneURL⟩
  else none

def urlChar (c : Char) : Bool := c.isAlphanum || c == '_' || c == '.' || c == '-'

-- The row check on clone_url: an owner and a name of plain characters.
def checkCloneURL (url : String) : Bool :=
  let rest := url.toList.drop "https://github.com/".length
  let owner := rest.takeWhile (· ≠ '/')
  let name := (rest.dropWhile (· ≠ '/')).drop 1
  "https://github.com/".toList.isPrefixOf url.toList && owner != [] && owner.all urlChar && name.all urlChar &&
    ".git".toList.isSuffixOf name && decide (4 < name.length)

def ofProject (owner project : String) (r : Reservation) : Bool :=
  r.snapshot.ownerID == owner && r.snapshot.projectID == project

-- What is past its time is expired before the new reservation is made. A running one is left alone.
def expire (now : Nat) (owner project : String) (r : Reservation) : Reservation :=
  if ofProject owner project r && (r.state == .reserved || r.state == .minting || r.state == .active) &&
      decide (r.expiresAt ≤ now) then
    { r with state := .expired }
  else r

def reservationTime : Nat := 600 * 10 ^ 6

def newReservation (now : Nat) (snapshot : Snapshot) (sha : String) : Reservation :=
  ⟨snapshot, sha, .reserved, 0, now + reservationTime, none⟩

-- INSERT: the primary key, the row checks, the foreign keys and the unique index over the live reservations.
def insertReservation (db : GitHubDB) (reservations : Table String Reservation) (id : String) (row : Reservation) :
    Except ReservationError (Table String Reservation) := do
  require (reservations.get? id = none) .denied
  require (row.commitSHA.length = 40 ∧ isLowerHex row.commitSHA = true) .denied
  require (checkCloneURL row.snapshot.cloneURL = true) .denied
  require ((db.authority.bindings.get? (row.snapshot.ownerID, row.snapshot.projectID)).isSome = true) .denied
  require ((db.authority.repositories.get? row.snapshot.repositoryID).any (fun r =>
    r.installationID == row.snapshot.installationID && r.ownerID == row.snapshot.ownerID) = true) .denied
  require (reservations.any (fun _ r =>
    ofProject row.snapshot.ownerID row.snapshot.projectID r && r.state.live) = false) .denied
  pure (reservations.put id row)

def reserveCheckout (now : Nat) (db : GitHubDB) (id owner project sha : String) :
    Except ReservationError (GitHubDB × Reservation) := do
  require (sha.utf8ByteSize = 40) .denied
  let snapshot ← found (authorized db.authority owner project) .denied
  require (CheckoutBinding.cloneURLValid ⟨snapshot.cloneURL, sha, id⟩ = true) .denied
  let expired := db.reservations.mapValues fun _ r => expire now owner project r
  let reservations ← insertReservation db expired id (newReservation now snapshot sha)
  pure ({ db with reservations := reservations }, newReservation now snapshot sha)

def revalidate (a : Authority) (snapshot : Snapshot) : Except ReservationError Unit := do
  let current ← found (authorized a snapshot.ownerID snapshot.projectID) .denied
  require (current.installationID = snapshot.installationID ∧ current.repositoryID = snapshot.repositoryID ∧
    current.bindingRevision = snapshot.bindingRevision ∧ current.repositoryRevision = snapshot.repositoryRevision ∧
    current.installationRevision = snapshot.installationRevision) .denied

def setReservation (db : GitHubDB) (id : String) (row : Reservation) : GitHubDB :=
  { db with reservations := db.reservations.put id row }

def beginMintAttempt (now : Nat) (db : GitHubDB) (id : String) : Except ReservationError (GitHubDB × Reservation) := do
  let row ← found (db.reservations.get? id) .denied
  require (row.state = .reserved ∧ now < row.expiresAt ∧ row.attempts < 1) .denied
  revalidate db.authority row.snapshot
  pure (setReservation db id { row with state := .minting, attempts := row.attempts + 1 }, row)

def activateMintAttempt (now : Nat) (db : GitHubDB) (id : String) (snapshot : Snapshot) :
    Except ReservationError (GitHubDB × Unit) := do
  revalidate db.authority snapshot
  let row ← found (db.reservations.get? id) .denied
  require (row.state = .minting ∧ now < row.expiresAt ∧ row.snapshot.bindingRevision = snapshot.bindingRevision ∧
    row.snapshot.repositoryRevision = snapshot.repositoryRevision ∧
    row.snapshot.installationRevision = snapshot.installationRevision) .denied
  pure (setReservation db id { row with state := .active }, ())

def startCheckout (now : Nat) (db : GitHubDB) (id : String) (snapshot : Snapshot) :
    Except ReservationError (GitHubDB × Unit) := do
  let row ← found (db.reservations.get? id) .denied
  require (now < row.expiresAt ∧ row.state = .active) .denied
  revalidate db.authority snapshot
  pure (setReservation db id { row with state := .running }, ())

def closeCheckout (now : Nat) (db : GitHubDB) (id : String) : Except ReservationError (GitHubDB × Unit) := do
  let row ← found (db.reservations.get? id) .denied
  if row.state.live then pure (setReservation db id { row with state := .consumed, consumedAt := some now }, ())
  else
    require (row.state = .consumed) .denied
    pure (db, ())

def invalidateRow (owner : String) (installationID : Nat) (r : Reservation) : Reservation :=
  if r.snapshot.ownerID == owner && r.snapshot.installationID == installationID && r.state.live then
    { r with state := .invalidated }
  else r

-- Every reservation of an installation whose authority was withdrawn or reconciled.
def invalidateCheckouts (db : GitHubDB) (owner : String) (installationID : Nat) : GitHubDB :=
  { db with reservations := db.reservations.mapValues fun _ r => invalidateRow owner installationID r }

-- What the control plane does to the reservations. Requests, repetitions, restarts and crashes between two calls only
-- decide which of these are made; the tables of the authority may become any others in between.
inductive Call
  | reserve (now : Nat) (id owner project sha : String)
  | beginMint (now : Nat) (id : String)
  | activateMint (now : Nat) (id : String) (snapshot : Snapshot)
  | start (now : Nat) (id : String) (snapshot : Snapshot)
  | close (now : Nat) (id : String)
  | invalidate (owner : String) (installationID : Nat)
  | administer (authority : Authority)

def settled {α : Type} (db : GitHubDB) : Except ReservationError (GitHubDB × α) → GitHubDB
  | .ok (db', _) => db'
  | .error _ => db

def GitHubDB.exec (db : GitHubDB) : Call → GitHubDB
  | .reserve now id owner project sha => settled db (reserveCheckout now db id owner project sha)
  | .beginMint now id => settled db (beginMintAttempt now db id)
  | .activateMint now id snapshot => settled db (activateMintAttempt now db id snapshot)
  | .start now id snapshot => settled db (startCheckout now db id snapshot)
  | .close now id => settled db (closeCheckout now db id)
  | .invalidate owner installationID => invalidateCheckouts db owner installationID
  | .administer authority => { db with authority := authority }

def GitHubDB.after (db : GitHubDB) (calls : List Call) : GitHubDB := calls.foldl GitHubDB.exec db

theorem GitHubDB.after_append (db : GitHubDB) (before calls : List Call) :
    db.after (before ++ calls) = (db.after before).after calls :=
  List.foldl_append

def Running (db : GitHubDB) (id : String) (row : Reservation) : Prop :=
  db.reservations.get? id = some row ∧ row.state = .running

-- What takes a running reservation out of that state.
def Releases (id : String) (row : Reservation) : Call → Prop
  | .close _ closed => closed = id
  | .invalidate owner installationID => owner = row.snapshot.ownerID ∧ installationID = row.snapshot.installationID
  | _ => False

-- A start that was granted.
def Starts (db : GitHubDB) (id : String) (row : Reservation) : Call → Prop
  | .start now started snapshot =>
      started = id ∧ db.reservations.get? id = some row ∧ ∃ result, startCheckout now db id snapshot = .ok result
  | _ => False

-- No expiry touches a running reservation, and none makes one.
theorem expire_running_iff (now : Nat) (owner project : String) (r row : Reservation) :
    expire now owner project r = row ∧ row.state = .running ↔ r = row ∧ row.state = .running := by
  unfold expire
  split
  case isTrue h =>
      have hstate : r.state ≠ .running := by
        intro hr
        simp [hr] at h
      constructor
      · rintro ⟨rfl, hrow⟩
        cases hrow
      · rintro ⟨rfl, hrow⟩
        exact absurd hrow hstate
  case isFalse h => exact Iff.rfl

theorem invalidateRow_running_iff (owner : String) (installationID : Nat) (r row : Reservation) :
    invalidateRow owner installationID r = row ∧ row.state = .running ↔
      (r = row ∧ row.state = .running) ∧
        ¬ (owner = row.snapshot.ownerID ∧ installationID = row.snapshot.installationID) := by
  unfold invalidateRow
  split
  case isTrue h =>
      simp only [Bool.and_eq_true, beq_iff_eq] at h
      constructor
      · rintro ⟨rfl, hrow⟩
        cases hrow
      · rintro ⟨⟨rfl, -⟩, hother⟩
        exact absurd ⟨h.1.1.symm, h.1.2.symm⟩ hother
  case isFalse h =>
      constructor
      · rintro ⟨rfl, hrow⟩
        refine ⟨⟨rfl, hrow⟩, ?_⟩
        rintro ⟨rfl, rfl⟩
        simp [hrow, ReservationState.live] at h
      · rintro ⟨hrow, -⟩
        exact hrow

-- Writing a row that is not running neither makes nor removes a running reservation where none was.
theorem running_setReservation_of_ne {db : GitHubDB} {id id' : String} {old new row : Reservation}
    (hold : db.reservations.get? id' = some old) (hstate : old.state ≠ .running) (hnew : new.state ≠ .running) :
    Running (setReservation db id' new) id row ↔ Running db id row := by
  unfold Running setReservation
  rw [Table.get?_put]
  by_cases hid : id = id'
  · subst hid
    rw [if_pos rfl, hold]
    constructor
    · rintro ⟨hrow, hrun⟩
      cases hrow
      exact absurd hrun hnew
    · rintro ⟨hrow, hrun⟩
      cases hrow
      exact absurd hrun hstate
  · rw [if_neg hid]

theorem insertReservation_eq_ok {db : GitHubDB} {t t' : Table String Reservation} {id : String} {row : Reservation} :
    insertReservation db t id row = .ok t' ↔
      t.get? id = none ∧ (row.commitSHA.length = 40 ∧ isLowerHex row.commitSHA = true) ∧
      checkCloneURL row.snapshot.cloneURL = true ∧
      (db.authority.bindings.get? (row.snapshot.ownerID, row.snapshot.projectID)).isSome = true ∧
      (db.authority.repositories.get? row.snapshot.repositoryID).any (fun r =>
        r.installationID == row.snapshot.installationID && r.ownerID == row.snapshot.ownerID) = true ∧
      t.any (fun _ r => ofProject row.snapshot.ownerID row.snapshot.projectID r && r.state.live) = false ∧
      t.put id row = t' := by
  simp only [insertReservation, bind_eq_ok, require_eq_ok, pure_eq_ok, exists_const]

-- Everything a granted reservation can do to the table.
theorem reserveCheckout_effect {now : Nat} {db db' : GitHubDB} {id owner project sha : String} {row : Reservation}
    (h : reserveCheckout now db id owner project sha = .ok (db', row)) :
    db.reservations.get? id = none ∧ row.state = .reserved ∧
      db'.reservations = (db.reservations.mapValues fun _ r => expire now owner project r).put id row := by
  simp only [reserveCheckout, bind_eq_ok, require_eq_ok, found_eq_ok, pure_eq_ok, Prod.mk.injEq] at h
  obtain ⟨_, -, snapshot, -, _, -, t, hinsert, rfl, rfl⟩ := h
  obtain ⟨hfresh, -, -, -, -, -, rfl⟩ := insertReservation_eq_ok.1 hinsert
  refine ⟨?_, rfl, rfl⟩
  simpa using hfresh

theorem running_reserve {now : Nat} {db db' : GitHubDB} {id id' owner project sha : String} {new row : Reservation}
    (h : reserveCheckout now db id' owner project sha = .ok (db', new)) :
    Running db' id row ↔ Running db id row := by
  obtain ⟨hfresh, hnew, htable⟩ := reserveCheckout_effect h
  unfold Running
  rw [htable, Table.get?_put]
  by_cases hid : id = id'
  · subst hid
    rw [if_pos rfl, hfresh]
    constructor
    · rintro ⟨hrow, hrun⟩
      cases hrow
      rw [hnew] at hrun
      cases hrun
    · rintro ⟨hrow, -⟩
      cases hrow
  · rw [if_neg hid, Table.get?_mapValues]
    cases hrow : db.reservations.get? id with
    | none => simp
    | some r =>
        simp only [Option.map_some, Option.some.injEq]
        exact expire_running_iff now owner project r row

theorem running_beginMint {now : Nat} {db db' : GitHubDB} {id id' : String} {read row : Reservation}
    (h : beginMintAttempt now db id' = .ok (db', read)) : Running db' id row ↔ Running db id row := by
  simp only [beginMintAttempt, bind_eq_ok, require_eq_ok, found_eq_ok, pure_eq_ok, Prod.mk.injEq] at h
  obtain ⟨old, hold, _, ⟨hstate, -⟩, _, -, rfl, -⟩ := h
  exact running_setReservation_of_ne hold (by simp [hstate]) (by simp)

theorem running_activateMint {now : Nat} {db db' : GitHubDB} {id id' : String} {snapshot : Snapshot} {u : Unit}
    {row : Reservation} (h : activateMintAttempt now db id' snapshot = .ok (db', u)) :
    Running db' id row ↔ Running db id row := by
  simp only [activateMintAttempt, bind_eq_ok, require_eq_ok, found_eq_ok, pure_eq_ok, Prod.mk.injEq] at h
  obtain ⟨_, -, old, hold, _, ⟨hstate, -⟩, rfl, -⟩ := h
  exact running_setReservation_of_ne hold (by simp [hstate]) (by simp)

-- A granted start makes its own reservation run and no other.
theorem running_start {now : Nat} {db db' : GitHubDB} {id id' : String} {snapshot : Snapshot} {u : Unit}
    {row : Reservation} (h : startCheckout now db id' snapshot = .ok (db', u)) :
    Running db' id row ↔ Running db id row ∨
      ∃ old, id = id' ∧ db.reservations.get? id = some old ∧ row = { old with state := .running } := by
  simp only [startCheckout, bind_eq_ok, require_eq_ok, found_eq_ok, pure_eq_ok, Prod.mk.injEq] at h
  obtain ⟨old, hold, _, ⟨-, hstate⟩, _, -, rfl, -⟩ := h
  unfold Running setReservation
  rw [Table.get?_put]
  by_cases hid : id = id'
  · subst hid
    rw [if_pos rfl, hold]
    constructor
    · rintro ⟨hrow, -⟩
      cases hrow
      exact .inr ⟨old, rfl, rfl, rfl⟩
    · rintro (⟨hrow, hrun⟩ | ⟨old', -, hold', rfl⟩)
      · cases hrow
        rw [hstate] at hrun
        cases hrun
      · cases hold'
        exact ⟨rfl, rfl⟩
  · rw [if_neg hid]
    constructor
    · exact .inl
    · rintro (hrow | ⟨old', heq, -⟩)
      · exact hrow
      · exact absurd heq hid

-- A close always releases the reservation it names when that one is running.
theorem running_close {now : Nat} {db : GitHubDB} {id id' : String} {row : Reservation} :
    Running (settled db (closeCheckout now db id')) id row ↔ Running db id row ∧ id' ≠ id := by
  unfold closeCheckout
  cases hold : db.reservations.get? id' with
  | none =>
      simp only [found_none, error_bind, settled]
      constructor
      · intro hrow
        refine ⟨hrow, ?_⟩
        rintro rfl
        rw [hrow.1] at hold
        cases hold
      · exact fun h => h.1
  | some old =>
      simp only [found_some, ok_bind]
      by_cases hlive : old.state.live = true
      · rw [if_pos hlive]
        unfold Running
        simp only [settled, setReservation, pure, Except.pure, Table.get?_put]
        by_cases hid : id = id'
        · subst hid
          constructor
          · rintro ⟨hrow, hrun⟩
            rw [if_pos rfl] at hrow
            cases hrow
            cases hrun
          · rintro ⟨-, hne⟩
            exact absurd rfl hne
        · rw [if_neg hid]
          exact ⟨fun h => ⟨h, Ne.symm hid⟩, fun h => h.1⟩
      · rw [if_neg hlive]
        have hsame : ∀ x : Except ReservationError Unit, settled db (x >>= fun _ => pure (db, ())) = db := by
          intro x
          cases x <;> rfl
        rw [hsame]
        constructor
        · intro hrow
          refine ⟨hrow, ?_⟩
          rintro rfl
          rw [hrow.1] at hold
          cases hold
          simp [hrow.2, ReservationState.live] at hlive
        · exact fun h => h.1

-- One call: what was running stays so unless the call releases it, and only a granted start adds to it.
theorem running_exec_iff (db : GitHubDB) (call : Call) (id : String) (row : Reservation) :
    Running (db.exec call) id row ↔
      (Running db id row ∧ ¬ Releases id row call) ∨
        ∃ old, Starts db id old call ∧ row = { old with state := .running } := by
  cases call with
  | reserve now id' owner project sha =>
      simp only [GitHubDB.exec, Releases, Starts, not_false_eq_true, and_true, false_and, exists_false, or_false]
      cases h : reserveCheckout now db id' owner project sha with
      | error e => exact Iff.rfl
      | ok result => exact running_reserve h
  | beginMint now id' =>
      simp only [GitHubDB.exec, Releases, Starts, not_false_eq_true, and_true, false_and, exists_false, or_false]
      cases h : beginMintAttempt now db id' with
      | error e => exact Iff.rfl
      | ok result => exact running_beginMint h
  | activateMint now id' snapshot =>
      simp only [GitHubDB.exec, Releases, Starts, not_false_eq_true, and_true, false_and, exists_false, or_false]
      cases h : activateMintAttempt now db id' snapshot with
      | error e => exact Iff.rfl
      | ok result => exact running_activateMint h
  | start now id' snapshot =>
      simp only [GitHubDB.exec, Releases, Starts, not_false_eq_true, and_true]
      cases h : startCheckout now db id' snapshot with
      | error e =>
          constructor
          · exact .inl
          · rintro (hrow | ⟨old, ⟨rfl, -, result, hstart⟩, -⟩)
            · exact hrow
            · rw [h] at hstart
              cases hstart
      | ok result =>
          refine (running_start h).trans (or_congr_right (exists_congr fun old => ?_))
          constructor
          · rintro ⟨rfl, hold, hrow⟩
            exact ⟨⟨rfl, hold, result, h⟩, hrow⟩
          · rintro ⟨⟨rfl, hold, -⟩, hrow⟩
            exact ⟨rfl, hold, hrow⟩
  | close now id' =>
      simp only [GitHubDB.exec, Releases, Starts, false_and, exists_false, or_false]
      exact running_close
  | invalidate owner installationID =>
      simp only [GitHubDB.exec, Releases, Starts, false_and, exists_false, or_false]
      unfold Running invalidateCheckouts
      rw [Table.get?_mapValues]
      cases hrow : db.reservations.get? id with
      | none => simp
      | some r =>
          simp only [Option.map_some, Option.some.injEq]
          exact invalidateRow_running_iff owner installationID r row
  | administer authority =>
      simp only [GitHubDB.exec, Releases, Starts, not_false_eq_true, and_true, false_and, exists_false, or_false]
      exact Iff.rfl

-- A start of the history that was granted and never released.
def Unreleased (db : GitHubDB) (calls : List Call) (id : String) (row : Reservation) : Prop :=
  ∃ before call later old, calls = before ++ call :: later ∧ Starts (db.after before) id old call ∧
    row = { old with state := .running } ∧ ∀ c ∈ later, ¬ Releases id row c

-- Whatever the history: a reservation runs exactly when some start of it was never released.
theorem running_after_iff {db : GitHubDB} (hempty : ∀ id, db.reservations.get? id = none) (calls : List Call)
    (id : String) (row : Reservation) : Running (db.after calls) id row ↔ Unreleased db calls id row := by
  induction calls using List.reverseRecOn with
  | nil =>
      constructor
      · rintro ⟨hrow, -⟩
        rw [GitHubDB.after, List.foldl_nil, hempty] at hrow
        cases hrow
      · rintro ⟨before, call, later, old, hcalls, -⟩
        simp at hcalls
  | append_singleton calls last ih =>
      rw [GitHubDB.after_append]
      refine (running_exec_iff (db.after calls) last id row).trans ?_
      rw [ih]
      constructor
      · rintro (⟨⟨before, call, later, old, rfl, hstart, hrow, hlater⟩, hlast⟩ | ⟨old, hstart, hrow⟩)
        · refine ⟨before, call, later ++ [last], old, by simp, hstart, hrow, ?_⟩
          intro c hc
          rcases List.mem_append.1 hc with hmem | hmem
          · exact hlater c hmem
          · rw [List.mem_singleton.1 hmem]
            exact hlast
        · exact ⟨calls, last, [], old, rfl, hstart, hrow, by simp⟩
      · rintro ⟨before, call, later, old, hcalls, hstart, hrow, hlater⟩
        -- The start is the last call of the history, or it came before it.
        rcases List.eq_nil_or_concat later with rfl | ⟨later, c, rfl⟩
        · obtain ⟨rfl, hsame⟩ := List.append_inj' hcalls rfl
          cases hsame
          exact .inr ⟨old, hstart, hrow⟩
        · rw [List.concat_eq_append, ← List.cons_append, ← List.append_assoc] at hcalls
          obtain ⟨rfl, hsame⟩ := List.append_inj' hcalls rfl
          cases hsame
          simp only [List.concat_eq_append, List.mem_append, List.mem_singleton] at hlater
          exact .inl ⟨⟨before, call, later, old, rfl, hstart, hrow, fun c hc => hlater c (.inl hc)⟩,
            hlater last (.inr rfl)⟩

-- What every row of the table must be like, whoever asks for it.
def Reservable (snapshot : Snapshot) (sha : String) : Prop :=
  sha.utf8ByteSize = 40 ∧ sha.length = 40 ∧ isLowerHex sha = true ∧
    CheckoutBinding.cloneURLValid ⟨snapshot.cloneURL, sha, ""⟩ = true ∧ checkCloneURL snapshot.cloneURL = true

theorem authorized_eq_some {a : Authority} {owner project : String} {snapshot : Snapshot}
    (h : authorized a owner project = some snapshot) :
    snapshot.ownerID = owner ∧ snapshot.projectID = project ∧
      (a.bindings.get? (owner, project)).isSome = true ∧
      (a.repositories.get? snapshot.repositoryID).any (fun r =>
        r.installationID == snapshot.installationID && r.ownerID == owner) = true := by
  simp only [authorized, Option.bind_eq_bind, Option.bind_eq_some_iff, Option.filter_eq_some_iff] at h
  obtain ⟨b, ⟨hb, -⟩, r, ⟨hr, -⟩, i, -, hregistered⟩ := h
  split at hregistered
  case isFalse => cases hregistered
  case isTrue =>
      cases hregistered
      obtain ⟨r', hr', hinstallation, howner⟩ := a.referenced _ b hb
      rw [hr] at hr'
      cases hr'
      refine ⟨rfl, rfl, by simp [hb], ?_⟩
      simp [hr, hinstallation, howner]

-- After the expiry, what is live and past its time is exactly what runs.
theorem live_expire_iff {now : Nat} {owner project : String} {r : Reservation}
    (hpast : ofProject owner project r = true → r.expiresAt ≤ now) :
    (ofProject owner project (expire now owner project r) && (expire now owner project r).state.live) = true ↔
      ofProject owner project r = true ∧ r.state = .running := by
  unfold expire
  cases hproject : ofProject owner project r with
  | false => simp [hproject]
  | true =>
      have htime := hpast hproject
      cases hstate : r.state <;> simp [htime, hproject, hstate, ReservationState.live]

theorem insertable_iff {now : Nat} {db : GitHubDB} {owner project : String}
    (hpast : ∀ id row, db.reservations.get? id = some row → ofProject owner project row = true → row.expiresAt ≤ now) :
    (db.reservations.mapValues fun _ r => expire now owner project r).any
        (fun _ r => ofProject owner project r && r.state.live) = false ↔
      ∀ id row, Running db id row → ofProject owner project row = false := by
  constructor
  · intro hany id row hrow
    have hfalse := Table.any_eq_false hany (k := id) (v := expire now owner project row) (by simp [hrow.1])
    by_contra hproject
    have htrue := (live_expire_iff (hpast id row hrow.1)).2 ⟨by simpa using hproject, hrow.2⟩
    rw [hfalse] at htrue
    cases htrue
  · intro hnone
    refine Table.any_eq_false_of fun id row hrow => ?_
    rw [Table.get?_mapValues, Option.map_eq_some_iff] at hrow
    obtain ⟨r, hr, rfl⟩ := hrow
    by_contra hlive
    obtain ⟨hproject, hstate⟩ := (live_expire_iff (hpast id r hr)).1 (by simpa using hlive)
    rw [hnone id r ⟨hr, hstate⟩] at hproject
    cases hproject

-- When everything of the project is past its time and the project is authorized, a new reservation is granted
-- exactly when none of them is still running.
theorem reserveCheckout_succeeds_iff {now : Nat} {db : GitHubDB} {id owner project sha : String} {snapshot : Snapshot}
    (hactive : authorized db.authority owner project = some snapshot)
    (hpast : ∀ id row, db.reservations.get? id = some row → ofProject owner project row = true → row.expiresAt ≤ now)
    (hfresh : db.reservations.get? id = none) :
    Succeeds (reserveCheckout now db id owner project sha) ↔
      Reservable snapshot sha ∧ ∀ id row, Running db id row → ofProject owner project row = false := by
  obtain ⟨howner, hproject, hbinding, hrepository⟩ := authorized_eq_some hactive
  rw [← insertable_iff hpast]
  constructor
  · rintro ⟨⟨db', row⟩, h⟩
    simp only [reserveCheckout, bind_eq_ok, require_eq_ok, found_eq_ok, pure_eq_ok, hactive, Option.some.injEq] at h
    obtain ⟨_, hsize, _, rfl, _, hurl, t, hinsert, -⟩ := h
    obtain ⟨-, ⟨hlength, hhex⟩, hcheck, -, -, hany, -⟩ := insertReservation_eq_ok.1 hinsert
    simp only [newReservation, howner, hproject] at hany
    exact ⟨⟨hsize, hlength, hhex, hurl, hcheck⟩, hany⟩
  · rintro ⟨⟨hsize, hlength, hhex, hurl, hcheck⟩, hany⟩
    have hinsert : insertReservation db (db.reservations.mapValues fun _ r => expire now owner project r) id
        (newReservation now snapshot sha) = .ok _ := insertReservation_eq_ok.2
      ⟨by simp [hfresh], ⟨hlength, hhex⟩, hcheck, by simpa [newReservation, howner, hproject] using hbinding,
        by simpa [newReservation, howner] using hrepository,
        by simpa [newReservation, howner, hproject] using hany, rfl⟩
    have hfound : found (authorized db.authority owner project) ReservationError.denied = .ok snapshot := by
      rw [hactive, found_some]
    exact .bind (require_pos hsize) (.bind hfound (.bind (require_pos hurl) (.bind hinsert (.pure _))))

end AutoDeploy.Checkout
