import AutoDeploy.Auth.Schema
import Mathlib.Data.List.Sort

namespace AutoDeploy.Auth

open Lib Lib.Result

-- The successive readings of the database clock in one transaction.
abbrev Clock := Nat → Nat

-- The readings of a WHERE clause that compares the clock twice: each comparison reads it anew for each row.
structure Readings (κ : Type) where
  first : κ → Nat
  second : κ → Nat

def validID (id : String) : Bool := decide (0 < id.utf8ByteSize) && decide (id.utf8ByteSize ≤ 128)

def validThrottleKeyVersion (version : String) : Bool :=
  decide (0 < version.utf8ByteSize) && decide (version.utf8ByteSize ≤ 32) && version.toList.all fun c =>
    decide ('a' ≤ c ∧ c ≤ 'z') || decide ('A' ≤ c ∧ c ≤ 'Z') || decide ('0' ≤ c ∧ c ≤ '9') ||
      c == '.' || c == '_' || c == '-'

def maxThrottleAliases : Nat := 4

-- The keys met so far, each with the kind it is counted for.
abbrev Seen := List (ThrottleKind × ThrottleAlias)

def validateThrottleAlias (kind : ThrottleKind) (seen : Seen) (key : ThrottleAlias) : Except AuthError Seen := do
  require (validThrottleKeyVersion key.keyVersion = true ∧ key.keyVersion ≠ "overflow" ∧ key.digest ≠ zeroDigest)
    (.invalid "invalid throttle alias")
  require ((kind, key) ∉ seen) (.invalid "duplicate throttle alias")
  pure ((kind, key) :: seen)

def validateThrottleIdentity (seen : Seen) (identity : ThrottleIdentity) : Except AuthError Seen := do
  require (validThrottleKeyVersion identity.keyVersion = true ∧ identity.keyVersion ≠ "overflow" ∧
    identity.aliases.length ≤ maxThrottleAliases) (.invalid "invalid throttle key version")
  require (identity.digest ≠ zeroDigest) (.invalid "invalid zero throttle digest")
  require (identity.recoveryUserID ≠ "" → identity.kind = .pair ∧ validID identity.recoveryUserID = true)
    (.invalid "invalid throttle recovery user")
  require ((identity.kind, identity.primary) ∉ seen) (.invalid "duplicate throttle identity")
  identity.aliases.foldlM (validateThrottleAlias identity.kind) ((identity.kind, identity.primary) :: seen)

def validateThrottleIdentities (identities : List ThrottleIdentity) (maxRows : Nat) : Except AuthError Unit := do
  require (identities ≠ [] ∧ identities.length ≤ 4 ∧ 8 ≤ maxRows ∧ maxRows ≤ 100000)
    (.invalid "invalid throttle identities")
  let _ ← identities.foldlM validateThrottleIdentity []
  pure ()

-- The key of every overflow row.
def overflowKey : ThrottleAlias := ⟨"overflow", zeroDigest⟩

section Username

def UsernameRow.live (now : Nat) (row : UsernameRow) : Bool := row.blockedUntil.any fun block => now < block

def UsernameRow.inactive (now : Nat) (row : UsernameRow) : Bool :=
  decide (row.updatedAt + minutes 15 ≤ now) && !row.live now

-- A row as it is read: inactive state has no continuing authority, and a live block is never reset.
def UsernameRow.current (now : Nat) (row : UsernameRow) : UsernameRow :=
  if row.inactive now then { row with failures := 0, blockedUntil := none } else row

def lockUsernames (now : Nat) (db : DB) (keys : List ThrottleAlias) : List (ThrottleAlias × UsernameRow) :=
  keys.filterMap fun key => (db.usernames.get? key).map fun row => (key, row.current now)

def totalFailures (rows : List (ThrottleAlias × UsernameRow)) : Nat :=
  rows.foldl (fun total row => min 15 (total + row.2.failures)) 0

def liveBlock (now : Nat) (rows : List (ThrottleAlias × UsernameRow)) : Option Nat :=
  rows.foldl (fun latest row => if row.2.live now && latest.all fun block => decide (block < row.2.blockedUntil.getD 0)
    then row.2.blockedUntil else latest) none

-- 30 seconds after the tenth failure, twice as long after each further one, at most 15 minutes.
def usernameDelay (failures : Nat) : Nat := min (30000000 * 2 ^ min (failures - 10) 5) (minutes 15)

def usernameBlock (now failures : Nat) : Option Nat :=
  if 10 ≤ failures then some (now + usernameDelay failures) else none

-- INSERT ... ON CONFLICT of a username's row, with the row checks of the table.
def putUsername (message : String) (db : DB) (key : ThrottleAlias) (row : UsernameRow) : Except AuthError DB := do
  require (row.failures ≤ 15 ∧ (key.keyVersion = "overflow" ↔ key.digest = zeroDigest) ∧
    ∀ block ∈ row.blockedUntil, row.updatedAt ≤ block ∧ block ≤ row.updatedAt + minutes 15) (.database message)
  pure { db with usernames := db.usernames.put key row }

-- Retained aliases are merged before a denial too; overflow is shared and never deleted here.
def mergeUsernames (db : DB) (own key : ThrottleAlias) (rows : List (ThrottleAlias × UsernameRow)) : DB :=
  if key.keyVersion = "overflow" then db
  else { db with usernames := db.usernames.keep fun k _ => !(decide (k ≠ own) && rows.any fun row => row.1 == k) }

-- What `reserveUsernameThrottle` does once it knows the key it counts under and the rows it found.
def countUsername (now stamp : Nat) (db : DB) (own key : ThrottleAlias) (rows : List (ThrottleAlias × UsernameRow))
    (primaryFound : Bool) : Except AuthError (ThrottleReservation × DB) :=
  let merged := mergeUsernames db own key rows
  match liveBlock now rows with
  | some block => do
      let merged ←
        if key.keyVersion ≠ "overflow" ∧ (primaryFound = false ∨ 1 < rows.length) then
          putUsername "persist username merge" merged key ⟨totalFailures rows, some block, stamp⟩
        else pure merged
      pure (⟨block, false⟩, merged)
  | none => do
      let failures := min 15 (totalFailures rows + 1)
      let block := usernameBlock now failures
      let db ← putUsername "reserve username throttle" merged key ⟨failures, block, stamp⟩
      pure (⟨block.getD 0, true⟩, db)

-- A username no row is kept for shares the overflow row when only the last four rows are left.
def usernameOverflows (db : DB) (identity : ThrottleIdentity) (maxRows : Nat) : Bool :=
  identity.candidates.all (fun key => !db.usernames.contains key) && decide (maxRows - 4 ≤ db.throttleRows)

-- `stamp` is the clock when the row is written.
def reserveUsernameThrottle (now stamp : Nat) (db : DB) (identity : ThrottleIdentity) (maxRows : Nat) :
    Except AuthError (ThrottleReservation × DB) :=
  if usernameOverflows db identity maxRows then
    if maxRows ≤ db.throttleRows ∧ db.usernames.get? overflowKey = none then .ok (⟨0, false⟩, db)
    else countUsername now stamp db identity.primary overflowKey (lockUsernames now db [overflowKey]) false
  else
    countUsername now stamp db identity.primary identity.primary (lockUsernames now db identity.candidates)
      (db.usernames.contains identity.primary)

end Username

section Bucket

def window (now : Nat) : Nat := now - now % minutes 15

def throttleLimit (kind : ThrottleKind) : Nat := if kind = .pair then 5 else 20

def pairRecoveryUserID (identity : ThrottleIdentity) : Option String :=
  if identity.kind ≠ .pair ∨ identity.recoveryUserID = "" then none else some identity.recoveryUserID

def ownBucket (kind : ThrottleKind) (window : Nat) (key : ThrottleAlias) : BucketKey := ⟨.own kind, key, window⟩

def overflowBucket (kind : ThrottleKind) (window : Nat) : BucketKey := ⟨.overflow kind, overflowKey, window⟩

def lockBuckets (db : DB) (kind : ThrottleKind) (window : Nat) (keys : List ThrottleAlias) :
    List (ThrottleAlias × BucketRow) :=
  keys.filterMap fun key => (db.buckets.get? (ownBucket kind window key)).map fun row => (key, row)

-- An existing tag is kept; a different known user for the same opaque pair digest is never a reassignment.
def resolveRecovery (kind : ThrottleKind) (resolved : Option String) (row : ThrottleAlias × BucketRow) :
    Except AuthError (Option String) :=
  if kind = .pair ∧ row.2.recoveryUserID ≠ none then do
    require (resolved = none ∨ resolved = row.2.recoveryUserID) (.invalid "pair throttle recovery user collision")
    pure row.2.recoveryUserID
  else .ok resolved

def laterBlock : Option Nat → Option Nat → Option Nat
  | none, block => block
  | block, none => block
  | some block, some block' => some (max block block')

-- The row checks of the table: the counters, and the user a pair is tagged with.
def writeBucket (message : String) (db : DB) (key : BucketKey) (row : BucketRow) : Except AuthError DB := do
  require (row.failures ≤ row.attempts ∧ row.attempts ≤ 2147483647 ∧
    ∀ id ∈ row.recoveryUserID, db.users.contains id = true) (.database message)
  pure { db with buckets := db.buckets.put key row }

-- The upsert that moves aliases: the totals replace the counters, an earlier tag stays.
def BucketRow.migrated (total : BucketRow) : Option BucketRow → BucketRow
  | none => total
  | some old =>
      { total with
        blockedUntil := laterBlock old.blockedUntil total.blockedUntil
        recoveryUserID := old.recoveryUserID.or total.recoveryUserID }

-- The upsert that counts one attempt.
def BucketRow.counted (recovery : Option String) : Option BucketRow → BucketRow
  | none => ⟨1, 1, none, recovery⟩
  | some old =>
      { old with
        attempts := old.attempts + 1
        failures := old.failures + 1
        recoveryUserID := old.recoveryUserID.or recovery }

-- Key rotation must not create a fresh allowance: every live retained alias moves into the active key.
def migrateAliases (db : DB) (own : BucketKey) (aliases : List BucketKey) (total : BucketRow) : Except AuthError DB :=
  if aliases = [] then .ok db
  else
    let erased := { db with buckets := db.buckets.keep fun key _ => !aliases.contains key }
    writeBucket "migrate throttle aliases" erased own (.migrated total (erased.buckets.get? own))

-- How the turn of one identity ends: the next one is looked at with the latest block so far, or the attempt is refused.
inductive Turn where
  | next (blocked : Nat)
  | refused (reservation : ThrottleReservation)
deriving DecidableEq

def countAttempt (kind : ThrottleKind) (db : DB) (key : BucketKey) (attempts : Nat) (recovery : Option String)
    (blocked : Nat) : Except AuthError (Turn × DB) :=
  if throttleLimit kind ≤ attempts then .ok (.refused ⟨blocked, false⟩, db)
  else do
    let db ← writeBucket "reserve throttle bucket" db key (.counted recovery (db.buckets.get? key))
    pure (.next blocked, db)

-- What the overflow bucket of a kind counts is authoritative for every identity routed to it.
def countOverflow (now blocked : Nat) (kind : ThrottleKind) (window : Nat) (maxRows : Nat) (db : DB) :
    Except AuthError (Turn × DB) :=
  match db.buckets.get? (overflowBucket kind window) with
  | none =>
      if maxRows ≤ db.throttleRows then .ok (.refused ⟨0, false⟩, db)
      else countAttempt kind db (overflowBucket kind window) 0 none blocked
  | some row =>
      let blocked := max blocked (row.blockedUntil.getD 0)
      if now < blocked then .ok (.refused ⟨blocked, false⟩, db)
      else countAttempt kind db (overflowBucket kind window) row.attempts none blocked

def bucketTotal (rows : List (ThrottleAlias × BucketRow)) (recovery : Option String) : BucketRow where
  attempts := (rows.map fun row => row.2.attempts).sum
  failures := (rows.map fun row => row.2.failures).sum
  blockedUntil := rows.foldl (fun latest row => laterBlock latest row.2.blockedUntil) none
  recoveryUserID := recovery

def latestBlocked (blocked : Nat) (rows : List (ThrottleAlias × BucketRow)) : Nat :=
  rows.foldl (fun blocked row => max blocked (row.2.blockedUntil.getD 0)) blocked

-- One identity of the loop, usernames apart.
def reserveBucket (now blocked : Nat) (maxRows : Nat) (db : DB) (identity : ThrottleIdentity) :
    Except AuthError (Turn × DB) := do
  let rows := lockBuckets db identity.kind (window now) identity.candidates
  let aliasRows := lockBuckets db identity.kind (window now) identity.aliases
  let recovery ← rows.foldlM (resolveRecovery identity.kind) (pairRecoveryUserID identity)
  let blocked := latestBlocked blocked rows
  let own := ownBucket identity.kind (window now) identity.primary
  let db ← migrateAliases db own (aliasRows.map fun row => ownBucket identity.kind (window now) row.1)
    (bucketTotal rows recovery)
  if now < blocked then pure (.refused ⟨blocked, false⟩, db)
  else if rows = [] ∧ maxRows - 4 ≤ db.throttleRows then countOverflow now blocked identity.kind (window now) maxRows db
  else countAttempt identity.kind db own (bucketTotal rows recovery).attempts recovery blocked

end Bucket

-- One turn of the loop of `ReserveThrottle`.
def reserveIdentity (now stamp blocked : Nat) (maxRows : Nat) (db : DB) (identity : ThrottleIdentity) :
    Except AuthError (Turn × DB) :=
  if identity.kind = .username then do
    let (reservation, db) ← reserveUsernameThrottle now stamp db identity maxRows
    if reservation.allowed then pure (.next (max blocked reservation.blockedUntil), db)
    else pure (.refused reservation, db)
  else reserveBucket now blocked maxRows db identity

-- The latest block is shared by all turns. A refusal commits what the turns before it wrote.
def reserveAll (now : Nat) (maxRows : Nat) : Clock → List ThrottleIdentity → Nat → DB →
    Except AuthError (ThrottleReservation × DB)
  | _, [], blocked, db => .ok (⟨blocked, true⟩, db)
  | clock, identity :: rest, blocked, db => do
      let (turn, db) ← reserveIdentity now (clock 0) blocked maxRows db identity
      match turn with
      | .refused reservation => pure (reservation, db)
      | .next blocked => reserveAll now maxRows (fun n => clock (n + 1)) rest blocked db

def reserveThrottle (clock : Clock) (db : DB) (identities : List ThrottleIdentity) (maxRows : Nat) :
    Except AuthError (ThrottleReservation × DB) := do
  validateThrottleIdentities identities maxRows
  require (db.maxRows = none ∨ db.maxRows = some maxRows)
    (.invalid "throttle max rows differs from durable configuration")
  reserveAll (clock 0) maxRows (fun n => clock (n + 1)) identities 0 { db with maxRows := some maxRows }

-- DELETE of the credential-failure rows of the supplied identities; `mine` tells which pair rows may go.
def clearIdentity (mine : BucketRow → Bool) (db : DB) (identity : ThrottleIdentity) : DB :=
  match identity.kind with
  | .pair =>
      { db with buckets := db.buckets.keep fun key row =>
          !(decide (key.kind = .own .pair ∧ key.key ∈ identity.candidates) && mine row) }
  | .username =>
      { db with usernames := db.usernames.keep fun key _ =>
          !decide (key ∈ identity.candidates ∧ key.keyVersion ≠ "overflow") }
  | _ => db

def finalizeThrottle (db : DB) (successful : Bool) (identities : List ThrottleIdentity) : Except AuthError DB := do
  validateThrottleIdentities identities 8
  if successful then pure (identities.foldl (clearIdentity fun _ => true) db) else pure db

-- The oldest rows whose window, or whose last write, is past; rows of equal age are taken in the order of the pages they
-- lie on.
def staleBuckets (clock : Readings BucketKey) (place : BucketKey → Nat) (db : DB) (limit : Nat) :
    List (BucketKey × BucketRow) :=
  ((db.buckets.select fun key row => decide (key.window + minutes 15 < clock.first key) &&
    row.blockedUntil.all fun block => decide (block ≤ clock.second key)).insertionSort fun x y =>
      x.1.window < y.1.window ∨ (x.1.window = y.1.window ∧ place x.1 ≤ place y.1)).take limit

def staleUsernames (clock : Readings ThrottleAlias) (place : ThrottleAlias → Nat) (db : DB) (limit : Nat) :
    List (ThrottleAlias × UsernameRow) :=
  ((db.usernames.select fun key row => decide (row.updatedAt + minutes 15 < clock.first key) &&
    row.blockedUntil.all fun block => decide (block ≤ clock.second key)).insertionSort fun x y =>
      x.2.updatedAt < y.2.updatedAt ∨ (x.2.updatedAt = y.2.updatedAt ∧ place x.1 ≤ place y.1)).take limit

def cleanupThrottle (clock : Readings BucketKey) (clock' : Readings ThrottleAlias) (place : BucketKey → Nat)
    (place' : ThrottleAlias → Nat) (db : DB) (limit : Nat) : Except AuthError (Nat × DB) := do
  require (1 ≤ limit ∧ limit ≤ 1000) (.invalid "invalid throttle cleanup limit")
  let buckets := staleBuckets clock place db limit
  let usernames := staleUsernames clock' place' db (limit - buckets.length)
  pure (buckets.length + usernames.length,
    { db with
      buckets := db.buckets.keep fun key _ => !(buckets.map Prod.fst).contains key
      usernames := db.usernames.keep fun key _ => !(usernames.map Prod.fst).contains key })

end AutoDeploy.Auth
