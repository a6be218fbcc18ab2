import AutoDeploy.Auth.Turns
import AutoDeploy.Auth.Steps
import AutoDeploy.Lib.Runs

namespace AutoDeploy.Auth

open Lib Lib.Result

section

variable {now stamp blocked maxRows : Nat} {db db' merged : DB} {identity : ThrottleIdentity}

theorem mem_lockBuckets {kind : ThrottleKind} {start : Nat} {keys : List ThrottleAlias} {key : ThrottleAlias}
    {row : BucketRow} : (key, row) ∈ lockBuckets db kind start keys ↔
      key ∈ keys ∧ db.buckets.get? (ownBucket kind start key) = some row := by
  simp only [lockBuckets, List.mem_filterMap, Option.map_eq_some_iff, Prod.mk.injEq]
  constructor
  · rintro ⟨key', hmem, row', hrow, rfl, rfl⟩
    exact ⟨hmem, hrow⟩
  · rintro ⟨hmem, hrow⟩
    exact ⟨key, hmem, row, hrow, rfl, rfl⟩

theorem mem_aliasKeysOf {key : BucketKey} : key ∈ aliasKeysOf now db identity ↔
    ∃ k ∈ identity.aliases, key = ownBucket identity.kind (window now) k ∧ (db.buckets.get? key).isSome = true := by
  simp only [aliasKeysOf, List.mem_map, Prod.exists, mem_lockBuckets]
  constructor
  · rintro ⟨k, row, ⟨hmem, hrow⟩, rfl⟩
    exact ⟨k, hmem, rfl, by simp [hrow]⟩
  · rintro ⟨k, hmem, rfl, hsome⟩
    obtain ⟨row, hrow⟩ := Option.isSome_iff_exists.1 hsome
    exact ⟨k, row, ⟨hmem, hrow⟩, rfl⟩

theorem lockUsernames_any {keys : List ThrottleAlias} {key : ThrottleAlias} :
    ((lockUsernames now db keys).any fun row => row.1 == key) = true ↔
      key ∈ keys ∧ (db.usernames.get? key).isSome = true := by
  simp only [lockUsernames, List.any_filterMap, List.any_eq_true]
  constructor
  · rintro ⟨key', hmem, h⟩
    cases hrow : db.usernames.get? key' with
    | none => simp [hrow] at h
    | some row =>
        simp only [hrow, Option.map_some, beq_iff_eq] at h
        exact h ▸ ⟨hmem, by simp [hrow]⟩
  · rintro ⟨hmem, hsome⟩
    obtain ⟨row, hrow⟩ := Option.isSome_iff_exists.1 hsome
    exact ⟨key, hmem, by simp [hrow]⟩

theorem mergeUsernames_buckets {own key : ThrottleAlias} {rows : List (ThrottleAlias × UsernameRow)} :
    (mergeUsernames db own key rows).buckets = db.buckets := by
  unfold mergeUsernames
  split <;> rfl

theorem mergeUsernames_maxRows {own key : ThrottleAlias} {rows : List (ThrottleAlias × UsernameRow)} :
    (mergeUsernames db own key rows).maxRows = db.maxRows := by
  unfold mergeUsernames
  split <;> rfl

theorem throttleRows_mergeUsernames_le {own key : ThrottleAlias} {rows : List (ThrottleAlias × UsernameRow)} :
    (mergeUsernames db own key rows).throttleRows ≤ db.throttleRows := by
  unfold mergeUsernames
  split
  · exact Nat.le_refl _
  · exact Nat.add_le_add_left (Table.size_keep_le _ _) _

theorem get?_mergeUsernames_self {own key : ThrottleAlias} {rows : List (ThrottleAlias × UsernameRow)} :
    (mergeUsernames db own key rows).usernames.get? own = db.usernames.get? own := by
  unfold mergeUsernames
  split
  · rfl
  · cases hrow : db.usernames.get? own with
    | none => simp [Table.get?_keep, hrow]
    | some row => simp [Table.get?_keep, hrow]

-- An alias row that is merged makes room.
theorem throttleRows_mergeUsernames_lt {own key alias' : ThrottleAlias} {rows : List (ThrottleAlias × UsernameRow)}
    {row : UsernameRow} (hkey : key.keyVersion ≠ "overflow") (hne : alias' ≠ own)
    (hrow : db.usernames.get? alias' = some row) (hany : (rows.any fun row => row.1 == alias') = true) :
    (mergeUsernames db own key rows).throttleRows < db.throttleRows := by
  rw [mergeUsernames, if_neg hkey]
  refine Nat.add_lt_add_left (Table.size_keep_lt hrow ?_) _
  simp [hne, hany]

theorem throttleRows_putUsername_le {key : ThrottleAlias} {row : UsernameRow} :
    ({ db with usernames := db.usernames.put key row } : DB).throttleRows ≤ db.throttleRows + 1 := by
  have := Table.size_put_le db.usernames key row
  simp only [DB.throttleRows]
  omega

theorem throttleRows_putUsername_of_some {key : ThrottleAlias} {row old : UsernameRow}
    (hold : db.usernames.get? key = some old) :
    ({ db with usernames := db.usernames.put key row } : DB).throttleRows = db.throttleRows := by
  simp only [DB.throttleRows, Table.size_put_of_some row hold]

-- Under its own key a username that has a row needs no new one: the row is there, or an alias made room for it.
theorem throttleRows_own_le {row : UsernameRow} (hvalid : identity.keyVersion ≠ "overflow")
    (hfound : ∃ key ∈ identity.candidates, (db.usernames.get? key).isSome = true)
    (hmerged : merged = mergeUsernames db identity.primary identity.primary
      (lockUsernames now db identity.candidates)) :
    ({ merged with usernames := merged.usernames.put identity.primary row } : DB).throttleRows ≤ db.throttleRows := by
  subst hmerged
  obtain ⟨key, hmem, hsome⟩ := hfound
  obtain ⟨old, hold⟩ := Option.isSome_iff_exists.1 hsome
  cases hprimary : db.usernames.get? identity.primary with
  | some first =>
      rw [throttleRows_putUsername_of_some (get?_mergeUsernames_self.trans hprimary)]
      exact throttleRows_mergeUsernames_le
  | none =>
      have hne : key ≠ identity.primary := by
        rintro rfl
        rw [hprimary] at hold
        cases hold
      exact throttleRows_putUsername_le.trans
        (throttleRows_mergeUsernames_lt hvalid hne hold (lockUsernames_any.2 ⟨hmem, hsome⟩))

theorem usernameOverflows_eq_false (h : usernameOverflows db identity maxRows = false) :
    (∃ key ∈ identity.candidates, (db.usernames.get? key).isSome = true) ∨ db.throttleRows < maxRows - 4 := by
  simp only [usernameOverflows, Bool.and_eq_false_iff, List.all_eq_false, decide_eq_false_iff_not, Table.contains] at h
  obtain ⟨key, hmem, hkey⟩ | hroom := h
  · exact .inl ⟨key, hmem, Option.isSome_iff_ne_none.2 (by simpa using hkey)⟩
  · exact .inr (by omega)

-- A username's turn stays below the cap.
theorem ReservesUsername.throttleRows_le {reservation : ThrottleReservation} (hmax : 8 ≤ maxRows)
    (hvalid : identity.keyVersion ≠ "overflow") (h : ReservesUsername now stamp db identity maxRows reservation db')
    (hdb : db.throttleRows ≤ maxRows) : db'.throttleRows ≤ maxRows := by
  cases h with
  | full _ _ => exact hdb
  | overflow _ hroom hcounts =>
      have hsame : mergeUsernames db identity.primary overflowKey (lockUsernames now db [overflowKey]) = db := if_pos rfl
      cases hcounts with
      | kept block _ _ => exact hsame ▸ hdb
      | merged block _ hkey => exact absurd rfl hkey
      | counted _ =>
          rw [hsame]
          cases hrow : db.usernames.get? overflowKey with
          | none => exact throttleRows_putUsername_le.trans (hroom hrow)
          | some row => exact (throttleRows_putUsername_of_some hrow).trans_le hdb
  | own hover hcounts =>
      have hput : ∀ row, ({ mergeUsernames db identity.primary identity.primary
            (lockUsernames now db identity.candidates) with
          usernames := (mergeUsernames db identity.primary identity.primary
            (lockUsernames now db identity.candidates)).usernames.put identity.primary row } : DB).throttleRows ≤
          maxRows := by
        intro row
        rcases usernameOverflows_eq_false hover with hfound | hroom
        · exact (throttleRows_own_le hvalid hfound rfl).trans hdb
        · refine throttleRows_putUsername_le.trans ?_
          refine (Nat.succ_le_succ throttleRows_mergeUsernames_le).trans ?_
          omega
      cases hcounts with
      | kept block _ _ => exact throttleRows_mergeUsernames_le.trans hdb
      | merged block _ _ => exact hput _
      | counted _ => exact hput _

theorem Migrates.throttleRows_le {own : BucketKey} {aliases : List BucketKey} {total : BucketRow}
    (hrows : ∀ key ∈ aliases, (db.buckets.get? key).isSome = true) (h : Migrates db own aliases total merged) :
    merged.throttleRows ≤ db.throttleRows := by
  cases h with
  | none _ => exact Nat.le_refl _
  | moved row hsome _ _ =>
      -- One alias row at least is gone, and at most one row is new.
      obtain ⟨key, hkey⟩ := List.exists_mem_of_ne_nil aliases hsome
      obtain ⟨old, hold⟩ := Option.isSome_iff_exists.1 (hrows key hkey)
      have hlt : (db.buckets.keep fun key _ => !aliases.contains key).size < db.buckets.size :=
        Table.size_keep_lt hold (by simpa using hkey)
      have hput := Table.size_put_le (db.buckets.keep fun key _ => !aliases.contains key) own row
      simp only [DB.throttleRows]
      omega

theorem Migrates.own_of_seen (hseen : rowsOf now db identity ≠ []) {total : BucketRow}
    (h : Migrates db (ownBucket identity.kind (window now) identity.primary) (aliasKeysOf now db identity) total merged) :
    (merged.buckets.get? (ownBucket identity.kind (window now) identity.primary)).isSome = true := by
  cases h with
  | moved row _ _ _ => simp
  | none hnil =>
      obtain ⟨⟨key, row⟩, hmem⟩ := List.exists_mem_of_ne_nil _ hseen
      obtain ⟨hkey, hrow⟩ := mem_lockBuckets.1 hmem
      rcases List.mem_cons.1 hkey with rfl | halias
      · simp [hrow]
      · have := mem_aliasKeysOf.2 ⟨key, halias, rfl, Option.isSome_iff_exists.2 ⟨row, hrow⟩⟩
        rw [hnil] at this
        simp at this

theorem CountsAttempt.throttleRows_le {kind : ThrottleKind} {key : BucketKey} {attempts : Nat}
    {recovery : Option String} {turn : Turn} (h : CountsAttempt kind db key attempts recovery blocked turn db')
    (hroom : db.buckets.get? key = none → db.throttleRows < maxRows) (hdb : db.throttleRows ≤ maxRows) :
    db'.throttleRows ≤ maxRows := by
  cases h with
  | refused _ => exact hdb
  | counted _ _ =>
      simp only [DB.throttleRows, Table.size_put] at hdb hroom ⊢
      cases hrow : db.buckets.get? key with
      | none =>
          have := hroom hrow
          simp only [Option.isSome_none, Bool.false_eq_true, if_false]
          omega
      | some row =>
          simp only [Option.isSome_some, if_true]
          exact hdb

theorem reserveBucket_throttleRows_le {turn : Turn} (hmax : 8 ≤ maxRows)
    (h : reserveBucket now blocked maxRows db identity = .ok (turn, db')) (hdb : db.throttleRows ≤ maxRows) :
    db'.throttleRows ≤ maxRows := by
  obtain ⟨recovery, merged, blocked', -, hmigrates, hcounts⟩ := reserveBucket_cases h
  have hmerged : merged.throttleRows ≤ maxRows := by
    refine (hmigrates.throttleRows_le fun key hkey => ?_).trans hdb
    obtain ⟨-, -, -, hsome⟩ := mem_aliasKeysOf.1 hkey
    exact hsome
  cases hcounts with
  | refused _ => exact hmerged
  | overflow _ _ _ hroom hattempt => exact hattempt.throttleRows_le hroom hmerged
  | own hroom hattempt =>
      refine hattempt.throttleRows_le (fun hnone => ?_) hmerged
      have hunseen : rowsOf now db identity = [] := by
        by_contra hseen
        have := hmigrates.own_of_seen hseen
        simp [hnone] at this
      have := hroom hunseen
      omega

theorem reserveBucket_maxRows {turn : Turn} (h : reserveBucket now blocked maxRows db identity = .ok (turn, db')) :
    db'.maxRows = db.maxRows := by
  obtain ⟨recovery, merged, blocked', -, hmigrates, hcounts⟩ := reserveBucket_cases h
  have hmerged : merged.maxRows = db.maxRows := by
    cases hmigrates with
    | none _ => rfl
    | moved _ _ _ _ => rfl
  have hattempt : ∀ {key attempts recovery blocked}, CountsAttempt identity.kind merged key attempts recovery blocked
      turn db' → db'.maxRows = merged.maxRows := by
    intro key attempts recovery blocked h
    cases h with
    | refused _ => rfl
    | counted _ _ => rfl
  cases hcounts with
  | refused _ => exact hmerged
  | overflow _ _ _ _ h => exact (hattempt h).trans hmerged
  | own _ h => exact (hattempt h).trans hmerged

theorem CountsUsername.maxRows_eq {own key : ThrottleAlias} {rows : List (ThrottleAlias × UsernameRow)}
    {primaryFound : Bool} {reservation : ThrottleReservation}
    (h : CountsUsername now stamp db own key rows primaryFound reservation db') : db'.maxRows = db.maxRows := by
  cases h with
  | kept _ _ _ => exact mergeUsernames_maxRows
  | merged _ _ _ => exact mergeUsernames_maxRows
  | counted _ => exact mergeUsernames_maxRows

theorem ReservesUsername.maxRows_eq {reservation : ThrottleReservation}
    (h : ReservesUsername now stamp db identity maxRows reservation db') : db'.maxRows = db.maxRows := by
  cases h with
  | full _ _ => rfl
  | overflow _ _ hcounts => exact hcounts.maxRows_eq
  | own _ hcounts => exact hcounts.maxRows_eq

-- One turn keeps the cap and stays below it.
theorem reserveIdentity_bounded {turn : Turn} (hmax : 8 ≤ maxRows) (hvalid : identity.keyVersion ≠ "overflow")
    (hdb : db.maxRows = some maxRows ∧ db.throttleRows ≤ maxRows)
    (h : reserveIdentity now stamp blocked maxRows db identity = .ok (turn, db')) :
    db'.maxRows = some maxRows ∧ db'.throttleRows ≤ maxRows := by
  obtain ⟨-, reservation, hreserve, -⟩ | ⟨-, hbucket⟩ := reserveIdentity_cases h
  · have hcases := reserveUsernameThrottle_cases hreserve
    exact ⟨hcases.maxRows_eq.trans hdb.1, hcases.throttleRows_le hmax hvalid hdb.2⟩
  · exact ⟨(reserveBucket_maxRows hbucket).trans hdb.1, reserveBucket_throttleRows_le hmax hbucket hdb.2⟩

end

-- The throttle tables hold at most the configured number of rows, and none before a number is configured.
def DB.Bounded (db : DB) : Prop :=
  match db.maxRows with
  | none => db.throttleRows = 0
  | some maxRows => db.throttleRows ≤ maxRows

theorem DB.Bounded.fewer {db db' : DB} (h : db.Bounded) (hmax : db'.maxRows = db.maxRows)
    (hrows : db'.throttleRows ≤ db.throttleRows) : db'.Bounded := by
  unfold DB.Bounded at h ⊢
  rw [hmax]
  cases hcap : db.maxRows with
  | none =>
      simp only [hcap] at h ⊢
      omega
  | some maxRows =>
      simp only [hcap] at h ⊢
      omega

theorem reserveThrottle_bounded {clock : Clock} {db db' : DB} {identities : List ThrottleIdentity} {maxRows : Nat}
    {reservation : ThrottleReservation} (h : reserveThrottle clock db identities maxRows = .ok (reservation, db'))
    (hdb : db.Bounded) : db'.Bounded := by
  simp only [reserveThrottle, bind_eq_ok, require_eq_ok] at h
  obtain ⟨⟨⟩, hvalidate, -, hconfigured, h⟩ := h
  obtain ⟨⟨-, -, hmax, -⟩, hvalid, -⟩ := validateThrottleIdentities_eq_ok.1 hvalidate
  have hstart : db.throttleRows ≤ maxRows := by
    unfold DB.Bounded at hdb
    rcases hconfigured with hnone | hsome
    · simp only [hnone] at hdb
      omega
    · simpa only [hsome] using hdb
  have hend : db'.maxRows = some maxRows ∧ db'.throttleRows ≤ maxRows := by
    refine reserveAll_preserves (P := fun db => db.maxRows = some maxRows ∧ db.throttleRows ≤ maxRows) _ identities
      (fun identity hmem stamp blocked db turn db' hdb hturn => ?_) h
      ⟨rfl, hstart⟩
    have hkey := (hvalid identity hmem).keys identity.primary (by simp [ThrottleIdentity.candidates])
    exact reserveIdentity_bounded hmax hkey.2.1 hdb hturn
  simpa only [DB.Bounded, hend.1] using hend.2

section

variable {db db' : DB}

theorem clearIdentities_bounded {mine : BucketRow → Bool} (identities : List ThrottleIdentity) (hdb : db.Bounded) :
    (identities.foldl (clearIdentity mine) db).Bounded := by
  induction identities generalizing db with
  | nil => exact hdb
  | cons identity rest ih =>
      refine ih ?_
      unfold clearIdentity
      split
      · exact hdb.fewer rfl (Nat.add_le_add_right (Table.size_keep_le _ _) _)
      · exact hdb.fewer rfl (Nat.add_le_add_left (Table.size_keep_le _ _) _)
      · exact hdb

theorem finalizeThrottle_bounded {successful : Bool} {identities : List ThrottleIdentity}
    (h : finalizeThrottle db successful identities = .ok db') (hdb : db.Bounded) : db'.Bounded := by
  simp only [finalizeThrottle, bind_eq_ok] at h
  obtain ⟨-, -, h⟩ := h
  cases successful with
  | true =>
      simp only [if_true, pure_eq_ok] at h
      exact h ▸ clearIdentities_bounded identities hdb
  | false =>
      simp only [Bool.false_eq_true, if_false, pure_eq_ok] at h
      exact h ▸ hdb

theorem cleanupThrottle_bounded {clock : Readings BucketKey} {clock' : Readings ThrottleAlias} {place : BucketKey → Nat}
    {place' : ThrottleAlias → Nat} {limit deleted : Nat}
    (h : cleanupThrottle clock clock' place place' db limit = .ok (deleted, db')) (hdb : db.Bounded) : db'.Bounded := by
  simp only [cleanupThrottle, bind_eq_ok, pure_eq_ok, Prod.mk.injEq] at h
  obtain ⟨-, -, -, rfl⟩ := h
  exact hdb.fewer rfl (Nat.add_le_add (Table.size_keep_le _ _) (Table.size_keep_le _ _))

theorem SameThrottles.bounded (h : SameThrottles db db') (hdb : db.Bounded) : db'.Bounded :=
  hdb.fewer h.1 (by simp only [DB.throttleRows, h.2.1, h.2.2, Nat.le_refl])

theorem completeLogin_bounded {clock : Clock} {input : CompleteLoginInput} {session : SessionRow}
    (h : completeLogin clock db input = .ok (session, db')) (hdb : db.Bounded) : db'.Bounded := by
  obtain ⟨user, hlogin⟩ := completeLogin_cases h
  obtain ⟨recorded, mine, hsame, rfl⟩ := hlogin.cleared
  exact clearIdentities_bounded _ (hsame.bounded hdb)

theorem resetPassword_bounded {moments : String → Nat} {userID auditID : String} {verifier : PasswordVerifier}
    {digests : List Digest} (h : resetPassword moments db userID verifier auditID digests = .ok db') (hdb : db.Bounded) :
    db'.Bounded := by
  obtain ⟨user, hreset⟩ := resetPassword_cases h
  obtain ⟨recorded, hsame, hcleared⟩ := hreset.cleared
  refine hcleared.bounded ((hsame.bounded hdb).fewer rfl ?_)
  exact Nat.add_le_add (Table.size_keep_le _ _) (Table.size_keep_le _ _)

end

-- The calls that write the throttle tables, each a transaction under the admission lock, and whatever leaves them alone.
-- `may` tells which reservations are made.
inductive ThrottleCall (may : List ThrottleIdentity → Prop) : DB → DB → Prop where
  | reserve {db db' : DB} (clock : Clock) (identities : List ThrottleIdentity) (maxRows : Nat)
      (reservation : ThrottleReservation) (hmay : may identities)
      (h : reserveThrottle clock db identities maxRows = .ok (reservation, db')) : ThrottleCall may db db'
  | finalize {db db' : DB} (successful : Bool) (identities : List ThrottleIdentity)
      (h : finalizeThrottle db successful identities = .ok db') : ThrottleCall may db db'
  | login {db db' : DB} (clock : Clock) (input : CompleteLoginInput) (session : SessionRow)
      (h : completeLogin clock db input = .ok (session, db')) : ThrottleCall may db db'
  | reset {db db' : DB} (moments : String → Nat) (userID auditID : String) (verifier : PasswordVerifier)
      (digests : List Digest) (h : resetPassword moments db userID verifier auditID digests = .ok db') :
      ThrottleCall may db db'
  | cleanup {db db' : DB} (clock : Readings BucketKey) (clock' : Readings ThrottleAlias) (place : BucketKey → Nat)
      (place' : ThrottleAlias → Nat) (limit deleted : Nat)
      (h : cleanupThrottle clock clock' place place' db limit = .ok (deleted, db')) : ThrottleCall may db db'
  | elsewhere {db db' : DB} (h : SameThrottles db db') : ThrottleCall may db db'

def throttling (may : List ThrottleIdentity → Prop) : System DB where
  initial db := db.maxRows = none ∧ db.throttleRows = 0
  next := ThrottleCall may

variable {may : List ThrottleIdentity → Prop}

theorem ThrottleCall.bounded {db db' : DB} (h : ThrottleCall may db db') (hdb : db.Bounded) : db'.Bounded := by
  cases h with
  | reserve clock identities maxRows reservation _ h => exact reserveThrottle_bounded h hdb
  | finalize successful identities h => exact finalizeThrottle_bounded h hdb
  | login clock input session h => exact completeLogin_bounded h hdb
  | reset moments userID auditID verifier digests h => exact resetPassword_bounded h hdb
  | cleanup clock clock' place place' limit deleted h => exact cleanupThrottle_bounded h hdb
  | elsewhere h => exact h.bounded hdb

-- Whatever the calls, their identities and their times, the rows stay below the configured maximum.
theorem throttleRows_le_configured {db : DB} (h : (throttling may).Reachable db) :
    (db.maxRows = none → db.throttleRows = 0) ∧ ∀ maxRows, db.maxRows = some maxRows → db.throttleRows ≤ maxRows := by
  have hdb : db.Bounded := by
    refine h.invariant (P := DB.Bounded) (fun start hstart => ?_)
      fun before after hbefore (hcall : ThrottleCall may before after) => hcall.bounded hbefore
    simpa only [DB.Bounded, hstart.1] using hstart.2
  unfold DB.Bounded at hdb
  constructor
  · intro hnone
    simpa only [hnone] using hdb
  · intro maxRows hsome
    simpa only [hsome] using hdb

def emptyDB : DB := ⟨none, .empty, .empty, none, .empty, .empty, .empty⟩

theorem reachable_emptyDB (may : List ThrottleIdentity → Prop) : (throttling may).Reachable emptyDB :=
  .of_initial ⟨rfl, rfl⟩

-- One reservation of the same identities at each of the given times; one that fails changes nothing.
def reserveOnce (ids : List ThrottleIdentity) (maxRows : Nat) (db : DB) (moment : Nat) : DB :=
  match reserveThrottle (fun n => moment + n) db ids maxRows with
  | .ok (_, db') => db'
  | .error _ => db

def reserveEach (ids : List ThrottleIdentity) (maxRows : Nat) (moments : List Nat) (db : DB) : DB :=
  moments.foldl (reserveOnce ids maxRows) db

theorem reachable_reserveEach {ids : List ThrottleIdentity} (hmay : may ids) (maxRows : Nat) (moments : List Nat) {db : DB}
    (hdb : (throttling may).Reachable db) : (throttling may).Reachable (reserveEach ids maxRows moments db) := by
  induction moments generalizing db with
  | nil => exact hdb
  | cons moment rest ih =>
      refine ih ?_
      unfold reserveOnce
      split
      · rename_i reservation db' h
        exact hdb.step (.reserve _ _ _ _ hmay h)
      · exact hdb

-- A pair, a username and an address under one key.
def oneLogin : List ThrottleIdentity :=
  let digest (b : UInt8) : Digest := ⟨List.replicate 32 b, length_constant b⟩
  [⟨.pair, "k1", digest 1, [], ""⟩, ⟨.username, "k1", digest 2, [], ""⟩, ⟨.ip, "k1", digest 3, [], ""⟩]

def afterOneLogin : DB := reserveEach oneLogin 8 [minutes 60] emptyDB

theorem throttleRows_le_configured_afterOneLogin :
    (afterOneLogin.maxRows = some 8 ∧ afterOneLogin.throttleRows = 3) ∧
      ((afterOneLogin.maxRows = none → afterOneLogin.throttleRows = 0) ∧
        ∀ maxRows, afterOneLogin.maxRows = some maxRows → afterOneLogin.throttleRows ≤ maxRows) := by
  have hreach : (throttling fun _ => True).Reachable afterOneLogin :=
    reachable_reserveEach trivial _ _ (reachable_emptyDB _)
  exact ⟨by decide +kernel, throttleRows_le_configured hreach⟩

end AutoDeploy.Auth
