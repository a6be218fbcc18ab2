import AutoDeploy.Auth.Throttle

namespace AutoDeploy.Auth

open Lib Lib.Result

-- What a validated reservation looks like: keys of the right form, none of them met twice.
def ThrottleAlias.Valid (key : ThrottleAlias) : Prop :=
  validThrottleKeyVersion key.keyVersion = true ∧ key.keyVersion ≠ "overflow" ∧ key.digest ≠ zeroDigest

structure ThrottleIdentity.Valid (identity : ThrottleIdentity) : Prop where
  few : identity.aliases.length ≤ maxThrottleAliases
  recovery : identity.recoveryUserID ≠ "" → identity.kind = .pair ∧ validID identity.recoveryUserID = true
  keys : ∀ key ∈ identity.candidates, key.Valid

def ThrottleIdentity.kinded (identity : ThrottleIdentity) : Seen := identity.candidates.map fun key => (identity.kind, key)

theorem validateAliases_iff {kind : ThrottleKind} {keys : List ThrottleAlias} {seen seen' : Seen} (hseen : seen.Nodup) :
    keys.foldlM (validateThrottleAlias kind) seen = .ok seen' ↔
      (∀ key ∈ keys, key.Valid) ∧ seen'.Nodup ∧ seen' = (keys.map fun key => (kind, key)).reverse ++ seen := by
  induction keys generalizing seen seen' with
  | nil =>
      simp only [List.foldlM_nil, pure_eq_ok, List.not_mem_nil, false_implies, implies_true, true_and, List.map_nil,
        List.reverse_nil, List.nil_append]
      constructor
      · rintro rfl
        exact ⟨hseen, rfl⟩
      · rintro ⟨-, rfl⟩
        rfl
  | cons key rest ih =>
      simp only [List.foldlM_cons, bind_eq_ok, validateThrottleAlias, require_eq_ok, pure_eq_ok]
      constructor
      · rintro ⟨first, ⟨-, hvalid, -, hnew, rfl⟩, hrest⟩
        obtain ⟨hkeys, hnodup, rfl⟩ := (ih (List.nodup_cons.2 ⟨hnew, hseen⟩)).1 hrest
        refine ⟨fun key' hmem => ?_, by simpa using hnodup, by simp⟩
        rcases List.mem_cons.1 hmem with rfl | hmem
        · exact hvalid
        · exact hkeys key' hmem
      · rintro ⟨hkeys, hnodup, rfl⟩
        simp only [List.map_cons, List.reverse_cons, List.append_assoc, List.singleton_append] at hnodup ⊢
        have hcons := (List.nodup_append.1 hnodup).2.1
        refine ⟨(kind, key) :: seen, ⟨(), hkeys key (by simp), (), (List.nodup_cons.1 hcons).1, rfl⟩, ?_⟩
        exact (ih hcons).2 ⟨fun key' hmem => hkeys key' (List.mem_cons_of_mem _ hmem), hnodup, rfl⟩

theorem validateThrottleIdentity_iff {identity : ThrottleIdentity} {seen seen' : Seen} (hseen : seen.Nodup) :
    validateThrottleIdentity seen identity = .ok seen' ↔
      identity.Valid ∧ seen'.Nodup ∧ seen' = identity.kinded.reverse ++ seen := by
  simp only [validateThrottleIdentity, bind_eq_ok, require_eq_ok]
  constructor
  · rintro ⟨-, ⟨hversion, hname, hfew⟩, -, hdigest, -, hrecovery, -, hnew, haliases⟩
    obtain ⟨hkeys, hnodup, rfl⟩ := (validateAliases_iff (List.nodup_cons.2 ⟨hnew, hseen⟩)).1 haliases
    refine ⟨⟨hfew, hrecovery, fun key hmem => ?_⟩, hnodup, by simp [ThrottleIdentity.kinded, ThrottleIdentity.candidates]⟩
    rcases List.mem_cons.1 hmem with rfl | hmem
    · exact ⟨hversion, hname, hdigest⟩
    · exact hkeys key hmem
  · rintro ⟨hvalid, hnodup, rfl⟩
    simp only [ThrottleIdentity.kinded, ThrottleIdentity.candidates, List.map_cons, List.reverse_cons, List.append_assoc,
      List.singleton_append] at hnodup ⊢
    have hcons := (List.nodup_append.1 hnodup).2.1
    obtain ⟨hversion, hname, hdigest⟩ := hvalid.keys identity.primary (by simp [ThrottleIdentity.candidates])
    refine ⟨(), ⟨hversion, hname, hvalid.few⟩, (), hdigest, (), hvalid.recovery, (), (List.nodup_cons.1 hcons).1, ?_⟩
    refine (validateAliases_iff hcons).2 ⟨fun key hmem => hvalid.keys key ?_, hnodup, rfl⟩
    simp [ThrottleIdentity.candidates, hmem]

theorem validateIdentities_iff {identities : List ThrottleIdentity} {seen seen' : Seen} (hseen : seen.Nodup) :
    identities.foldlM validateThrottleIdentity seen = .ok seen' ↔
      (∀ identity ∈ identities, identity.Valid) ∧ seen'.Nodup ∧
        seen' = (identities.flatMap ThrottleIdentity.kinded).reverse ++ seen := by
  induction identities generalizing seen seen' with
  | nil =>
      simp only [List.foldlM_nil, pure_eq_ok, List.not_mem_nil, false_implies, implies_true, true_and, List.flatMap_nil,
        List.reverse_nil, List.nil_append]
      constructor
      · rintro rfl
        exact ⟨hseen, rfl⟩
      · rintro ⟨-, rfl⟩
        rfl
  | cons identity rest ih =>
      simp only [List.foldlM_cons, bind_eq_ok, validateThrottleIdentity_iff hseen]
      constructor
      · rintro ⟨first, ⟨hvalid, hfirst, rfl⟩, hrest⟩
        obtain ⟨hall, hnodup, rfl⟩ := (ih hfirst).1 hrest
        refine ⟨fun identity' hmem => ?_, by simpa using hnodup, by simp⟩
        rcases List.mem_cons.1 hmem with rfl | hmem
        · exact hvalid
        · exact hall identity' hmem
      · rintro ⟨hall, hnodup, rfl⟩
        simp only [List.flatMap_cons, List.reverse_append, List.append_assoc] at hnodup ⊢
        have hfirst := (List.nodup_append.1 hnodup).2.1
        refine ⟨_, ⟨hall identity (by simp), hfirst, rfl⟩, ?_⟩
        exact (ih hfirst).2 ⟨fun identity' hmem => hall identity' (List.mem_cons_of_mem _ hmem), hnodup, rfl⟩

theorem validateThrottleIdentities_eq_ok {identities : List ThrottleIdentity} {maxRows : Nat} :
    validateThrottleIdentities identities maxRows = .ok () ↔
      (identities ≠ [] ∧ identities.length ≤ 4 ∧ 8 ≤ maxRows ∧ maxRows ≤ 100000) ∧
        (∀ identity ∈ identities, identity.Valid) ∧ (identities.flatMap ThrottleIdentity.kinded).Nodup := by
  simp only [validateThrottleIdentities, bind_eq_ok, require_eq_ok, pure_eq_ok, exists_const, and_true,
    validateIdentities_iff List.nodup_nil, List.append_nil]
  constructor
  · rintro ⟨hsizes, seen, hall, hnodup, rfl⟩
    exact ⟨hsizes, hall, List.nodup_reverse.1 hnodup⟩
  · rintro ⟨hsizes, hall, hnodup⟩
    exact ⟨hsizes, _, hall, List.nodup_reverse.2 hnodup, rfl⟩

-- Everything one turn of the reservation loop can do.

section

variable {now stamp blocked maxRows : Nat} {db db' : DB} {identity : ThrottleIdentity} {message : String}

theorem putUsername_eq_ok {key : ThrottleAlias} {row : UsernameRow} (h : putUsername message db key row = .ok db') :
    db' = { db with usernames := db.usernames.put key row } ∧ row.failures ≤ 15 := by
  simp only [putUsername, bind_eq_ok, require_eq_ok, pure_eq_ok] at h
  obtain ⟨-, ⟨hfailures, -, -⟩, hdb⟩ := h
  exact ⟨hdb.symm, hfailures⟩

theorem writeBucket_eq_ok {key : BucketKey} {row : BucketRow} (h : writeBucket message db key row = .ok db') :
    db' = { db with buckets := db.buckets.put key row } ∧ row.failures ≤ row.attempts := by
  simp only [writeBucket, bind_eq_ok, require_eq_ok, pure_eq_ok] at h
  obtain ⟨-, ⟨hfailures, -, -⟩, hdb⟩ := h
  exact ⟨hdb.symm, hfailures⟩

-- A username's turn, once its rows are known: a live block refuses, with or without a merge, and otherwise the
-- attempt is counted as a failure.
inductive CountsUsername (now stamp : Nat) (db : DB) (own key : ThrottleAlias)
    (rows : List (ThrottleAlias × UsernameRow)) (primaryFound : Bool) : ThrottleReservation → DB → Prop where
  | kept (block : Nat) (hlive : liveBlock now rows = some block)
      (hone : key.keyVersion = "overflow" ∨ (primaryFound = true ∧ rows.length ≤ 1)) :
      CountsUsername now stamp db own key rows primaryFound ⟨block, false⟩ (mergeUsernames db own key rows)
  | merged (block : Nat) (hlive : liveBlock now rows = some block) (hkey : key.keyVersion ≠ "overflow") :
      CountsUsername now stamp db own key rows primaryFound ⟨block, false⟩
        { mergeUsernames db own key rows with
          usernames := (mergeUsernames db own key rows).usernames.put key ⟨totalFailures rows, some block, stamp⟩ }
  | counted (hlive : liveBlock now rows = none) :
      CountsUsername now stamp db own key rows primaryFound
        ⟨(usernameBlock now (min 15 (totalFailures rows + 1))).getD 0, true⟩
        { mergeUsernames db own key rows with
          usernames := (mergeUsernames db own key rows).usernames.put key
            ⟨min 15 (totalFailures rows + 1), usernameBlock now (min 15 (totalFailures rows + 1)), stamp⟩ }

theorem countUsername_cases {own key : ThrottleAlias} {rows : List (ThrottleAlias × UsernameRow)} {primaryFound : Bool}
    {reservation : ThrottleReservation}
    (h : countUsername now stamp db own key rows primaryFound = .ok (reservation, db')) :
    CountsUsername now stamp db own key rows primaryFound reservation db' := by
  unfold countUsername at h
  cases hlive : liveBlock now rows with
  | some block =>
      simp only [hlive] at h
      by_cases hput : key.keyVersion ≠ "overflow" ∧ (primaryFound = false ∨ 1 < rows.length)
      · rw [if_pos hput] at h
        simp only [bind_eq_ok, pure_eq_ok, Prod.mk.injEq] at h
        obtain ⟨merged, hmerge, rfl, rfl⟩ := h
        obtain ⟨rfl, -⟩ := putUsername_eq_ok hmerge
        exact .merged block hlive hput.1
      · rw [if_neg hput] at h
        simp only [bind_eq_ok, pure_eq_ok, Prod.mk.injEq] at h
        obtain ⟨merged, rfl, rfl, rfl⟩ := h
        refine .kept block hlive ?_
        by_cases hkey : key.keyVersion = "overflow"
        · exact .inl hkey
        · right
          simp only [ne_eq, hkey, not_false_iff, true_and, not_or, Bool.not_eq_false] at hput
          exact ⟨hput.1, by omega⟩
  | none =>
      simp only [hlive, bind_eq_ok, pure_eq_ok, Prod.mk.injEq] at h
      obtain ⟨counted, hput, hreservation, hdb⟩ := h
      subst hreservation hdb
      obtain ⟨rfl, -⟩ := putUsername_eq_ok hput
      exact .counted hlive

-- Where a username's turn is counted: in the shared row, when there is room for it or it exists, or under its own key.
inductive ReservesUsername (now stamp : Nat) (db : DB) (identity : ThrottleIdentity) (maxRows : Nat) :
    ThrottleReservation → DB → Prop where
  | full (hover : usernameOverflows db identity maxRows = true) (hfull : maxRows ≤ db.throttleRows) :
      ReservesUsername now stamp db identity maxRows ⟨0, false⟩ db
  | overflow {reservation : ThrottleReservation} {db' : DB} (hover : usernameOverflows db identity maxRows = true)
      (hroom : db.usernames.get? overflowKey = none → db.throttleRows < maxRows)
      (hcounts : CountsUsername now stamp db identity.primary overflowKey (lockUsernames now db [overflowKey]) false
        reservation db') : ReservesUsername now stamp db identity maxRows reservation db'
  | own {reservation : ThrottleReservation} {db' : DB} (hover : usernameOverflows db identity maxRows = false)
      (hcounts : CountsUsername now stamp db identity.primary identity.primary
        (lockUsernames now db identity.candidates) (db.usernames.contains identity.primary) reservation db') :
      ReservesUsername now stamp db identity maxRows reservation db'

theorem reserveUsernameThrottle_cases {reservation : ThrottleReservation}
    (h : reserveUsernameThrottle now stamp db identity maxRows = .ok (reservation, db')) :
    ReservesUsername now stamp db identity maxRows reservation db' := by
  unfold reserveUsernameThrottle at h
  by_cases hover : usernameOverflows db identity maxRows = true
  · rw [if_pos hover] at h
    by_cases hfull : maxRows ≤ db.throttleRows ∧ db.usernames.get? overflowKey = none
    · rw [if_pos hfull] at h
      cases h
      exact .full hover hfull.1
    · rw [if_neg hfull] at h
      refine .overflow hover (fun hnone => ?_) (countUsername_cases h)
      by_contra hge
      exact hfull ⟨by omega, hnone⟩
  · rw [if_neg hover] at h
    exact .own (by simpa using hover) (countUsername_cases h)

-- The aliases of an identity are gone and the row of its active key has their counters, or it had no alias row.
inductive Migrates (db : DB) (own : BucketKey) (aliases : List BucketKey) (total : BucketRow) : DB → Prop where
  | none (hnil : aliases = []) : Migrates db own aliases total db
  | moved (row : BucketRow) (hsome : aliases ≠ [])
      (hrow : row = .migrated total ((db.buckets.keep fun key _ => !aliases.contains key).get? own))
      (hcheck : row.failures ≤ row.attempts) :
      Migrates db own aliases total
        { db with buckets := (db.buckets.keep fun key _ => !aliases.contains key).put own row }

theorem migrateAliases_cases {own : BucketKey} {aliases : List BucketKey} {total : BucketRow}
    (h : migrateAliases db own aliases total = .ok db') : Migrates db own aliases total db' := by
  unfold migrateAliases at h
  by_cases hnil : aliases = []
  · rw [if_pos hnil] at h
    cases h
    exact .none hnil
  · rw [if_neg hnil] at h
    obtain ⟨rfl, hcheck⟩ := writeBucket_eq_ok h
    exact .moved _ hnil rfl hcheck

def DB.attemptsIn (db : DB) (key : BucketKey) : Nat := ((db.buckets.get? key).map fun row => row.attempts).getD 0

@[simp] theorem attempts_counted (recovery : Option String) (old : Option BucketRow) :
    (BucketRow.counted recovery old).attempts = (old.map fun row => row.attempts).getD 0 + 1 := by
  cases old with
  | none => rfl
  | some row => rfl

inductive CountsAttempt (kind : ThrottleKind) (db : DB) (key : BucketKey) (attempts : Nat) (recovery : Option String)
    (blocked : Nat) : Turn → DB → Prop where
  | refused (hlimit : throttleLimit kind ≤ attempts) :
      CountsAttempt kind db key attempts recovery blocked (.refused ⟨blocked, false⟩) db
  | counted (hlimit : attempts < throttleLimit kind)
      (hcheck : (BucketRow.counted recovery (db.buckets.get? key)).failures ≤
        (BucketRow.counted recovery (db.buckets.get? key)).attempts) :
      CountsAttempt kind db key attempts recovery blocked (.next blocked)
        { db with buckets := db.buckets.put key (.counted recovery (db.buckets.get? key)) }

theorem countAttempt_cases {kind : ThrottleKind} {key : BucketKey} {attempts : Nat} {recovery : Option String}
    {turn : Turn} (h : countAttempt kind db key attempts recovery blocked = .ok (turn, db')) :
    CountsAttempt kind db key attempts recovery blocked turn db' := by
  unfold countAttempt at h
  by_cases hlimit : throttleLimit kind ≤ attempts
  · rw [if_pos hlimit] at h
    cases h
    exact .refused hlimit
  · rw [if_neg hlimit] at h
    simp only [bind_eq_ok, pure_eq_ok, Prod.mk.injEq] at h
    obtain ⟨written, hwrite, hturn, hdb⟩ := h
    subst hturn hdb
    obtain ⟨rfl, hcheck⟩ := writeBucket_eq_ok hwrite
    exact .counted (by omega) hcheck

-- The turn of a pair, an address or a forwarder, after its aliases were moved.
inductive CountsBucket (now blocked : Nat) (maxRows : Nat) (identity : ThrottleIdentity) (unseen : Prop) (total : Nat)
    (recovery : Option String) (db : DB) : Turn → DB → Prop where
  | refused (until' : Nat) : CountsBucket now blocked maxRows identity unseen total recovery db (.refused ⟨until', false⟩) db
  | overflow {turn : Turn} {db' : DB} (blocked' : Nat) (hunseen : unseen) (hnear : maxRows - 4 ≤ db.throttleRows)
      (hroom : db.buckets.get? (overflowBucket identity.kind (window now)) = none → db.throttleRows < maxRows)
      (hcounts : CountsAttempt identity.kind db (overflowBucket identity.kind (window now))
        (db.attemptsIn (overflowBucket identity.kind (window now))) none blocked' turn db') :
      CountsBucket now blocked maxRows identity unseen total recovery db turn db'
  | own {turn : Turn} {db' : DB} (hroom : unseen → db.throttleRows < maxRows - 4)
      (hcounts : CountsAttempt identity.kind db (ownBucket identity.kind (window now) identity.primary) total recovery
        blocked turn db') :
      CountsBucket now blocked maxRows identity unseen total recovery db turn db'

theorem countOverflow_cases {turn : Turn} {unseen : Prop} {total : Nat} {recovery : Option String} (hunseen : unseen)
    (hnear : maxRows - 4 ≤ db.throttleRows)
    (h : countOverflow now blocked identity.kind (window now) maxRows db = .ok (turn, db')) :
    CountsBucket now blocked maxRows identity unseen total recovery db turn db' := by
  unfold countOverflow at h
  cases hrow : db.buckets.get? (overflowBucket identity.kind (window now)) with
  | none =>
      simp only [hrow] at h
      by_cases hfull : maxRows ≤ db.throttleRows
      · rw [if_pos hfull] at h
        cases h
        exact .refused 0
      · rw [if_neg hfull] at h
        refine .overflow blocked hunseen hnear (fun _ => by omega) ?_
        simpa [DB.attemptsIn, hrow] using countAttempt_cases h
  | some row =>
      simp only [hrow] at h
      split at h
      · cases h
        exact .refused _
      · refine .overflow _ hunseen hnear (fun hnone => ?_) (by simpa [DB.attemptsIn, hrow] using countAttempt_cases h)
        rw [hrow] at hnone
        cases hnone

-- The rows of an identity in a window, and the keys of those that are not under its active key.
def rowsOf (now : Nat) (db : DB) (identity : ThrottleIdentity) : List (ThrottleAlias × BucketRow) :=
  lockBuckets db identity.kind (window now) identity.candidates

def aliasKeysOf (now : Nat) (db : DB) (identity : ThrottleIdentity) : List BucketKey :=
  (lockBuckets db identity.kind (window now) identity.aliases).map fun row =>
    ownBucket identity.kind (window now) row.1

theorem reserveBucket_cases {turn : Turn} (h : reserveBucket now blocked maxRows db identity = .ok (turn, db')) :
    ∃ recovery merged blocked',
      (rowsOf now db identity).foldlM (resolveRecovery identity.kind) (pairRecoveryUserID identity) = .ok recovery ∧
      Migrates db (ownBucket identity.kind (window now) identity.primary) (aliasKeysOf now db identity)
        (bucketTotal (rowsOf now db identity) recovery) merged ∧
      CountsBucket now blocked' maxRows identity (rowsOf now db identity = [])
        (bucketTotal (rowsOf now db identity) recovery).attempts recovery merged turn db' := by
  simp only [reserveBucket, bind_eq_ok] at h
  obtain ⟨recovery, hrecovery, merged, hmerged, h⟩ := h
  refine ⟨recovery, merged, latestBlocked blocked (rowsOf now db identity), hrecovery, migrateAliases_cases hmerged, ?_⟩
  split at h
  · cases h
    exact .refused _
  · split at h
    · rename_i hover
      exact countOverflow_cases hover.1 hover.2 h
    · rename_i hover
      refine .own (fun hunseen => ?_) (countAttempt_cases h)
      by_contra hge
      exact hover ⟨hunseen, by omega⟩

-- One turn of the loop.
theorem reserveIdentity_cases {turn : Turn} (h : reserveIdentity now stamp blocked maxRows db identity = .ok (turn, db')) :
    (identity.kind = .username ∧ ∃ reservation,
      reserveUsernameThrottle now stamp db identity maxRows = .ok (reservation, db') ∧
      ((reservation.allowed = true ∧ turn = .next (max blocked reservation.blockedUntil)) ∨
        (reservation.allowed = false ∧ turn = .refused reservation))) ∨
    (identity.kind ≠ .username ∧ reserveBucket now blocked maxRows db identity = .ok (turn, db')) := by
  unfold reserveIdentity at h
  by_cases hkind : identity.kind = .username
  · rw [if_pos hkind] at h
    simp only [bind_eq_ok] at h
    obtain ⟨⟨reservation, written⟩, hreserve, h⟩ := h
    refine .inl ⟨hkind, reservation, ?_⟩
    by_cases hallowed : reservation.allowed = true
    · rw [if_pos hallowed, pure_eq_ok] at h
      cases h
      exact ⟨hreserve, .inl ⟨hallowed, rfl⟩⟩
    · rw [if_neg hallowed, pure_eq_ok] at h
      cases h
      exact ⟨hreserve, .inr ⟨by simpa using hallowed, rfl⟩⟩
  · rw [if_neg hkind] at h
    exact .inr ⟨hkind, h⟩

-- What every turn keeps, the loop keeps.
theorem reserveAll_preserves {P : DB → Prop} (clock : Clock) (identities : List ThrottleIdentity)
    (hturn : ∀ identity ∈ identities, ∀ stamp blocked db turn db', P db →
      reserveIdentity now stamp blocked maxRows db identity = .ok (turn, db') → P db')
    {reservation : ThrottleReservation} (h : reserveAll now maxRows clock identities blocked db = .ok (reservation, db'))
    (hdb : P db) : P db' := by
  induction identities generalizing clock blocked db with
  | nil =>
      simp only [reserveAll] at h
      cases h
      exact hdb
  | cons identity rest ih =>
      simp only [reserveAll, bind_eq_ok] at h
      obtain ⟨⟨turn, next⟩, hfirst, h⟩ := h
      have hnext := hturn identity (by simp) _ _ _ _ _ hdb hfirst
      cases turn with
      | refused r =>
          simp only [pure_eq_ok, Prod.mk.injEq] at h
          exact h.2 ▸ hnext
      | next blocked' =>
          exact ih _ (fun other hmem => hturn other (List.mem_cons_of_mem _ hmem)) h hnext

end

end AutoDeploy.Auth
