import AutoDeploy.Auth.Built
import AutoDeploy.Auth.Capacity

namespace AutoDeploy.Auth

open Lib Lib.Result

section

variable {now stamp blocked maxRows : Nat} {db db' merged : DB} {identity : ThrottleIdentity}

theorem lockBuckets_cons {kind : ThrottleKind} {start : Nat} {key : ThrottleAlias} {keys : List ThrottleAlias} :
    lockBuckets db kind start (key :: keys) =
      ((db.buckets.get? (ownBucket kind start key)).map fun row => (key, row)).toList ++ lockBuckets db kind start keys := by
  simp only [lockBuckets, List.filterMap_cons]
  cases db.buckets.get? (ownBucket kind start key) with
  | none => rfl
  | some row => rfl

-- Moving aliases changes no total: the row of the active key then counts what all of them counted.
theorem Migrates.attemptsIn_own {recovery : Option String}
    (h : Migrates db (ownBucket identity.kind (window now) identity.primary) (aliasKeysOf now db identity)
      (bucketTotal (rowsOf now db identity) recovery) merged) :
    merged.attemptsIn (ownBucket identity.kind (window now) identity.primary) =
      (bucketTotal (rowsOf now db identity) recovery).attempts := by
  cases h with
  | none hnil =>
      have hnone : lockBuckets db identity.kind (window now) identity.aliases = [] := by
        simpa [aliasKeysOf] using hnil
      simp only [DB.attemptsIn, bucketTotal, rowsOf, ThrottleIdentity.candidates, lockBuckets_cons, hnone,
        List.append_nil]
      cases db.buckets.get? (ownBucket identity.kind (window now) identity.primary) with
      | none => rfl
      | some row => simp
  | moved row _ hrow _ =>
      simp only [DB.attemptsIn, Table.get?_put_self, Option.map_some, Option.getD_some, hrow]
      cases (db.buckets.keep fun key _ => !(aliasKeysOf now db identity).contains key).get?
          (ownBucket identity.kind (window now) identity.primary) with
      | none => rfl
      | some old => rfl

-- No bucket is tagged with a user, and no bucket counts more failures than attempts.
def DB.Untagged (db : DB) : Prop :=
  ∀ key row, db.buckets.get? key = some row → row.recoveryUserID = none ∧ row.failures ≤ row.attempts

theorem resolveRecovery_untagged {kind : ThrottleKind} {rows : List (ThrottleAlias × BucketRow)}
    (h : ∀ row ∈ rows, row.2.recoveryUserID = none) (resolved : Option String) :
    rows.foldlM (resolveRecovery kind) resolved = .ok resolved := by
  induction rows with
  | nil => rfl
  | cons row rest ih =>
      have hfirst : resolveRecovery kind resolved row = .ok resolved := if_neg (by simp [h row (by simp)])
      rw [List.foldlM_cons, hfirst]
      exact ih fun row' hmem => h row' (List.mem_cons_of_mem _ hmem)

theorem DB.Untagged.rows (h : db.Untagged) {row : ThrottleAlias × BucketRow} (hmem : row ∈ rowsOf now db identity) :
    row.2.recoveryUserID = none ∧ row.2.failures ≤ row.2.attempts :=
  h _ _ (mem_lockBuckets.1 hmem).2

theorem bucketTotal_failures_le {rows : List (ThrottleAlias × BucketRow)} {recovery : Option String}
    (h : ∀ row ∈ rows, row.2.failures ≤ row.2.attempts) :
    (bucketTotal rows recovery).failures ≤ (bucketTotal rows recovery).attempts := by
  simp only [bucketTotal]
  induction rows with
  | nil => exact Nat.le_refl _
  | cons row rest ih =>
      have hfirst := h row (by simp)
      have hrest := ih fun row' hmem => h row' (List.mem_cons_of_mem _ hmem)
      simp only [List.map_cons, List.sum_cons]
      omega

theorem writeBucket_of_check {message : String} {key : BucketKey} {row : BucketRow} (hfailures : row.failures ≤ row.attempts)
    (hattempts : row.attempts ≤ 2147483647) (htag : row.recoveryUserID = none) :
    writeBucket message db key row = .ok { db with buckets := db.buckets.put key row } := by
  unfold writeBucket
  rw [require_pos ⟨hfailures, hattempts, by simp [htag]⟩]
  rfl

theorem DB.Untagged.put (h : db.Untagged) {key : BucketKey} {row : BucketRow} (hfailures : row.failures ≤ row.attempts)
    (htag : row.recoveryUserID = none) : ({ db with buckets := db.buckets.put key row } : DB).Untagged := by
  intro key' row' hrow
  obtain ⟨-, rfl⟩ | hold := Table.get?_put_cases hrow
  · exact ⟨htag, hfailures⟩
  · exact h key' row' hold

theorem DB.Untagged.keep (h : db.Untagged) {p : BucketKey → BucketRow → Bool} :
    ({ db with buckets := db.buckets.keep p } : DB).Untagged := by
  intro key row hrow
  rw [Table.get?_keep, Option.filter_eq_some_iff] at hrow
  exact h key row hrow.1

theorem migrated_untagged {total : BucketRow} {old : Option BucketRow} (htotal : total.recoveryUserID = none)
    (hold : ∀ row ∈ old, row.recoveryUserID = none) : (BucketRow.migrated total old).recoveryUserID = none := by
  cases old with
  | none => exact htotal
  | some row => simp [BucketRow.migrated, htotal, hold row rfl]

@[simp] theorem migrated_attempts {total : BucketRow} {old : Option BucketRow} :
    (BucketRow.migrated total old).attempts = total.attempts := by
  cases old with
  | none => rfl
  | some row => rfl

@[simp] theorem migrated_failures {total : BucketRow} {old : Option BucketRow} :
    (BucketRow.migrated total old).failures = total.failures := by
  cases old with
  | none => rfl
  | some row => rfl

-- With no tag in the way and counters in range, aliases always move.
theorem migrateAliases_of_untagged (own : BucketKey) (aliases : List BucketKey) {total : BucketRow} (hdb : db.Untagged)
    (hfailures : total.failures ≤ total.attempts) (hattempts : total.attempts ≤ 2147483647)
    (htag : total.recoveryUserID = none) :
    ∃ merged, migrateAliases db own aliases total = .ok merged ∧ merged.Untagged ∧ merged.usernames = db.usernames ∧
      ∀ key, key ≠ own → key ∉ aliases → merged.buckets.get? key = db.buckets.get? key := by
  unfold migrateAliases
  by_cases hnil : aliases = []
  · rw [if_pos hnil]
    exact ⟨db, rfl, hdb, rfl, fun _ _ _ => rfl⟩
  · rw [if_neg hnil]
    have hkept : ({ db with buckets := db.buckets.keep fun key _ => !aliases.contains key } : DB).Untagged := hdb.keep
    have htag' : (BucketRow.migrated total
        ((db.buckets.keep fun key _ => !aliases.contains key).get? own)).recoveryUserID = none :=
      migrated_untagged htag fun row hrow => (hkept own row hrow).1
    refine ⟨_, writeBucket_of_check (by simpa using hfailures) (by simpa using hattempts) htag',
      hkept.put (by simpa using hfailures) htag', rfl, fun key hne hnot => ?_⟩
    simp only [Table.get?_put, if_neg hne, Table.get?_keep]
    cases db.buckets.get? key with
    | none => rfl
    | some row => simp [hnot]

theorem latestBlocked_le {rows : List (ThrottleAlias × BucketRow)} (hblocked : blocked ≤ now)
    (h : ∀ row ∈ rows, row.2.blockedUntil.getD 0 ≤ now) : latestBlocked blocked rows ≤ now := by
  unfold latestBlocked
  induction rows generalizing blocked with
  | nil => exact hblocked
  | cons row rest ih =>
      refine ih ?_ fun row' hmem => h row' (List.mem_cons_of_mem _ hmem)
      exact Nat.max_le.2 ⟨hblocked, h row (by simp)⟩

theorem le_latestBlocked (blocked : Nat) (rows : List (ThrottleAlias × BucketRow)) : blocked ≤ latestBlocked blocked rows := by
  unfold latestBlocked
  induction rows generalizing blocked with
  | nil => exact Nat.le_refl _
  | cons row rest ih => exact (Nat.le_max_left _ _).trans (ih _)

-- A turn that starts with a live block never lets the attempt through.
theorem reserveBucket_blocked {turn : Turn} (hlive : now < blocked)
    (h : reserveBucket now blocked maxRows db identity = .ok (turn, db')) : ∃ r, turn = .refused ⟨r, false⟩ := by
  simp only [reserveBucket, bind_eq_ok] at h
  obtain ⟨recovery, -, merged, -, h⟩ := h
  rw [if_pos (lt_of_lt_of_le hlive (le_latestBlocked _ _)), pure_eq_ok] at h
  cases h
  exact ⟨_, rfl⟩

theorem throttleLimit_le (kind : ThrottleKind) : throttleLimit kind ≤ 20 := by
  unfold throttleLimit
  split <;> omega

theorem counted_untagged {old : Option BucketRow} (hold : ∀ row ∈ old, row.recoveryUserID = none) :
    (BucketRow.counted none old).recoveryUserID = none := by
  cases old with
  | none => rfl
  | some row => simp [BucketRow.counted, hold row rfl]

theorem counted_failures_le (recovery : Option String) {old : Option BucketRow}
    (hold : ∀ row ∈ old, row.failures ≤ row.attempts) :
    (BucketRow.counted recovery old).failures ≤ (BucketRow.counted recovery old).attempts := by
  cases old with
  | none => exact Nat.le_refl _
  | some row => simpa [BucketRow.counted] using hold row rfl

-- A pair or an address with attempts left and no live block is counted and the next identity looked at.
theorem reserveBucket_counts (hdb : db.Untagged) (htag : identity.recoveryUserID = "") (hblocked : blocked ≤ now)
    (hopen : ∀ row ∈ rowsOf now db identity, row.2.blockedUntil.getD 0 ≤ now)
    (hlimit : (bucketTotal (rowsOf now db identity) none).attempts < throttleLimit identity.kind)
    (hroom : db.throttleRows < maxRows - 4) :
    ∃ blocked' db', reserveBucket now blocked maxRows db identity = .ok (.next blocked', db') ∧ blocked' ≤ now ∧
      db'.Untagged ∧ db'.usernames = db.usernames ∧ db'.throttleRows ≤ db.throttleRows + 1 ∧
      ∀ key, key.kind ≠ .own identity.kind → db'.buckets.get? key = db.buckets.get? key := by
  have hsmall := throttleLimit_le identity.kind
  have hrecovery : (rowsOf now db identity).foldlM (resolveRecovery identity.kind) (pairRecoveryUserID identity) =
      .ok none := by
    have hnone : pairRecoveryUserID identity = none := if_pos (.inr htag)
    rw [hnone]
    exact resolveRecovery_untagged (fun row hmem => (hdb.rows hmem).1) none
  have hfailures : (bucketTotal (rowsOf now db identity) none).failures ≤
      (bucketTotal (rowsOf now db identity) none).attempts :=
    bucketTotal_failures_le fun row hmem => (hdb.rows hmem).2
  have hbound : (bucketTotal (rowsOf now db identity) none).attempts ≤ 2147483647 := by omega
  obtain ⟨merged, hmigrate, hmerged, husernames, hframe⟩ := migrateAliases_of_untagged
    (ownBucket identity.kind (window now) identity.primary) (aliasKeysOf now db identity) hdb hfailures hbound rfl
  have hcases := migrateAliases_cases hmigrate
  have hattempts := hcases.attemptsIn_own
  have hrows : merged.throttleRows ≤ db.throttleRows := by
    refine hcases.throttleRows_le fun key hkey => ?_
    obtain ⟨-, -, -, hsome⟩ := mem_aliasKeysOf.1 hkey
    exact hsome
  have hunblocked : ¬ now < latestBlocked blocked (rowsOf now db identity) := by
    have := latestBlocked_le hblocked hopen
    omega
  -- The upsert of the active row passes the checks of the table.
  have hcount := counted_failures_le none (fun row hrow =>
    (hmerged (ownBucket identity.kind (window now) identity.primary) row hrow).2)
  have htagged := counted_untagged (fun row hrow =>
    (hmerged (ownBucket identity.kind (window now) identity.primary) row hrow).1)
  have hrange : (BucketRow.counted none
      (merged.buckets.get? (ownBucket identity.kind (window now) identity.primary))).attempts ≤ 2147483647 := by
    rw [attempts_counted]
    simp only [DB.attemptsIn] at hattempts
    omega
  have hover : ¬ (rowsOf now db identity = [] ∧ maxRows - 4 ≤ merged.throttleRows) := by
    rintro ⟨-, hfull⟩
    omega
  refine ⟨latestBlocked blocked (rowsOf now db identity),
    { merged with
      buckets := merged.buckets.put (ownBucket identity.kind (window now) identity.primary)
        (.counted none (merged.buckets.get? (ownBucket identity.kind (window now) identity.primary))) },
    ?_, by omega, ?_, ?_, ?_, ?_⟩
  · simp only [rowsOf, aliasKeysOf] at hrecovery hmigrate hunblocked hover hlimit ⊢
    simp only [reserveBucket, hrecovery, ok_bind, hmigrate, if_neg hunblocked, if_neg hover, countAttempt]
    rw [if_neg (by omega), writeBucket_of_check hcount hrange htagged]
    rfl
  · exact hmerged.put hcount htagged
  · exact husernames
  · have := Table.size_put_le merged.buckets (ownBucket identity.kind (window now) identity.primary)
      (.counted none (merged.buckets.get? (ownBucket identity.kind (window now) identity.primary)))
    simp only [DB.throttleRows] at hrows ⊢
    omega
  · intro key hkind
    have hown : key ≠ ownBucket identity.kind (window now) identity.primary := by
      rintro rfl
      exact hkind rfl
    have halias : key ∉ aliasKeysOf now db identity := by
      intro hmem
      obtain ⟨k, -, rfl, -⟩ := mem_aliasKeysOf.1 hmem
      exact hkind rfl
    simp only [Table.get?_put, if_neg hown]
    exact hframe key hown halias

theorem liveBlock_eq_none {rows : List (ThrottleAlias × UsernameRow)} (h : ∀ row ∈ rows, row.2.live now = false) :
    liveBlock now rows = none := by
  unfold liveBlock
  induction rows with
  | nil => rfl
  | cons row rest ih =>
      rw [List.foldl_cons, if_neg (by simp [h row (by simp)])]
      exact ih fun row' hmem => h row' (List.mem_cons_of_mem _ hmem)

theorem live_current {row : UsernameRow} (h : row.live now = false) : (row.current now).live now = false := by
  unfold UsernameRow.current
  split
  · rfl
  · exact h

theorem mem_lockUsernames {keys : List ThrottleAlias} {entry : ThrottleAlias × UsernameRow} :
    entry ∈ lockUsernames now db keys ↔
      entry.1 ∈ keys ∧ ∃ row, db.usernames.get? entry.1 = some row ∧ entry.2 = row.current now := by
  obtain ⟨key, current⟩ := entry
  simp only [lockUsernames, List.mem_filterMap, Option.map_eq_some_iff, Prod.mk.injEq]
  constructor
  · rintro ⟨key', hmem, row, hrow, rfl, rfl⟩
    exact ⟨hmem, row, hrow, rfl⟩
  · rintro ⟨hmem, row, hrow, rfl⟩
    exact ⟨key, hmem, row, hrow, rfl, rfl⟩

theorem usernameOverflows_of_room (identity : ThrottleIdentity) (hroom : db.throttleRows < maxRows - 4) :
    usernameOverflows db identity maxRows = false := by
  rw [usernameOverflows, Bool.and_eq_false_iff, decide_eq_false_iff_not]
  exact .inr (by omega)

-- A username without a live block: below nine failures the attempt is counted and nothing is blocked; from the ninth on
-- the failure just counted sets a block.
theorem reserveUsernameThrottle_counts (hvalid : identity.primary.Valid)
    (hlive : ∀ key ∈ identity.candidates, ∀ row, db.usernames.get? key = some row → row.live now = false)
    (hroom : db.throttleRows < maxRows - 4)
    (hfew : totalFailures (lockUsernames now db identity.candidates) < 9) :
    ∃ db', reserveUsernameThrottle now stamp db identity maxRows = .ok (⟨0, true⟩, db') ∧ db'.buckets = db.buckets ∧
      db'.throttleRows ≤ db.throttleRows + 1 := by
  have hover := usernameOverflows_of_room identity hroom
  have hnone : liveBlock now (lockUsernames now db identity.candidates) = none := by
    refine liveBlock_eq_none fun entry hmem => ?_
    obtain ⟨hkey, row, hrow, hcurrent⟩ := mem_lockUsernames.1 hmem
    rw [hcurrent]
    exact live_current (hlive _ hkey row hrow)
  have hblock : usernameBlock now (min 15 (totalFailures (lockUsernames now db identity.candidates) + 1)) = none :=
    if_neg (by omega)
  have hput : ∀ message merged stamp failures, failures ≤ 15 →
      putUsername message merged identity.primary ⟨failures, none, stamp⟩ =
        .ok { merged with usernames := merged.usernames.put identity.primary ⟨failures, none, stamp⟩ } := by
    intro message merged stamp failures hfailures
    unfold putUsername
    rw [require_pos ⟨hfailures, ⟨fun h => absurd h hvalid.2.1, fun h => absurd h hvalid.2.2⟩, by simp⟩]
    rfl
  refine ⟨{ mergeUsernames db identity.primary identity.primary (lockUsernames now db identity.candidates) with
    usernames := (mergeUsernames db identity.primary identity.primary
      (lockUsernames now db identity.candidates)).usernames.put identity.primary
        ⟨min 15 (totalFailures (lockUsernames now db identity.candidates) + 1), none, stamp⟩ }, ?_, ?_, ?_⟩
  · simp only [reserveUsernameThrottle, hover, Bool.false_eq_true, if_false, countUsername, hnone, hblock]
    rw [hput _ _ _ _ (Nat.min_le_left _ _)]
    rfl
  · exact mergeUsernames_buckets
  · exact throttleRows_putUsername_le.trans (Nat.succ_le_succ throttleRows_mergeUsernames_le)

theorem reserveUsernameThrottle_blocks {reservation : ThrottleReservation}
    (hroom : db.throttleRows < maxRows - 4)
    (hmany : 9 ≤ totalFailures (lockUsernames now db identity.candidates))
    (h : reserveUsernameThrottle now stamp db identity maxRows = .ok (reservation, db'))
    (hallowed : reservation.allowed = true) : now < reservation.blockedUntil := by
  have hover := usernameOverflows_of_room identity hroom
  cases reserveUsernameThrottle_cases h with
  | full hfull _ => simp [hover] at hfull
  | overflow hfull _ _ => simp [hover] at hfull
  | own _ hcounts =>
      cases hcounts with
      | kept _ _ _ => simp at hallowed
      | merged _ _ _ => simp at hallowed
      | counted _ =>
          have hten : 10 ≤ min 15 (totalFailures (lockUsernames now db identity.candidates) + 1) := by omega
          simp only [usernameBlock, if_pos hten, Option.getD_some, usernameDelay, minutes]
          have : 0 < 30000000 * 2 ^ min (min 15 (totalFailures (lockUsernames now db identity.candidates) + 1) - 10) 5 :=
            Nat.mul_pos (by omega) (Nat.pow_pos (by omega))
          omega

theorem CountsAttempt.untagged {kind : ThrottleKind} {key : BucketKey} {attempts : Nat} {turn : Turn}
    (h : CountsAttempt kind db key attempts none blocked turn db') (hdb : db.Untagged) : db'.Untagged := by
  cases h with
  | refused _ => exact hdb
  | counted _ hcheck => exact hdb.put hcheck (counted_untagged fun row hrow => (hdb key row hrow).1)

theorem reserveBucket_untagged {turn : Turn} (htag : identity.recoveryUserID = "")
    (h : reserveBucket now blocked maxRows db identity = .ok (turn, db')) (hdb : db.Untagged) : db'.Untagged := by
  obtain ⟨recovery, merged, blocked', hrecovery, hmigrates, hcounts⟩ := reserveBucket_cases h
  have hnone : pairRecoveryUserID identity = none := if_pos (.inr htag)
  rw [hnone, resolveRecovery_untagged (fun row hmem => (hdb.rows hmem).1) none] at hrecovery
  cases hrecovery
  have hmerged : merged.Untagged := by
    cases hmigrates with
    | none _ => exact hdb
    | moved row _ hrow hcheck =>
        refine DB.Untagged.put (hdb.keep) hcheck ?_
        rw [hrow]
        exact migrated_untagged rfl fun old hold => (hdb.keep _ old hold).1
  cases hcounts with
  | refused _ => exact hmerged
  | overflow _ _ _ _ hattempt => exact hattempt.untagged hmerged
  | own _ hattempt => exact hattempt.untagged hmerged

theorem CountsUsername.buckets_eq {own key : ThrottleAlias} {rows : List (ThrottleAlias × UsernameRow)}
    {primaryFound : Bool} {reservation : ThrottleReservation}
    (h : CountsUsername now stamp db own key rows primaryFound reservation db') : db'.buckets = db.buckets := by
  cases h with
  | kept _ _ _ => exact mergeUsernames_buckets
  | merged _ _ _ => exact mergeUsernames_buckets
  | counted _ => exact mergeUsernames_buckets

theorem ReservesUsername.buckets_eq {reservation : ThrottleReservation}
    (h : ReservesUsername now stamp db identity maxRows reservation db') : db'.buckets = db.buckets := by
  cases h with
  | full _ _ => rfl
  | overflow _ _ hcounts => exact hcounts.buckets_eq
  | own _ hcounts => exact hcounts.buckets_eq

theorem DB.Untagged.of_buckets (h : db.Untagged) (heq : db'.buckets = db.buckets) : db'.Untagged := by
  intro key row hrow
  rw [heq] at hrow
  exact h key row hrow

theorem reserveIdentity_untagged {turn : Turn} (htag : identity.recoveryUserID = "") (hdb : db.Untagged)
    (h : reserveIdentity now stamp blocked maxRows db identity = .ok (turn, db')) : db'.Untagged := by
  obtain ⟨-, reservation, hreserve, -⟩ | ⟨-, hbucket⟩ := reserveIdentity_cases h
  · exact hdb.of_buckets (reserveUsernameThrottle_cases hreserve).buckets_eq
  · exact reserveBucket_untagged htag hbucket hdb

theorem clearIdentities_untagged {mine : BucketRow → Bool} (identities : List ThrottleIdentity) (hdb : db.Untagged) :
    (identities.foldl (clearIdentity mine) db).Untagged := by
  induction identities generalizing db with
  | nil => exact hdb
  | cons identity rest ih =>
      refine ih ?_
      unfold clearIdentity
      split
      · exact hdb.keep
      · exact hdb.of_buckets rfl
      · exact hdb

end

-- The handler names no user when it reserves: who is known is looked up afterwards.
def Anonymous (identities : List ThrottleIdentity) : Prop := ∀ identity ∈ identities, identity.recoveryUserID = ""

theorem ThrottleCall.untagged {db db' : DB} (h : ThrottleCall Anonymous db db') (hdb : db.Untagged) : db'.Untagged := by
  cases h with
  | reserve clock identities maxRows reservation hmay h =>
      simp only [reserveThrottle, bind_eq_ok] at h
      obtain ⟨-, -, -, -, h⟩ := h
      refine reserveAll_preserves (P := DB.Untagged) _ identities (fun identity hmem _ _ _ _ _ hdb hturn => ?_) h
        (hdb.of_buckets rfl)
      exact reserveIdentity_untagged (hmay identity hmem) hdb hturn
  | finalize successful identities h =>
      simp only [finalizeThrottle, bind_eq_ok] at h
      obtain ⟨-, -, h⟩ := h
      cases successful with
      | true =>
          simp only [if_true, pure_eq_ok] at h
          exact h ▸ clearIdentities_untagged identities hdb
      | false =>
          simp only [Bool.false_eq_true, if_false, pure_eq_ok] at h
          exact h ▸ hdb
  | login clock input session h =>
      obtain ⟨user, hlogin⟩ := completeLogin_cases h
      obtain ⟨recorded, mine, hsame, rfl⟩ := hlogin.cleared
      exact clearIdentities_untagged _ (hdb.of_buckets hsame.2.1)
  | reset moments userID auditID verifier digests h =>
      obtain ⟨user, hreset⟩ := resetPassword_cases h
      obtain ⟨recorded, hsame, hcleared⟩ := hreset.cleared
      refine DB.Untagged.of_buckets ?_ hcleared.2.1
      exact DB.Untagged.keep (hdb.of_buckets hsame.2.1)
  | cleanup clock clock' place place' limit deleted h =>
      simp only [cleanupThrottle, bind_eq_ok, pure_eq_ok, Prod.mk.injEq] at h
      obtain ⟨-, -, -, rfl⟩ := h
      exact DB.Untagged.of_buckets hdb.keep rfl
  | elsewhere h => exact hdb.of_buckets h.2.1

theorem untagged_of_reachable {db : DB} (h : (throttling Anonymous).Reachable db) : db.Untagged := by
  refine h.invariant (P := DB.Untagged) (fun start hstart => ?_)
    fun before after hbefore (hcall : ThrottleCall Anonymous before after) => hcall.untagged hbefore
  intro key row hrow
  have hrows : start.buckets.rows = [] := by
    have hzero : start.buckets.rows.length + start.usernames.rows.length = 0 := hstart.2
    exact List.length_eq_zero_iff.1 (by omega)
  have hmem := (Table.mem_rows_iff _ _ _).2 hrow
  simp [hrows] at hmem

end AutoDeploy.Auth
