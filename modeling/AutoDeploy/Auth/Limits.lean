import AutoDeploy.Auth.Refusals
import Mathlib.Algebra.BigOperators.Group.Finset.Piecewise

namespace AutoDeploy.Auth

open Lib Lib.Result

-- The turns a reservation takes, each with the state it starts in.
def turnsOf (now : Nat) (maxRows : Nat) : Clock → List ThrottleIdentity → Nat → DB → List (ThrottleIdentity × DB)
  | _, [], _, _ => []
  | clock, identity :: rest, blocked, db =>
      (identity, db) :: match reserveIdentity now (clock 0) blocked maxRows db identity with
        | .ok (.next blocked', db') => turnsOf now maxRows (fun n => clock (n + 1)) rest blocked' db'
        | _ => []

-- One username/client pair or one client address: its kind and every key it has under some version.
structure Client where
  kind : ThrottleKind
  keys : Finset ThrottleAlias

namespace Client

variable (client : Client)

-- The identity counts this client: all its keys are the client's.
def owns (identity : ThrottleIdentity) : Bool :=
  decide (identity.kind = client.kind) && identity.candidates.all fun key => decide (key ∈ client.keys)

-- The identity has nothing to do with this client.
def ignores (identity : ThrottleIdentity) : Bool :=
  decide (identity.kind ≠ client.kind) || identity.candidates.all fun key => decide (key ∉ client.keys)

def bucket (start : Nat) (key : ThrottleAlias) : BucketKey := ownBucket client.kind start key

def overflow (start : Nat) : BucketKey := overflowBucket client.kind start

-- All attempts counted under the client's keys in one window.
def attempts (start : Nat) (db : DB) : Nat := ∑ key ∈ client.keys, db.attemptsIn (client.bucket start key)

end Client

inductive LimitCall where
  | reserve (clock : Clock) (ids : List ThrottleIdentity) (maxRows : Nat)
  | cleanup (ended : Nat) (clock : Readings BucketKey) (clock' : Readings ThrottleAlias) (place : BucketKey → Nat)
      (place' : ThrottleAlias → Nat) (limit : Nat)

-- The database with what is remembered of one client in one window: the keys it was active under, whether an allowed
-- reservation was counted in the overflow bucket, how many were allowed, and the last reading of the clock.
structure Watch where
  db : DB
  used : List ThrottleAlias
  shared : Bool
  allowed : Nat
  time : Nat

namespace Watch

variable (client : Client) (start : Nat)

-- The client's turns of a reservation.
def turns (w : Watch) (clock : Clock) (ids : List ThrottleIdentity) (maxRows : Nat) : List (ThrottleIdentity × DB) :=
  (turnsOf (clock 0) maxRows (fun n => clock (n + 1)) ids 0 { w.db with maxRows := some maxRows }).filter fun turn =>
    client.owns turn.1

-- No row of the client is found and the table is nearly full: the turn goes to the overflow bucket.
def overflows (now maxRows : Nat) (turn : ThrottleIdentity × DB) : Bool :=
  decide (rowsOf now turn.2 turn.1 = [] ∧ maxRows - 4 ≤ turn.2.throttleRows)

def step (w : Watch) : LimitCall → Watch
  | .reserve clock ids maxRows =>
      match reserveThrottle clock w.db ids maxRows with
      | .error _ => w
      | .ok (reservation, db) =>
          if window (clock 0) = start ∧ ids.any client.owns then
            { db
              used := (ids.filter client.owns).map ThrottleIdentity.primary ++ w.used
              shared := w.shared || (reservation.allowed && (w.turns client clock ids maxRows).any (overflows (clock 0) maxRows))
              allowed := if reservation.allowed then w.allowed + 1 else w.allowed
              time := clock 0 }
          else { w with db, time := clock 0 }
  | .cleanup ended clock clock' place place' limit =>
      match cleanupThrottle clock clock' place place' w.db limit with
      | .error _ => w
      | .ok (_, db) => { w with db, time := ended }

-- The clock does not go back, and by its end a cleanup has compared the window of every bucket. An identity is the
-- client's or has nothing to do with it; at most one of a reservation is the client's, and it lists every key the client
-- was active under in this window.
def Fair (w : Watch) : LimitCall → Prop
  | .reserve clock ids _ =>
      w.time ≤ clock 0 ∧ (∀ identity ∈ ids, client.owns identity = true ∨ client.ignores identity = true) ∧
        (ids.filter client.owns).length ≤ 1 ∧
        ∀ identity ∈ ids, client.owns identity = true → ∀ key ∈ w.used, key ∈ identity.candidates
  | .cleanup ended clock _ _ _ _ => w.time ≤ ended ∧ ∀ bucket ∈ w.db.buckets.rows, clock.first bucket.1 ≤ ended

-- A client whose allowed reservations were counted in the overflow bucket gets no row of its own in the same window.
def Settled (w : Watch) : LimitCall → Prop
  | .reserve clock ids maxRows => window (clock 0) = start → ∀ turn ∈ w.turns client clock ids maxRows,
      rowsOf (clock 0) turn.2 turn.1 = [] → turn.2.throttleRows < maxRows - 4 → w.shared = false
  | .cleanup _ _ _ _ _ _ => True

end Watch

-- The runs of reservations and cleanups, as the client's window sees them; `keeps` is what every call meets.
def limiting (client : Client) (start : Nat) (keeps : Watch → LimitCall → Prop) : System Watch where
  initial w := (w.db.maxRows = none ∧ w.db.throttleRows = 0) ∧ w.used = [] ∧ w.shared = false ∧ w.allowed = 0
  next w w' := ∃ call, w.Fair client call ∧ keeps w call ∧ w' = w.step client start call

section

variable {now stamp blocked maxRows start : Nat} {db db' merged : DB} {identity : ThrottleIdentity} {client : Client}
  {turn : Turn} {other : BucketKey}

theorem CountsAttempt.frame {kind : ThrottleKind} {key : BucketKey} {attempts : Nat} {recovery : Option String}
    (h : CountsAttempt kind db key attempts recovery blocked turn db') (hne : other ≠ key) :
    db'.buckets.get? other = db.buckets.get? other := by
  cases h with
  | refused _ => rfl
  | counted _ _ => simp only [Table.get?_put, if_neg hne]

theorem Migrates.frame {own : BucketKey} {aliases : List BucketKey} {total : BucketRow}
    (h : Migrates db own aliases total merged) (hown : other ≠ own) (halias : other ∉ aliases) :
    merged.buckets.get? other = db.buckets.get? other := by
  cases h with
  | none _ => rfl
  | moved row _ _ _ =>
      simp only [Table.get?_put, if_neg hown, Table.get?_keep]
      cases db.buckets.get? other with
      | none => rfl
      | some row => simp [halias]

-- A turn writes its own row, its aliases and the overflow bucket of its kind, all in the current window.
theorem reserveBucket_frame (h : reserveBucket now blocked maxRows db identity = .ok (turn, db'))
    (hown : other ≠ ownBucket identity.kind (window now) identity.primary) (halias : other ∉ aliasKeysOf now db identity)
    (hover : other ≠ overflowBucket identity.kind (window now)) :
    db'.buckets.get? other = db.buckets.get? other := by
  obtain ⟨recovery, merged, blocked', -, hmigrates, hcounts⟩ := reserveBucket_cases h
  have hmerged := hmigrates.frame hown halias
  cases hcounts with
  | refused _ => exact hmerged
  | overflow _ _ _ _ hattempt => exact (hattempt.frame hover).trans hmerged
  | own _ hattempt => exact (hattempt.frame hown).trans hmerged

theorem reserveIdentity_buckets (h : reserveIdentity now stamp blocked maxRows db identity = .ok (turn, db')) :
    (identity.kind = .username ∧ db'.buckets = db.buckets) ∨
      (identity.kind ≠ .username ∧ reserveBucket now blocked maxRows db identity = .ok (turn, db')) := by
  obtain ⟨hkind, reservation, hreserve, -⟩ | hbucket := reserveIdentity_cases h
  · exact .inl ⟨hkind, (reserveUsernameThrottle_cases hreserve).buckets_eq⟩
  · exact .inr hbucket

theorem reserveIdentity_other_window (hwindow : other.window ≠ window now)
    (h : reserveIdentity now stamp blocked maxRows db identity = .ok (turn, db')) :
    db'.buckets.get? other = db.buckets.get? other := by
  rcases reserveIdentity_buckets h with ⟨-, hsame⟩ | ⟨-, hbucket⟩
  · rw [hsame]
  · refine reserveBucket_frame hbucket ?_ (fun hmem => ?_) ?_
    · rintro rfl
      exact hwindow rfl
    · obtain ⟨k, -, rfl, -⟩ := mem_aliasKeysOf.1 hmem
      exact hwindow rfl
    · rintro rfl
      exact hwindow rfl

-- A turn that has nothing to do with a client leaves the client's rows alone.
theorem reserveIdentity_ignores (hignores : client.ignores identity = true) {key : ThrottleAlias}
    (hkey : key ∈ client.keys) (h : reserveIdentity now stamp blocked maxRows db identity = .ok (turn, db')) :
    db'.buckets.get? (client.bucket start key) = db.buckets.get? (client.bucket start key) := by
  simp only [Client.ignores, Bool.or_eq_true, decide_eq_true_eq, List.all_eq_true] at hignores
  have hlisted : identity.kind = client.kind → key ∉ identity.candidates := by
    intro hkind hmem
    rcases hignores with hne | hnone
    · exact hne hkind
    · exact hnone key hmem hkey
  rcases reserveIdentity_buckets h with ⟨-, hsame⟩ | ⟨-, hbucket⟩
  · rw [hsame]
  · refine reserveBucket_frame hbucket (fun heq => ?_) (fun hmem => ?_) (by simp [Client.bucket, ownBucket, overflowBucket])
    · simp only [Client.bucket, ownBucket, BucketKey.mk.injEq, BucketKind.own.injEq] at heq
      exact hlisted heq.1.symm (heq.2.1 ▸ List.mem_cons_self)
    · obtain ⟨k, hk, heq, -⟩ := mem_aliasKeysOf.1 hmem
      simp only [Client.bucket, ownBucket, BucketKey.mk.injEq, BucketKind.own.injEq] at heq
      exact hlisted heq.1.symm (heq.2.1 ▸ List.mem_cons_of_mem _ hk)

theorem attemptsIn_congr {key : BucketKey} (h : db'.buckets.get? key = db.buckets.get? key) :
    db'.attemptsIn key = db.attemptsIn key := by
  simp only [DB.attemptsIn, h]

theorem attemptsIn_put_counted {key : BucketKey} {recovery : Option String} :
    ({ db with buckets := db.buckets.put key (.counted recovery (db.buckets.get? key)) } : DB).attemptsIn other =
      db.attemptsIn other + if other = key then 1 else 0 := by
  by_cases hother : other = key
  · subst hother
    simp [DB.attemptsIn]
  · simp [DB.attemptsIn, Table.get?_put, hother]

-- The overflow bucket of a kind only grows, and never past the limit.
theorem reserveIdentity_overflow (h : reserveIdentity now stamp blocked maxRows db identity = .ok (turn, db')) :
    db.attemptsIn (client.overflow start) ≤ db'.attemptsIn (client.overflow start) ∧
      (db.attemptsIn (client.overflow start) ≤ throttleLimit client.kind →
        db'.attemptsIn (client.overflow start) ≤ throttleLimit client.kind) := by
  rcases reserveIdentity_buckets h with ⟨-, hsame⟩ | ⟨-, hbucket⟩
  · simp only [DB.attemptsIn, hsame]
    exact ⟨Nat.le_refl _, id⟩
  obtain ⟨recovery, merged, blocked', -, hmigrates, hcounts⟩ := reserveBucket_cases hbucket
  have hmerged : merged.attemptsIn (client.overflow start) = db.attemptsIn (client.overflow start) := by
    refine attemptsIn_congr (hmigrates.frame (by simp [Client.overflow, ownBucket, overflowBucket]) fun hmem => ?_)
    obtain ⟨k, -, heq, -⟩ := mem_aliasKeysOf.1 hmem
    simp [Client.overflow, ownBucket, overflowBucket] at heq
  rw [← hmerged]
  have hframe : ∀ {key attempts recovery blocked}, client.overflow start ≠ key →
      CountsAttempt identity.kind merged key attempts recovery blocked turn db' →
      db'.attemptsIn (client.overflow start) = merged.attemptsIn (client.overflow start) :=
    fun hne hattempt => attemptsIn_congr (hattempt.frame hne)
  cases hcounts with
  | refused _ => exact ⟨Nat.le_refl _, id⟩
  | own _ hattempt =>
      rw [hframe (by simp [Client.overflow, ownBucket, overflowBucket]) hattempt]
      exact ⟨Nat.le_refl _, id⟩
  | overflow _ _ _ _ hattempt =>
      by_cases hsame : client.overflow start = overflowBucket identity.kind (window now)
      · cases hattempt with
        | refused _ => exact ⟨Nat.le_refl _, id⟩
        | counted hlimit _ =>
            have hkind : client.kind = identity.kind := by
              simp only [Client.overflow, overflowBucket, BucketKey.mk.injEq, BucketKind.overflow.injEq] at hsame
              exact hsame.1
            rw [attemptsIn_put_counted, if_pos hsame, hkind, hsame]
            exact ⟨by omega, fun _ => hlimit⟩
      · rw [hframe hsame hattempt]
        exact ⟨Nat.le_refl _, id⟩

-- In one window the client has rows under these keys only.
def Client.RowsIn (client : Client) (start : Nat) (db : DB) (keys : List ThrottleAlias) : Prop :=
  ∀ key ∈ client.keys, (db.buckets.get? (client.bucket start key)).isSome = true → key ∈ keys

theorem attemptsIn_of_none {key : BucketKey} (h : (db.buckets.get? key).isSome ≠ true) : db.attemptsIn key = 0 := by
  cases hrow : db.buckets.get? key with
  | none => simp [DB.attemptsIn, hrow]
  | some row => simp [hrow] at h

theorem sum_attemptsIn (kind : ThrottleKind) (keys : List ThrottleAlias) :
    ((lockBuckets db kind start keys).map fun row => row.2.attempts).sum =
      (keys.map fun key => db.attemptsIn (ownBucket kind start key)).sum := by
  induction keys with
  | nil => rfl
  | cons key rest ih =>
      rw [lockBuckets_cons, List.map_append, List.sum_append, ih, List.map_cons, List.sum_cons]
      congr 1
      cases hrow : db.buckets.get? (ownBucket kind start key) with
      | none => simp [DB.attemptsIn, hrow]
      | some row => simp [DB.attemptsIn, hrow]

theorem owns_iff : client.owns identity = true ↔
    identity.kind = client.kind ∧ ∀ key ∈ identity.candidates, key ∈ client.keys := by
  simp only [Client.owns, Bool.and_eq_true, decide_eq_true_eq, List.all_eq_true]

-- An identity that lists all rows of its client finds all its attempts.
theorem attempts_eq_total (howns : client.owns identity = true) (hnodup : identity.candidates.Nodup)
    (hrows : client.RowsIn (window now) db identity.candidates) (recovery : Option String) :
    client.attempts (window now) db = (bucketTotal (rowsOf now db identity) recovery).attempts := by
  obtain ⟨hkind, hkeys⟩ := owns_iff.1 howns
  have hsub : identity.candidates.toFinset ⊆ client.keys := fun key hmem => hkeys key (List.mem_toFinset.1 hmem)
  have hsum : client.attempts (window now) db =
      ∑ key ∈ identity.candidates.toFinset, db.attemptsIn (client.bucket (window now) key) := by
    refine (Finset.sum_subset hsub fun key hmem hnot => ?_).symm
    exact attemptsIn_of_none fun hsome => hnot (List.mem_toFinset.2 (hrows key hmem hsome))
  rw [hsum, List.sum_toFinset _ hnodup]
  simp only [bucketTotal, rowsOf, sum_attemptsIn, Client.bucket, hkind]

-- After the aliases were moved the client has at most the row of the active key, and the same attempts.
theorem Migrates.rowsIn {recovery : Option String} (howns : client.owns identity = true)
    (hnodup : identity.candidates.Nodup) (hrows : client.RowsIn (window now) db identity.candidates)
    (h : Migrates db (ownBucket identity.kind (window now) identity.primary) (aliasKeysOf now db identity)
      (bucketTotal (rowsOf now db identity) recovery) merged) :
    client.RowsIn (window now) merged [identity.primary] ∧
      client.attempts (window now) merged = client.attempts (window now) db := by
  obtain ⟨hkind, hkeys⟩ := owns_iff.1 howns
  have hone : client.RowsIn (window now) merged [identity.primary] := by
    intro key hmem hsome
    by_contra hne
    have hprimary : key ≠ identity.primary := by simpa using hne
    have hother : client.bucket (window now) key ≠ ownBucket identity.kind (window now) identity.primary := by
      simp [Client.bucket, ownBucket, hprimary]
    by_cases halias : client.bucket (window now) key ∈ aliasKeysOf now db identity
    · cases h with
      | none hnil => simp [hnil] at halias
      | moved row _ _ _ =>
          simp only [Table.get?_put, if_neg hother, Table.get?_keep] at hsome
          cases hrow : db.buckets.get? (client.bucket (window now) key) with
          | none => simp [hrow] at hsome
          | some row => simp [hrow, halias] at hsome
    · rw [h.frame hother halias] at hsome
      refine halias (mem_aliasKeysOf.2 ⟨key, ?_, by simp [Client.bucket, hkind], hsome⟩)
      rcases List.mem_cons.1 (hrows key hmem hsome) with rfl | haliases
      · exact absurd rfl hprimary
      · exact haliases
  refine ⟨hone, ?_⟩
  have hsingle : client.attempts (window now) merged =
      merged.attemptsIn (client.bucket (window now) identity.primary) := by
    refine Finset.sum_eq_single _ (fun key hmem hne => ?_) fun hnot => absurd (hkeys _ List.mem_cons_self) hnot
    exact attemptsIn_of_none fun hsome => hne (by simpa using hone key hmem hsome)
  have hown := h.attemptsIn_own
  rw [hsingle, attempts_eq_total howns hnodup hrows recovery, ← hown, Client.bucket, hkind]

-- The client's own turn: it is refused with the attempts as they were, or counted, below the limit, in the row of its
-- active key or, if it had no row and the table is nearly full, in the overflow bucket.
inductive ClientTurn (client : Client) (now maxRows : Nat) (identity : ThrottleIdentity) (db : DB) : Turn → DB → Prop where
  | refused (until' : Nat) (db' : DB) (hrows : client.RowsIn (window now) db' [identity.primary])
      (hnone : rowsOf now db identity = [] → client.RowsIn (window now) db' [])
      (hsame : client.attempts (window now) db' = client.attempts (window now) db) :
      ClientTurn client now maxRows identity db (.refused ⟨until', false⟩) db'
  | own (blocked : Nat) (db' : DB) (hroom : rowsOf now db identity = [] → db.throttleRows < maxRows - 4)
      (hrows : client.RowsIn (window now) db' [identity.primary])
      (hcount : client.attempts (window now) db' = client.attempts (window now) db + 1)
      (hlimit : client.attempts (window now) db < throttleLimit client.kind) :
      ClientTurn client now maxRows identity db (.next blocked) db'
  | overflow (blocked : Nat) (db' : DB) (hunseen : rowsOf now db identity = []) (hnear : maxRows - 4 ≤ db.throttleRows)
      (hnone : client.RowsIn (window now) db' [])
      (hcount : db'.attemptsIn (client.overflow (window now)) = db.attemptsIn (client.overflow (window now)) + 1) :
      ClientTurn client now maxRows identity db (.next blocked) db'

theorem rowsIn_nil (howns : client.owns identity = true) (hrows : client.RowsIn (window now) db identity.candidates)
    (hunseen : rowsOf now db identity = []) : client.RowsIn (window now) db [] := by
  intro key hmem hsome
  obtain ⟨row, hrow⟩ := Option.isSome_iff_exists.1 hsome
  rw [Client.bucket, ← (owns_iff.1 howns).1] at hrow
  have hlisted : (key, row) ∈ rowsOf now db identity := mem_lockBuckets.2 ⟨hrows key hmem hsome, hrow⟩
  rw [hunseen] at hlisted
  exact absurd hlisted List.not_mem_nil

theorem client_turn (hkind : client.kind ≠ .username) (howns : client.owns identity = true)
    (hnodup : identity.candidates.Nodup) (hrows : client.RowsIn (window now) db identity.candidates)
    (h : reserveIdentity now stamp blocked maxRows db identity = .ok (turn, db')) :
    ClientTurn client now maxRows identity db turn db' := by
  have hsame := (owns_iff.1 howns).1
  have hmine := (owns_iff.1 howns).2 identity.primary List.mem_cons_self
  rcases reserveIdentity_buckets h with ⟨husername, -⟩ | ⟨-, hbucket⟩
  · exact absurd (hsame ▸ husername) hkind
  obtain ⟨recovery, merged, blocked', -, hmigrates, hcounts⟩ := reserveBucket_cases hbucket
  obtain ⟨hone, hattempts⟩ := hmigrates.rowsIn howns hnodup hrows
  have htotal := attempts_eq_total howns hnodup hrows recovery
  -- Nothing is moved when nothing is found.
  have hstill : rowsOf now db identity = [] → merged = db := by
    intro hunseen
    cases hmigrates with
    | none _ => rfl
    | moved _ hsome _ _ =>
        refine absurd ?_ hsome
        simp only [rowsOf, ThrottleIdentity.candidates, lockBuckets_cons, List.append_eq_nil_iff] at hunseen
        simp only [aliasKeysOf, hunseen.2, List.map_nil]
  have hnone : rowsOf now db identity = [] → client.RowsIn (window now) merged [] := by
    intro hunseen
    rw [hstill hunseen]
    exact rowsIn_nil howns hrows hunseen
  cases hcounts with
  | refused until' => exact .refused until' _ hone hnone hattempts
  | overflow blocked'' hunseen hnear _ hattempt =>
      obtain rfl := hstill hunseen
      cases hattempt with
      | refused _ => exact .refused _ _ hone hnone hattempts
      | counted _ _ =>
          refine .overflow _ _ hunseen hnear (fun key hmem hsome => hnone hunseen key hmem ?_) ?_
          · rw [Table.get?_put, if_neg (by simp [Client.bucket, ownBucket, overflowBucket])] at hsome
            exact hsome
          · rw [attemptsIn_put_counted, if_pos (by rw [Client.overflow, hsame])]
  | own hroom hattempt =>
      cases hattempt with
      | refused _ => exact .refused _ _ hone hnone hattempts
      | counted hlimit _ =>
          refine .own _ _ (fun hunseen => hstill hunseen ▸ hroom hunseen) (fun key hmem hsome => ?_) ?_ ?_
          · by_cases hprimary : key = identity.primary
            · simp [hprimary]
            · refine hone key hmem ?_
              rw [Table.get?_put, if_neg (by simp [Client.bucket, ownBucket, hprimary])] at hsome
              exact hsome
          · have hkeys : ∀ key, (client.bucket (window now) key =
                ownBucket identity.kind (window now) identity.primary) = (key = identity.primary) := by
              intro key
              simp [Client.bucket, ownBucket, hsame]
            rw [← hattempts]
            simp only [Client.attempts, attemptsIn_put_counted, Finset.sum_add_distrib, hkeys]
            congr 1
            rw [Finset.sum_ite_eq', if_pos hmine]
          · rw [htotal, ← hsame]
            exact hlimit

-- The client's rows are as they were, and the overflow bucket has only grown within its limit.
structure Client.Quiet (client : Client) (start : Nat) (db db' : DB) : Prop where
  rows : ∀ key ∈ client.keys, db'.buckets.get? (client.bucket start key) = db.buckets.get? (client.bucket start key)
  grown : db.attemptsIn (client.overflow start) ≤ db'.attemptsIn (client.overflow start)
  limited : db.attemptsIn (client.overflow start) ≤ throttleLimit client.kind →
    db'.attemptsIn (client.overflow start) ≤ throttleLimit client.kind

namespace Client.Quiet

theorem refl : client.Quiet start db db := ⟨fun _ _ => rfl, Nat.le_refl _, id⟩

theorem trans {db₁ db₂ db₃ : DB} (h : client.Quiet start db₁ db₂) (h' : client.Quiet start db₂ db₃) :
    client.Quiet start db₁ db₃ where
  rows key hkey := (h'.rows key hkey).trans (h.rows key hkey)
  grown := h.grown.trans h'.grown
  limited hlimit := h'.limited (h.limited hlimit)

theorem attempts_eq (h : client.Quiet start db db') : client.attempts start db' = client.attempts start db :=
  Finset.sum_congr rfl fun key hkey => attemptsIn_congr (h.rows key hkey)

theorem rowsIn {keys : List ThrottleAlias} (h : client.Quiet start db db') (hrows : client.RowsIn start db keys) :
    client.RowsIn start db' keys := by
  intro key hkey hsome
  rw [h.rows key hkey] at hsome
  exact hrows key hkey hsome

theorem of_buckets (h : db'.buckets = db.buckets) : client.Quiet start db db' := by
  refine ⟨fun key _ => by rw [h], ?_, ?_⟩
  · simp only [DB.attemptsIn, h, Nat.le_refl]
  · simp only [DB.attemptsIn, h, imp_self]

theorem of_ignores (hignores : client.ignores identity = true)
    (h : reserveIdentity now stamp blocked maxRows db identity = .ok (turn, db')) : client.Quiet start db db' :=
  ⟨fun _ hkey => reserveIdentity_ignores hignores hkey h, (reserveIdentity_overflow h).1, (reserveIdentity_overflow h).2⟩

theorem of_other_window (hwindow : start ≠ window now)
    (h : reserveIdentity now stamp blocked maxRows db identity = .ok (turn, db')) : client.Quiet start db db' :=
  ⟨fun _ _ => reserveIdentity_other_window hwindow h, (reserveIdentity_overflow h).1, (reserveIdentity_overflow h).2⟩

end Client.Quiet

theorem Client.RowsIn.mono {keys keys' : List ThrottleAlias} (h : client.RowsIn start db keys) (hsub : keys ⊆ keys') :
    client.RowsIn start db keys' :=
  fun key hkey hsome => hsub (h key hkey hsome)

theorem attempts_eq_zero (h : client.RowsIn start db []) : client.attempts start db = 0 :=
  Finset.sum_eq_zero fun key hkey => attemptsIn_of_none fun hsome => absurd (h key hkey hsome) List.not_mem_nil

theorem rowsOf_eq_nil (howns : client.owns identity = true) (h : client.RowsIn (window now) db []) :
    rowsOf now db identity = [] := by
  obtain ⟨hkind, hkeys⟩ := owns_iff.1 howns
  refine List.eq_nil_iff_forall_not_mem.2 fun ⟨key, row⟩ hmem => ?_
  obtain ⟨hkey, hrow⟩ := mem_lockBuckets.1 hmem
  rw [hkind] at hrow
  exact absurd (h key (hkeys key hkey) (Option.isSome_iff_exists.2 ⟨row, hrow⟩)) List.not_mem_nil

theorem reserveIdentity_refused {reservation : ThrottleReservation}
    (h : reserveIdentity now stamp blocked maxRows db identity = .ok (.refused reservation, db')) :
    reservation.allowed = false := by
  obtain ⟨-, r, -, hturn⟩ | ⟨-, hbucket⟩ := reserveIdentity_cases h
  · rcases hturn with ⟨-, hturn⟩ | ⟨hrefused, hturn⟩
    · cases hturn
    · cases hturn
      exact hrefused
  · obtain ⟨recovery, merged, blocked', -, -, hcounts⟩ := reserveBucket_cases hbucket
    cases hcounts with
    | refused _ => rfl
    | overflow _ _ _ _ hattempt =>
        cases hattempt with
        | refused _ => rfl
    | own _ hattempt =>
        cases hattempt with
        | refused _ => rfl

theorem turnsOf_sublist (clock : Clock) (ids : List ThrottleIdentity) (blocked : Nat) (db : DB) :
    ((turnsOf now maxRows clock ids blocked db).map Prod.fst).Sublist ids := by
  induction ids generalizing clock blocked db with
  | nil => exact List.Sublist.refl _
  | cons identity rest ih =>
      simp only [turnsOf, List.map_cons]
      refine List.Sublist.cons_cons _ ?_
      split
      · exact ih _ _ _
      · exact List.nil_sublist _

-- A loop over identities that have nothing to do with the client.
theorem reserveAll_quiet {clock : Clock} {ids : List ThrottleIdentity} {reservation : ThrottleReservation}
    (hignores : ∀ identity ∈ ids, start = window now → client.ignores identity = true)
    (h : reserveAll now maxRows clock ids blocked db = .ok (reservation, db')) : client.Quiet start db db' := by
  refine reserveAll_preserves (P := fun d => client.Quiet start db d) clock ids
    (fun identity hmem stamp blocked d turn d' hd hturn => hd.trans ?_) h .refl
  by_cases hwindow : start = window now
  · exact .of_ignores (hignores identity hmem hwindow) hturn
  · exact .of_other_window hwindow hturn

-- A loop with one identity of the client: its turn is not reached, or it is reached in a state that is as it was for the
-- client and the turns after it leave the client alone.
theorem reserveAll_client {clock : Clock} {ids : List ThrottleIdentity} {reservation : ThrottleReservation}
    (hall : ∀ identity ∈ ids, client.owns identity = true ∨ client.ignores identity = true)
    (hfew : (ids.filter client.owns).length ≤ 1)
    (h : reserveAll now maxRows clock ids blocked db = .ok (reservation, db')) :
    (client.Quiet start db db' ∧ (reservation.allowed = true → ids.filter client.owns = [])) ∨
      ∃ identity d stamp blocked' turn d', client.owns identity = true ∧ identity ∈ ids ∧
        (identity, d) ∈ turnsOf now maxRows clock ids blocked db ∧ client.Quiet start db d ∧
        reserveIdentity now stamp blocked' maxRows d identity = .ok (turn, d') ∧ client.Quiet start d' db' ∧
        (reservation.allowed = true → ∃ blocked'', turn = .next blocked'') := by
  induction ids generalizing clock blocked db with
  | nil =>
      simp only [reserveAll] at h
      cases h
      exact .inl ⟨.refl, fun _ => rfl⟩
  | cons identity rest ih =>
      have hrest : ∀ other ∈ rest, client.owns other = true ∨ client.ignores other = true :=
        fun other hmem => hall other (List.mem_cons_of_mem _ hmem)
      simp only [reserveAll, bind_eq_ok] at h
      obtain ⟨⟨turn, next⟩, hfirst, h⟩ := h
      by_cases howns : client.owns identity = true
      · -- No other identity is the client's.
        have hnone : rest.filter client.owns = [] := by
          rw [List.filter_cons_of_pos howns, List.length_cons] at hfew
          exact List.length_eq_zero_iff.1 (by omega)
        have hmember : (identity, db) ∈ turnsOf now maxRows clock (identity :: rest) blocked db := by simp [turnsOf]
        refine .inr ⟨identity, db, clock 0, blocked, turn, next, howns, by simp, hmember, .refl, hfirst, ?_, ?_⟩
        · cases turn with
          | refused r =>
              simp only [pure_eq_ok, Prod.mk.injEq] at h
              exact h.2 ▸ .refl
          | next blocked' =>
              refine reserveAll_quiet (fun other hmem _ => ?_) h
              refine (hrest other hmem).resolve_left fun howns' => ?_
              have := List.mem_filter.2 ⟨hmem, howns'⟩
              rw [hnone] at this
              exact absurd this List.not_mem_nil
        · intro hallowed
          cases turn with
          | refused r =>
              simp only [pure_eq_ok, Prod.mk.injEq] at h
              have := reserveIdentity_refused hfirst
              rw [h.1, hallowed] at this
              cases this
          | next blocked' => exact ⟨blocked', rfl⟩
      · have hquiet : client.Quiet start db next :=
          .of_ignores ((hall identity (by simp)).resolve_left howns) hfirst
        rw [List.filter_cons_of_neg howns] at hfew ⊢
        cases turn with
        | refused r =>
            simp only [pure_eq_ok, Prod.mk.injEq] at h
            refine .inl ⟨h.2 ▸ hquiet, fun hallowed => ?_⟩
            have := reserveIdentity_refused hfirst
            rw [h.1, hallowed] at this
            cases this
        | next blocked' =>
            rcases ih hrest hfew h with ⟨hafter, hnone⟩ | ⟨found, d, stamp, b, t, d', ho, hm, hmem, hq, ht, hq', ha⟩
            · exact .inl ⟨hquiet.trans hafter, hnone⟩
            · refine .inr ⟨found, d, stamp, b, t, d', ho, List.mem_cons_of_mem _ hm, ?_, hquiet.trans hq, ht, hq', ha⟩
              simp only [turnsOf, hfirst]
              exact List.mem_cons_of_mem _ hmem

end

-- While the window lasts: the client's rows are under keys it was active under, what it was allowed is counted there or,
-- if it was allowed anything in the overflow bucket, all of it is counted in that bucket.
structure Watch.Live (client : Client) (start : Nat) (w : Watch) : Prop where
  rows : client.RowsIn start w.db w.used
  spent : client.attempts start w.db ≤ throttleLimit client.kind
  overflow : w.db.attemptsIn (client.overflow start) ≤ throttleLimit client.kind
  own : w.shared = false → w.allowed ≤ client.attempts start w.db
  shared : w.shared = true → client.RowsIn start w.db [] ∧ w.allowed ≤ w.db.attemptsIn (client.overflow start)

structure Watch.Sound (client : Client) (start : Nat) (w : Watch) : Prop where
  bound : w.allowed ≤ throttleLimit client.kind
  live : w.time < start + minutes 15 → w.Live client start

section

variable {client : Client} {start : Nat} {w : Watch}

theorem Watch.Live.bound (h : w.Live client start) : w.allowed ≤ throttleLimit client.kind := by
  cases hshared : w.shared with
  | false => exact (h.own hshared).trans h.spent
  | true => exact (h.shared hshared).2.trans h.overflow

-- A call that leaves the client alone.
theorem Watch.Live.quiet (h : w.Live client start) {db : DB} (time : Nat) (hquiet : client.Quiet start w.db db) :
    Watch.Live client start { w with db, time } where
  rows := hquiet.rowsIn h.rows
  spent := hquiet.attempts_eq.trans_le h.spent
  overflow := hquiet.limited h.overflow
  own hshared := (h.own hshared).trans_eq hquiet.attempts_eq.symm
  shared hshared := ⟨hquiet.rowsIn (h.shared hshared).1, (h.shared hshared).2.trans hquiet.grown⟩

theorem window_lt (now : Nat) : now < window now + minutes 15 := by
  have hpos : 0 < minutes 15 := by decide
  have := Nat.mod_lt now hpos
  have := Nat.mod_le now (minutes 15)
  unfold window
  omega

-- A cleanup takes no row of a window that has not ended.
theorem mem_staleBuckets {clock : Readings BucketKey} {limit : Nat} {place : BucketKey → Nat} {db : DB} {key : BucketKey}
    (h : key ∈ (staleBuckets clock place db limit).map Prod.fst) :
    (∃ row, (key, row) ∈ db.buckets.rows) ∧ key.window + minutes 15 < clock.first key := by
  obtain ⟨⟨key', row⟩, hmem, rfl⟩ := List.mem_map.1 h
  have hselected := (List.mem_insertionSort _).1 (List.mem_of_mem_take hmem)
  obtain ⟨hrow, hexpired⟩ := (Table.mem_select _ _ _ _).1 hselected
  simp only [Bool.and_eq_true, decide_eq_true_eq] at hexpired
  exact ⟨⟨row, (Table.mem_rows_iff _ _ _).2 hrow⟩, hexpired.1⟩

theorem cleanupThrottle_quiet {clock : Readings BucketKey} {clock' : Readings ThrottleAlias} {place : BucketKey → Nat}
    {place' : ThrottleAlias → Nat} {db db' : DB} {limit deleted ended : Nat}
    (hclock : ∀ bucket ∈ db.buckets.rows, clock.first bucket.1 ≤ ended) (hended : ended < start + minutes 15)
    (h : cleanupThrottle clock clock' place place' db limit = .ok (deleted, db')) : client.Quiet start db db' := by
  simp only [cleanupThrottle, bind_eq_ok, pure_eq_ok, Prod.mk.injEq] at h
  obtain ⟨-, -, -, rfl⟩ := h
  have hkeep : ∀ key : BucketKey, key.window = start → (db.buckets.keep fun key _ =>
      !((staleBuckets clock place db limit).map Prod.fst).contains key).get? key = db.buckets.get? key := by
    intro key hkey
    have hnot : key ∉ (staleBuckets clock place db limit).map Prod.fst := by
      intro hmem
      obtain ⟨⟨row, hrow⟩, hpast⟩ := mem_staleBuckets hmem
      have hread : clock.first key ≤ ended := hclock (key, row) hrow
      omega
    rw [Table.get?_keep]
    cases db.buckets.get? key with
    | none => rfl
    | some row => simp [hnot]
  refine ⟨fun key _ => hkeep _ rfl, ?_, ?_⟩
  · exact (attemptsIn_congr (hkeep _ rfl)).ge
  · exact fun hlimit => (attemptsIn_congr (hkeep _ rfl)).trans_le hlimit

-- The turns of a reservation that are the client's are at most one.
theorem eq_of_mem_turns {clock : Clock} {ids : List ThrottleIdentity} {maxRows : Nat} {turn turn' : ThrottleIdentity × DB}
    (hfew : (ids.filter client.owns).length ≤ 1) (hmem : turn ∈ w.turns client clock ids maxRows)
    (hmem' : turn' ∈ w.turns client clock ids maxRows) : turn = turn' := by
  have hlength : (w.turns client clock ids maxRows).length ≤ 1 := by
    refine Nat.le_trans ?_ hfew
    have hsub := (@turnsOf_sublist (clock 0) maxRows (fun n => clock (n + 1)) ids 0
      { w.db with maxRows := some maxRows }).filter client.owns
    rw [List.filter_map] at hsub
    simpa [Watch.turns, Function.comp_def] using hsub.length_le
  obtain ⟨only, honly⟩ := List.length_eq_one_iff.1 (Nat.le_antisymm hlength (List.length_pos_of_mem hmem))
  rw [honly, List.mem_singleton] at hmem hmem'
  rw [hmem, hmem']

-- The client's reservation in its window.
theorem Watch.Live.reserve (hkind : client.kind ≠ .username) (h : w.Live client start) {clock : Clock}
    {ids : List ThrottleIdentity} {maxRows : Nat} {reservation : ThrottleReservation} {db : DB}
    (hwindow : window (clock 0) = start) (hany : ids.any client.owns = true)
    (hfair : w.Fair client (.reserve clock ids maxRows)) (hsettled : w.Settled client start (.reserve clock ids maxRows))
    (hreserve : reserveThrottle clock w.db ids maxRows = .ok (reservation, db)) :
    Watch.Live client start
      { db
        used := (ids.filter client.owns).map ThrottleIdentity.primary ++ w.used
        shared := w.shared || (reservation.allowed && (w.turns client clock ids maxRows).any (overflows (clock 0) maxRows))
        allowed := if reservation.allowed then w.allowed + 1 else w.allowed
        time := clock 0 } := by
  obtain ⟨-, hall, hfew, hlists⟩ := hfair
  simp only [reserveThrottle, bind_eq_ok] at hreserve
  obtain ⟨⟨⟩, hvalidate, -, -, hloop⟩ := hreserve
  obtain ⟨-, -, hnodup⟩ := validateThrottleIdentities_eq_ok.1 hvalidate
  have hstart : client.Quiet start w.db { w.db with maxRows := some maxRows } := .of_buckets rfl
  rcases reserveAll_client hall hfew hloop with ⟨hquiet, hnone⟩ |
    ⟨identity, d, stamp, blocked, turn, d', howns, hmem, hturn, hbefore, hreserve, hafter, hnext⟩
  · -- The client's turn was not reached, so the reservation was refused.
    have hrefused : reservation.allowed = false := by
      by_contra hallowed
      have hnil := hnone (by simpa using hallowed)
      obtain ⟨found, hfound, howns⟩ := List.any_eq_true.1 hany
      have := List.mem_filter.2 ⟨hfound, howns⟩
      rw [hnil] at this
      exact absurd this List.not_mem_nil
    have hlive := h.quiet (clock 0) (hstart.trans hquiet)
    simp only [hrefused, Bool.false_and, Bool.or_false, Bool.false_eq_true, if_false]
    exact ⟨hlive.rows.mono (List.subset_append_right _ _), hlive.spent, hlive.overflow, hlive.own, hlive.shared⟩
  · have hquiet := hstart.trans hbefore
    have hmember : (identity, d) ∈ w.turns client clock ids maxRows := List.mem_filter.2 ⟨hturn, howns⟩
    have hactive : [identity.primary] ⊆ (ids.filter client.owns).map ThrottleIdentity.primary ++ w.used := by
      refine List.cons_subset.2 ⟨List.mem_append_left _ (List.mem_map.2 ⟨identity, ?_, rfl⟩), List.nil_subset _⟩
      exact List.mem_filter.2 ⟨hmem, howns⟩
    have hlisted : client.RowsIn start d identity.candidates := (hquiet.rowsIn h.rows).mono (hlists identity hmem howns)
    have hdistinct : identity.candidates.Nodup :=
      List.Nodup.of_map (fun key => (identity.kind, key)) ((List.nodup_flatMap.1 hnodup).1 identity hmem)
    have hover := hafter.limited ((reserveIdentity_overflow hreserve).2 (hquiet.limited h.overflow))
    have hgrown : d.attemptsIn (client.overflow start) ≤ d'.attemptsIn (client.overflow start) :=
      (reserveIdentity_overflow hreserve).1
    have hspent := hquiet.attempts_eq
    subst hwindow
    cases client_turn hkind howns hdistinct hlisted hreserve with
    | refused until' _ hrows hnone hsame =>
        have hrefused : reservation.allowed = false := by
          by_contra hallowed
          obtain ⟨blocked'', hnext⟩ := hnext (by simpa using hallowed)
          cases hnext
        have hattempts := hafter.attempts_eq.trans (hsame.trans hspent)
        simp only [hrefused, Bool.false_and, Bool.or_false, Bool.false_eq_true, if_false]
        refine ⟨(hafter.rowsIn hrows).mono hactive, hattempts.trans_le h.spent, hover,
          fun hshared => (h.own hshared).trans_eq hattempts.symm, fun hshared => ?_⟩
        have hunseen := rowsOf_eq_nil howns (hquiet.rowsIn (h.shared hshared).1)
        exact ⟨hafter.rowsIn (hnone hunseen),
          (h.shared hshared).2.trans (hquiet.grown.trans (hgrown.trans hafter.grown))⟩
    | own blocked'' _ hroom hrows hcount hlimit =>
        -- The client has a row already, or gets its first one: either way nothing of it is in the overflow bucket.
        have hunshared : w.shared = false := by
          by_contra hshared
          have hunseen := rowsOf_eq_nil howns (hquiet.rowsIn (h.shared (by simpa using hshared)).1)
          exact hshared (hsettled rfl _ hmember hunseen (hroom hunseen))
        have hnever : (w.turns client clock ids maxRows).any (overflows (clock 0) maxRows) = false := by
          refine List.any_eq_false.2 fun other hother => ?_
          rw [eq_of_mem_turns hfew hother hmember]
          simp only [overflows, decide_eq_true_eq, not_and]
          intro hunseen
          have := hroom hunseen
          omega
        have hattempts := hafter.attempts_eq.trans hcount
        simp only [hnever, Bool.and_false, Bool.or_false]
        refine ⟨(hafter.rowsIn hrows).mono hactive, by simp only; omega, hover, fun _ => ?_, fun hshared => ?_⟩
        · have := h.own hunshared
          simp only
          split <;> omega
        · rw [hunshared] at hshared
          cases hshared
    | overflow blocked'' _ hunseen hnear hnone hcount =>
        have hrows := hafter.rowsIn hnone
        have hzero := attempts_eq_zero hrows
        have hempty := attempts_eq_zero (rowsIn_nil howns hlisted hunseen)
        -- What the client was allowed so far is counted in the overflow bucket, if anything.
        have hcounted : w.allowed ≤ d.attemptsIn (client.overflow (window (clock 0))) := by
          cases hshared : w.shared with
          | false =>
              have := h.own hshared
              omega
          | true => exact (h.shared hshared).2.trans hquiet.grown
        have hgrown' := hafter.grown
        have hoverflows : (w.turns client clock ids maxRows).any (overflows (clock 0) maxRows) = true :=
          List.any_eq_true.2 ⟨_, hmember, by simp [overflows, hunseen, hnear]⟩
        simp only [hoverflows, Bool.and_true]
        refine ⟨hrows.mono (List.nil_subset _), by simp only; omega, hover, fun hshared => ?_, fun _ => ⟨hrows, ?_⟩⟩
        · simp only [Bool.or_eq_false_iff] at hshared
          have := h.own hshared.1
          simp only [hshared.2, Bool.false_eq_true, if_false]
          omega
        · simp only
          split <;> omega

theorem Watch.Sound.step (hkind : client.kind ≠ .username) (h : w.Sound client start) {call : LimitCall}
    (hfair : w.Fair client call) (hsettled : w.Settled client start call) : (w.step client start call).Sound client start := by
  cases call with
  | reserve clock ids maxRows =>
      have hclock : w.time ≤ clock 0 := hfair.1
      cases hreserve : reserveThrottle clock w.db ids maxRows with
      | error e => simpa only [Watch.step, hreserve] using h
      | ok result =>
          obtain ⟨reservation, db⟩ := result
          by_cases hmine : window (clock 0) = start ∧ ids.any client.owns = true
          · have hlive : w.Live client start := by
              refine h.live ?_
              have := window_lt (clock 0)
              omega
            have hnext := hlive.reserve hkind hmine.1 hmine.2 hfair hsettled hreserve
            simp only [Watch.step, hreserve, if_pos hmine]
            exact ⟨hnext.bound, fun _ => hnext⟩
          · simp only [Watch.step, hreserve, if_neg hmine]
            refine ⟨h.bound, fun htime => (h.live (lt_of_le_of_lt hclock htime)).quiet (clock 0) ?_⟩
            simp only [reserveThrottle, bind_eq_ok] at hreserve
            obtain ⟨-, -, -, -, hloop⟩ := hreserve
            have hstart : client.Quiet start w.db { w.db with maxRows := some maxRows } := .of_buckets rfl
            refine hstart.trans (reserveAll_quiet (fun identity hmem hwindow => ?_) hloop)
            refine (hfair.2.1 identity hmem).resolve_left fun howns => hmine ⟨hwindow.symm, ?_⟩
            exact List.any_eq_true.2 ⟨identity, hmem, howns⟩
  | cleanup ended clock clock' place place' limit =>
      obtain ⟨hended, hclock⟩ := hfair
      cases hcleanup : cleanupThrottle clock clock' place place' w.db limit with
      | error e => simpa only [Watch.step, hcleanup] using h
      | ok result =>
          obtain ⟨deleted, db⟩ := result
          simp only [Watch.step, hcleanup]
          refine ⟨h.bound, fun htime => (h.live (lt_of_le_of_lt hended htime)).quiet ended ?_⟩
          exact cleanupThrottle_quiet hclock htime hcleanup

end

-- In every run in which no client gets a row of its own after it was counted in the overflow bucket of the window, a
-- pair is allowed at most 5 reservations in the window and an address at most 20.
theorem allowed_le_throttleLimit {client : Client} (hkind : client.kind ≠ .username) {start : Nat} {w : Watch}
    (h : (limiting client start (Watch.Settled client start)).Reachable w) : w.allowed ≤ throttleLimit client.kind := by
  refine (h.invariant (P := Watch.Sound client start) (fun w₀ hinitial => ?_) fun before after hbefore hnext => ?_).bound
  · obtain ⟨⟨-, hrows⟩, hused, hshared, hallowed⟩ := hinitial
    have hempty : ∀ key, w₀.db.buckets.get? key = none := by
      intro key
      have hzero : w₀.db.buckets.rows.length + w₀.db.usernames.rows.length = 0 := hrows
      cases hrow : w₀.db.buckets.get? key with
      | none => rfl
      | some row =>
          have hmem := List.length_pos_of_mem ((Table.mem_rows_iff _ _ _).2 hrow)
          omega
    have hnone : client.RowsIn start w₀.db [] := by
      intro key _ hsome
      simp [hempty] at hsome
    have hover : w₀.db.attemptsIn (client.overflow start) = 0 := by simp [DB.attemptsIn, hempty]
    have hspent := attempts_eq_zero hnone
    refine ⟨by omega, fun _ => ⟨hnone.mono (List.nil_subset _), by omega, by omega, fun _ => by omega, fun htrue => ?_⟩⟩
    rw [hshared] at htrue
    cases htrue
  · obtain ⟨call, hfair, hsettled, rfl⟩ := hnext
    exact hbefore.step hkind hfair hsettled

instance (client : Client) (w : Watch) : ∀ call, Decidable (w.Fair client call)
  | .reserve _ _ _ => inferInstanceAs (Decidable (_ ∧ _))
  | .cleanup _ _ _ _ _ _ => inferInstanceAs (Decidable (_ ∧ _))

instance (client : Client) (start : Nat) (w : Watch) : ∀ call, Decidable (w.Settled client start call)
  | .reserve _ _ _ => inferInstanceAs (Decidable (_ → _))
  | .cleanup _ _ _ _ _ _ => inferInstanceAs (Decidable True)

def Watch.after (client : Client) (start : Nat) (calls : List LimitCall) (w : Watch) : Watch :=
  calls.foldl (Watch.step client start) w

-- Every call of a list is fair and keeps a condition when its turn comes.
def Watch.keepsAll (client : Client) (start : Nat) (keeps : Watch → LimitCall → Prop) [∀ w call, Decidable (keeps w call)] :
    List LimitCall → Watch → Bool
  | [], _ => true
  | call :: rest, w =>
      decide (w.Fair client call ∧ keeps w call) && keepsAll client start keeps rest (w.step client start call)

theorem reachable_after {client : Client} {start : Nat} {keeps : Watch → LimitCall → Prop}
    [∀ w call, Decidable (keeps w call)] (calls : List LimitCall) {w : Watch}
    (hw : (limiting client start keeps).Reachable w) (h : w.keepsAll client start keeps calls = true) :
    (limiting client start keeps).Reachable (w.after client start calls) := by
  induction calls generalizing w with
  | nil => exact hw
  | cons call rest ih =>
      simp only [Watch.keepsAll, Bool.and_eq_true, decide_eq_true_eq] at h
      exact ih (hw.step ⟨call, h.1.1, h.1.2, rfl⟩) h.2

def adminPair : Client := ⟨.pair, {⟨"c1", adminPairDigest⟩}⟩

def emptyWatch : Watch := ⟨emptyDB, [], false, 0, 0⟩

theorem reachable_emptyWatch (client : Client) (start : Nat) (keeps : Watch → LimitCall → Prop) :
    (limiting client start keeps).Reachable emptyWatch :=
  .of_initial ⟨⟨rfl, rfl⟩, rfl, rfl, rfl⟩

def reserveAt (maxRows : Nat) (ids : List ThrottleIdentity) (minute : Nat) : LimitCall :=
  .reserve (fun n => minutes minute + n) ids maxRows

def twoReservations : List LimitCall := [76, 77].map (reserveAt 10000 adminLogin)

theorem allowed_le_throttleLimit_twoReservations :
    (emptyWatch.after adminPair (minutes 75) twoReservations).allowed = 2 ∧
      (emptyWatch.after adminPair (minutes 75) twoReservations).allowed ≤ throttleLimit adminPair.kind := by
  have hreach : (limiting adminPair (minutes 75) (Watch.Settled adminPair (minutes 75))).Reachable
      (emptyWatch.after adminPair (minutes 75) twoReservations) :=
    reachable_after twoReservations (reachable_emptyWatch _ _ _) (by decide +kernel)
  exact ⟨by decide +kernel, allowed_le_throttleLimit (by decide) hreach⟩

-- Two logins of other clients leave six rows of the eight that are allowed. The pair is then counted in the overflow
-- bucket five times; after a cleanup it gets a row of its own and is allowed three times more.
def othersLogin (a : UInt8) : List ThrottleIdentity :=
  let digest (b : UInt8) : Digest := ⟨List.replicate 32 b, length_constant b⟩
  [⟨.pair, "c1", digest a, [], ""⟩, ⟨.username, "u1", digest (a + 1), [], ""⟩, ⟨.ip, "c1", digest (a + 2), [], ""⟩]

def overflowThenOwn : List LimitCall :=
  [reserveAt 8 (othersLogin 1) 60, reserveAt 8 (othersLogin 4) 61] ++ [76, 77, 78, 79, 80].map (reserveAt 8 adminLogin) ++
    [.cleanup (minutes 81) ⟨fun _ => minutes 81, fun _ => minutes 81⟩ ⟨fun _ => minutes 81, fun _ => minutes 81⟩
      (fun _ => 0) (fun _ => 0) 100] ++ [82, 83, 84].map (reserveAt 8 adminLogin)

theorem eight_allowed_in_one_window :
    ¬ ∀ (client : Client) (start : Nat) (w : Watch), client.kind = .pair ∨ client.kind = .ip →
      (limiting client start fun _ _ => True).Reachable w → w.allowed ≤ throttleLimit client.kind := by
  intro h
  have hreach : (limiting adminPair (minutes 75) fun _ _ => True).Reachable
      (emptyWatch.after adminPair (minutes 75) overflowThenOwn) :=
    reachable_after overflowThenOwn (reachable_emptyWatch _ _ _) (by decide +kernel)
  have hallowed : (emptyWatch.after adminPair (minutes 75) overflowThenOwn).allowed = 8 := by decide +kernel
  have hle := h adminPair (minutes 75) _ (.inl rfl) hreach
  rw [hallowed] at hle
  exact absurd hle (by decide)

end AutoDeploy.Auth
