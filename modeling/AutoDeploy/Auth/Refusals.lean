import AutoDeploy.Auth.Admission

namespace AutoDeploy.Auth

open Lib Lib.Result

section

variable {now maxRows : Nat} {db : DB} {ids : List ThrottleIdentity}

-- The attempts of a pair or an address in the current window, over all its keys.
def attemptsOf (now : Nat) (db : DB) (identity : ThrottleIdentity) : Nat :=
  ((rowsOf now db identity).map fun row => row.2.attempts).sum

-- The failures that still count for a username, over all its keys.
def failuresOf (now : Nat) (db : DB) (identity : ThrottleIdentity) : Nat :=
  totalFailures (lockUsernames now db identity.candidates)

-- Nothing that is stored speaks against the attempt.
structure Admissible (now : Nat) (db : DB) (ids : List ThrottleIdentity) (maxRows : Nat) : Prop where
  cap : db.maxRows = none ∨ db.maxRows = some maxRows
  room : db.throttleRows + 8 ≤ maxRows
  usernames : ∀ identity ∈ ids, identity.kind = .username → ∀ key ∈ identity.candidates, ∀ row,
    db.usernames.get? key = some row → row.live now = false
  buckets : ∀ identity ∈ ids, ∀ key ∈ identity.candidates, ∀ start row,
    db.buckets.get? (ownBucket identity.kind start key) = some row → ∀ block ∈ row.blockedUntil, block ≤ now
  attempts : ∀ identity ∈ ids, identity.kind ≠ .username → attemptsOf now db identity < throttleLimit identity.kind

-- No key of the reservation is one the repository keeps for itself.
def Usable (ids : List ThrottleIdentity) : Prop :=
  ∀ identity ∈ ids, ∀ key ∈ identity.candidates, key.keyVersion ≠ "overflow" ∧ key.digest ≠ zeroDigest

theorem Admissible.unblocked (h : Admissible now db ids maxRows) {identity : ThrottleIdentity} (hmem : identity ∈ ids)
    {row : ThrottleAlias × BucketRow} (hrow : row ∈ rowsOf now db identity) : row.2.blockedUntil.getD 0 ≤ now := by
  obtain ⟨hkey, hget⟩ := mem_lockBuckets.1 hrow
  cases hblock : row.2.blockedUntil with
  | none => exact Nat.zero_le _
  | some block => exact h.buckets identity hmem row.1 hkey _ row.2 hget block hblock

-- The rows of an identity only depend on the buckets of its kind.
theorem rowsOf_congr {db db' : DB} {identity : ThrottleIdentity}
    (h : ∀ key : BucketKey, key.kind = .own identity.kind → db'.buckets.get? key = db.buckets.get? key) :
    rowsOf now db' identity = rowsOf now db identity := by
  unfold rowsOf lockBuckets
  refine List.filterMap_congr fun key _ => ?_
  rw [h (ownBucket identity.kind (window now) key) rfl]

theorem lockUsernames_congr {db db' : DB} (h : db'.usernames = db.usernames) (keys : List ThrottleAlias) :
    lockUsernames now db' keys = lockUsernames now db keys := by
  unfold lockUsernames
  rw [h]

theorem reserveIdentity_username {stamp blocked : Nat} {identity : ThrottleIdentity} (hkind : identity.kind = .username) :
    reserveIdentity now stamp blocked maxRows db identity = (do
      let (reservation, db) ← reserveUsernameThrottle now stamp db identity maxRows
      if reservation.allowed then pure (.next (max blocked reservation.blockedUntil), db)
      else pure (.refused reservation, db)) :=
  if_pos hkind

theorem reserveIdentity_bucket {stamp blocked : Nat} {identity : ThrottleIdentity} (hkind : identity.kind ≠ .username) :
    reserveIdentity now stamp blocked maxRows db identity = reserveBucket now blocked maxRows db identity :=
  if_neg hkind

variable {pair name address : ThrottleIdentity} {clock : Clock}

-- The first turn: the pair is counted, and what the others read is as it was.
theorem pair_counts (hkind : pair.kind = .pair) (hdb : db.Untagged) (htag : pair.recoveryUserID = "")
    (hopen : Admissible now db [pair, name, address] maxRows) :
    ∃ blocked db₁, reserveIdentity now (clock 0) 0 maxRows { db with maxRows := some maxRows } pair =
        .ok (.next blocked, db₁) ∧ blocked ≤ now ∧ db₁.Untagged ∧ db₁.usernames = db.usernames ∧
      db₁.throttleRows ≤ db.throttleRows + 1 ∧
      ∀ key : BucketKey, key.kind ≠ .own .pair → db₁.buckets.get? key = db.buckets.get? key := by
  have hroom := hopen.room
  have hname : pair.kind ≠ .username := by simp [hkind]
  rw [reserveIdentity_bucket hname]
  have hdb₀ : ({ db with maxRows := some maxRows } : DB).Untagged := hdb.of_buckets rfl
  obtain ⟨blocked, db₁, hcounts, hblocked, hdb₁, husernames, hrows, hframe⟩ :=
    reserveBucket_counts hdb₀ htag (Nat.zero_le now) (fun row hrow => hopen.unblocked (by simp) hrow)
      (hopen.attempts pair (by simp) hname) (show db.throttleRows < maxRows - 4 by omega)
  exact ⟨blocked, db₁, hcounts, hblocked, hdb₁, husernames, hrows, hkind ▸ hframe⟩

-- The username of the reservation sets a block that the turn of the address then meets.
theorem not_allowed_of_failures (hkinds : pair.kind = .pair ∧ name.kind = .username ∧ address.kind = .ip)
    (hdb : db.Untagged) (htag : pair.recoveryUserID = "") (hopen : Admissible now db [pair, name, address] maxRows)
    (hmany : 9 ≤ failuresOf now db name) {reservation : ThrottleReservation} {db' : DB}
    (h : reserveAll now maxRows clock [pair, name, address] 0 { db with maxRows := some maxRows } =
      .ok (reservation, db')) : reservation.allowed = false := by
  obtain ⟨blocked, db₁, hpair, -, -, husernames, hrows, -⟩ := pair_counts hkinds.1 hdb htag hopen
  have hroom := hopen.room
  have hmany₁ : 9 ≤ totalFailures (lockUsernames now db₁ name.candidates) := by
    rw [lockUsernames_congr husernames]
    exact hmany
  rw [reserveAll, hpair, ok_bind] at h
  simp only [reserveAll, bind_eq_ok] at h
  obtain ⟨⟨turn, db₂⟩, hname, h⟩ := h
  rcases reserveIdentity_cases hname with ⟨-, r, hreserve, hturn⟩ | ⟨hkind, -⟩
  · rcases hturn with ⟨hallowed, rfl⟩ | ⟨hrefused, rfl⟩
    · have hlive := reserveUsernameThrottle_blocks (by omega) hmany₁ hreserve hallowed
      simp only [bind_eq_ok] at h
      obtain ⟨⟨turn', db₃⟩, haddress, h⟩ := h
      rw [reserveIdentity_bucket (by simp [hkinds.2.2])] at haddress
      obtain ⟨r', rfl⟩ := reserveBucket_blocked (lt_of_lt_of_le hlive (Nat.le_max_right _ _)) haddress
      simp only [pure_eq_ok, Prod.mk.injEq] at h
      rw [← h.1]
    · simp only [pure_eq_ok, Prod.mk.injEq] at h
      rw [← h.1]
      exact hrefused
  · exact absurd hkinds.2.1 hkind

-- Below nine failures all three turns count the attempt and none of them sets a block.
theorem allowed_of_failures (clock : Clock) (hkinds : pair.kind = .pair ∧ name.kind = .username ∧ address.kind = .ip)
    (hdb : db.Untagged) (htags : pair.recoveryUserID = "" ∧ address.recoveryUserID = "") (hvalid : name.primary.Valid)
    (hopen : Admissible now db [pair, name, address] maxRows) (hfew : failuresOf now db name < 9) :
    ∃ blocked db', reserveAll now maxRows clock [pair, name, address] 0 { db with maxRows := some maxRows } =
      .ok (⟨blocked, true⟩, db') := by
  obtain ⟨blocked, db₁, hpair, hblocked, hdb₁, husernames, hrows, hframe⟩ := pair_counts hkinds.1 hdb htags.1 hopen
  have hroom := hopen.room
  have hfew₁ : totalFailures (lockUsernames now db₁ name.candidates) < 9 := by
    rw [lockUsernames_congr husernames]
    exact hfew
  have hlive₁ : ∀ key ∈ name.candidates, ∀ row, db₁.usernames.get? key = some row → row.live now = false := by
    rw [husernames]
    exact hopen.usernames name (by simp) hkinds.2.1
  obtain ⟨db₂, hname, hbuckets, hrows₂⟩ :
      ∃ db₂, reserveUsernameThrottle now (clock (0 + 1)) db₁ name maxRows = .ok (⟨0, true⟩, db₂) ∧
        db₂.buckets = db₁.buckets ∧ db₂.throttleRows ≤ db₁.throttleRows + 1 :=
    reserveUsernameThrottle_counts hvalid hlive₁ (by omega) hfew₁
  have hip : address.kind ≠ .username := by simp [hkinds.2.2]
  have hsame : rowsOf now db₂ address = rowsOf now db address := by
    refine rowsOf_congr fun key hkey => ?_
    rw [hbuckets]
    exact hframe key (by simp [hkey, hkinds.2.2])
  obtain ⟨blocked', db₃, haddress, -⟩ := reserveBucket_counts (hdb₁.of_buckets hbuckets) htags.2
    (Nat.max_le.2 ⟨hblocked, Nat.zero_le now⟩) (fun row hrow => hopen.unblocked (by simp) (hsame ▸ hrow))
    (by rw [hsame]; exact hopen.attempts address (by simp) hip) (show db₂.throttleRows < maxRows - 4 by omega)
  refine ⟨blocked', db₃, ?_⟩
  rw [reserveAll, hpair, ok_bind]
  simp only [reserveAll, reserveIdentity_username hkinds.2.1, hname, ok_bind, if_true, pure_bind,
    reserveIdentity_bucket hip]
  rw [haddress]
  rfl

end

-- With nothing stored against it, an attempt is allowed exactly if the username has fewer than nine failures that count
-- and no key has a reserved form: from the tenth failure on, the block an attempt sets refuses that attempt itself.
theorem reserveThrottle_allows_iff (config : WebConfig) {ip username : Bytes} {malformed : Bool}
    {ids : List ThrottleIdentity} (hids : config.identities ip username "" malformed = some ids) {db : DB}
    (hreach : (throttling Anonymous).Reachable db) (clock : Clock)
    (hopen : Admissible (clock 0) db ids config.authThrottleMaxRows) :
    (∃ blocked db', reserveThrottle clock db ids config.authThrottleMaxRows = .ok (⟨blocked, true⟩, db')) ↔
      Usable ids ∧ ∀ identity ∈ ids, identity.kind = .username → failuresOf (clock 0) db identity < 9 := by
  obtain ⟨pair, name, address, rfl, hpair, hname, haddress, hpairForm, hnameForm, haddressForm⟩ :=
    WebConfig.identities_formed hids
  have hdb := untagged_of_reachable hreach
  have hkinds := And.intro hpair (And.intro hname haddress)
  have hvalidate := validate_built_iff config.max_valid hkinds ⟨hpairForm, hnameForm, haddressForm⟩
  have hcap : require (db.maxRows = none ∨ db.maxRows = some config.authThrottleMaxRows)
      (AuthError.invalid "throttle max rows differs from durable configuration") = .ok () := require_pos hopen.cap
  constructor
  · rintro ⟨blocked, db', h⟩
    simp only [reserveThrottle, bind_eq_ok] at h
    obtain ⟨⟨⟩, hvalid, -, -, h⟩ := h
    refine ⟨hvalidate.1 hvalid, fun identity hmem hkind => ?_⟩
    obtain rfl : identity = name := by
      simp only [List.mem_cons, List.not_mem_nil, or_false] at hmem
      rcases hmem with rfl | rfl | rfl
      · simp [hpair] at hkind
      · rfl
      · simp [haddress] at hkind
    by_contra hmany
    have := not_allowed_of_failures hkinds hdb hpairForm.untagged hopen (by omega) h
    simp at this
  · rintro ⟨husable, hfew⟩
    obtain ⟨-, hvalid, -⟩ := validateThrottleIdentities_eq_ok.1 (hvalidate.2 husable)
    obtain ⟨blocked, db', hall⟩ := allowed_of_failures (fun n => clock (n + 1)) hkinds hdb
      ⟨hpairForm.untagged, haddressForm.untagged⟩
      ((hvalid name (by simp)).keys name.primary (by simp [ThrottleIdentity.candidates])) hopen
      (hfew name (by simp) hname)
    refine ⟨blocked, db', ?_⟩
    simp only [reserveThrottle, hvalidate.2 husable, ok_bind, hcap, hall]

-- One key in each ring, and the digests of one client and one username under them.
def oneKeyConfig : WebConfig where
  csrfKeys := ⟨"c1", Table.empty.put "c1" (List.replicate 32 7)⟩
  usernameThrottleKeys := ⟨"u1", Table.empty.put "u1" (List.replicate 32 9), []⟩
  authThrottleMaxRows := 10000
  csrf_valid := by decide
  username_valid := by decide
  max_valid := by decide

def adminPairDigest : Digest :=
  ⟨[0x5b, 0x7e, 0x99, 0x89, 0x19, 0x5b, 0xb8, 0x3c, 0xf8, 0x3e, 0xf4, 0x3e, 0x07, 0x56, 0x12, 0x88,
    0x94, 0xae, 0x60, 0x93, 0x0e, 0x87, 0x01, 0x13, 0xe5, 0xff, 0x9f, 0xda, 0x87, 0x7b, 0x2f, 0xc7], rfl⟩

def adminNameDigest : Digest :=
  ⟨[0xd0, 0x97, 0x0a, 0x76, 0x72, 0xd2, 0x21, 0xd0, 0x1a, 0xff, 0x7d, 0x23, 0xdd, 0x74, 0xbb, 0xc0,
    0x96, 0x30, 0x2f, 0x61, 0x38, 0x9f, 0x64, 0x65, 0x07, 0xfd, 0x14, 0xab, 0xb0, 0x84, 0xb4, 0x76], rfl⟩

def clientDigest : Digest :=
  ⟨[0x70, 0x36, 0x6f, 0x68, 0xc5, 0xd7, 0x94, 0xd0, 0xb2, 0xf5, 0x11, 0x2b, 0xdf, 0x09, 0xe7, 0xc1,
    0x8b, 0x7a, 0x06, 0xfe, 0xdf, 0xc5, 0xba, 0xe0, 0x34, 0x82, 0x46, 0x22, 0x61, 0xb8, 0x1f, 0x7c], rfl⟩

def adminLogin : List ThrottleIdentity :=
  [⟨.pair, "c1", adminPairDigest, [], ""⟩, ⟨.username, "u1", adminNameDigest, [], ""⟩, ⟨.ip, "c1", clientDigest, [], ""⟩]

theorem identities_adminLogin :
    oneKeyConfig.identities (Bytes.ofString "203.0.113.7") (Bytes.ofString "admin") "" false = some adminLogin := by
  decide +kernel

theorem anonymous_adminLogin : Anonymous adminLogin := by
  intro identity hmem
  simp only [adminLogin, List.mem_cons, List.not_mem_nil, or_false] at hmem
  rcases hmem with rfl | rfl | rfl
  · rfl
  · rfl
  · rfl

-- An admissible state read off the tables: no row is blocked, and the counters of the identities are low.
theorem admissible_of_tables {now maxRows : Nat} {db : DB} {ids : List ThrottleIdentity}
    (hcap : db.maxRows = none ∨ db.maxRows = some maxRows) (hroom : db.throttleRows + 8 ≤ maxRows)
    (hnames : (db.usernames.rows.all fun row => row.2.blockedUntil == none) = true)
    (hbuckets : (db.buckets.rows.all fun row => row.2.blockedUntil == none) = true)
    (hattempts : ∀ identity ∈ ids, identity.kind ≠ .username → attemptsOf now db identity < throttleLimit identity.kind) :
    Admissible now db ids maxRows := by
  refine ⟨hcap, hroom, fun identity _ _ key _ row hrow => ?_, fun identity _ key _ start row hrow block hblock => ?_,
    hattempts⟩
  · have hnone := List.all_eq_true.1 hnames _ ((Table.mem_rows_iff _ _ _).2 hrow)
    simp only [beq_iff_eq] at hnone
    simp [UsernameRow.live, hnone]
  · have hnone := List.all_eq_true.1 hbuckets _ ((Table.mem_rows_iff _ _ _).2 hrow)
    simp only [beq_iff_eq] at hnone
    rw [hnone] at hblock
    cases hblock

theorem reserveThrottle_allows_iff_adminLogin :
    (∃ blocked db', reserveThrottle (fun n => minutes 60 + n) emptyDB adminLogin 10000 = .ok (⟨blocked, true⟩, db')) ↔
      Usable adminLogin ∧ ∀ identity ∈ adminLogin, identity.kind = .username →
        failuresOf (minutes 60) emptyDB identity < 9 := by
  refine reserveThrottle_allows_iff oneKeyConfig identities_adminLogin (reachable_emptyDB _) (fun n => minutes 60 + n) ?_
  exact admissible_of_tables (.inl rfl) (by decide) (by decide) (by decide) (by decide)

-- Nine failed attempts, four in one window, four in the next and one in a third.
def nineFailures : DB :=
  reserveEach adminLogin 10000 ([71, 72, 73, 74, 75, 76, 77, 78, 90].map minutes) emptyDB

-- The tenth attempt, with no block stored and attempts left, is refused.
theorem tenth_attempt_refused :
    ¬ ∀ (config : WebConfig) (ip username : Bytes) (malformed : Bool) (ids : List ThrottleIdentity) (db : DB)
      (clock : Clock), config.identities ip username "" malformed = some ids → (throttling Anonymous).Reachable db →
      Admissible (clock 0) db ids config.authThrottleMaxRows →
      ∃ blocked db', reserveThrottle clock db ids config.authThrottleMaxRows = .ok (⟨blocked, true⟩, db') := by
  intro h
  have hadmissible : Admissible (minutes 91) nineFailures adminLogin 10000 :=
    admissible_of_tables (.inr (by decide)) (by decide) (by decide) (by decide)
      (by decide)
  obtain ⟨blocked, db', hallowed⟩ := h oneKeyConfig _ _ false adminLogin nineFailures (fun n => minutes 91 + n)
    identities_adminLogin (reachable_reserveEach anonymous_adminLogin _ _ (reachable_emptyDB _)) hadmissible
  have hrefused : (reserveThrottle (fun n => minutes 91 + n) nineFailures adminLogin 10000).toOption.any
      (fun result => !result.1.allowed) = true := by decide
  obtain ⟨result, hresult, hnot⟩ := ok_of_any hrefused
  have heq := hresult.symm.trans hallowed
  cases heq
  simp at hnot

end AutoDeploy.Auth
