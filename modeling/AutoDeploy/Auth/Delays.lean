import AutoDeploy.Auth.Limits
import AutoDeploy.Lib.Calls

namespace AutoDeploy.Auth

open Lib Lib.Result

-- The delays a reservation imposes on a username: for a turn of the username that is allowed, the length of the block it
-- sets, 0 if it sets none. A turn that is refused meets an older block and imposes nothing.
def delaysOf (client : Client) (now : Nat) (maxRows : Nat) : Clock → List ThrottleIdentity → Nat → DB → List Nat
  | _, [], _, _ => []
  | clock, identity :: rest, blocked, db =>
      let after := match reserveIdentity now (clock 0) blocked maxRows db identity with
        | .ok (.next blocked', db') => delaysOf client now maxRows (fun n => clock (n + 1)) rest blocked' db'
        | _ => []
      if client.owns identity then
        match reserveUsernameThrottle now (clock 0) db identity maxRows with
        | .ok (reservation, _) => after ++ if reservation.allowed then [reservation.blockedUntil - now] else []
        | .error _ => after
      else after

-- The database with what is remembered of one username: the keys it was active under, the delays imposed on it, the
-- newest first, the end of the last reservation's block, or its moment, and the last reading of the clock.
structure Siege where
  db : DB
  used : List ThrottleAlias
  imposed : List Nat
  due : Option Nat
  time : Nat

namespace Siege

variable (client : Client)

def step (w : Siege) : LimitCall → Siege
  | .reserve clock ids maxRows =>
      match reserveThrottle clock w.db ids maxRows with
      | .error _ => w
      | .ok (reservation, db) =>
          if ids.any client.owns then
            { db
              used := (ids.filter client.owns).map ThrottleIdentity.primary ++ w.used
              imposed := delaysOf client (clock 0) maxRows (fun n => clock (n + 1)) ids 0
                { w.db with maxRows := some maxRows } ++ w.imposed
              due := some (max (clock 0) reservation.blockedUntil)
              time := clock 0 }
          else { w with db, time := clock 0 }
  | .cleanup ended clock clock' place place' limit =>
      match cleanupThrottle clock clock' place place' w.db limit with
      | .error _ => w
      | .ok (_, db) => { w with db, time := ended }

-- The clock does not go back. An identity is the username's or has nothing to do with it; at most one of a reservation is
-- the username's, it lists every key the username was active under, it is not routed to the overflow row, and it comes
-- at most a minute after the last reservation or the end of its block.
def Fair (w : Siege) : LimitCall → Prop
  | .reserve clock ids maxRows =>
      w.time ≤ clock 0 ∧ (∀ identity ∈ ids, client.owns identity = true ∨ client.ignores identity = true) ∧
        (ids.filter client.owns).length ≤ 1 ∧
        (∀ identity ∈ ids, client.owns identity = true →
          (∀ key ∈ w.used, key ∈ identity.candidates) ∧ ∀ due ∈ w.due, clock 0 ≤ due + minutes 1) ∧
        ∀ turn ∈ turnsOf (clock 0) maxRows (fun n => clock (n + 1)) ids 0 { w.db with maxRows := some maxRows },
          client.owns turn.1 = true → usernameOverflows turn.2 turn.1 maxRows = false
  | .cleanup ended _ _ _ _ _ => w.time ≤ ended

-- No row of the username with ten failures or more has lost its authority: none is inactive when the username is
-- reserved, and none is old enough for a cleanup.
def Active (w : Siege) : LimitCall → Prop
  | .reserve clock ids _ => ids.any client.owns = true → ∀ key ∈ client.keys, ∀ row ∈ w.db.usernames.get? key,
      10 ≤ row.failures → row.inactive (clock 0) = false
  | .cleanup _ _ clock' _ _ _ => ∀ key ∈ client.keys, ∀ row ∈ w.db.usernames.get? key, 10 ≤ row.failures →
      row.live (clock'.second key) = true ∨ clock'.first key ≤ row.updatedAt + minutes 15

end Siege

-- The runs of reservations and cleanups, as the username sees them; `keeps` is what every call meets.
def besieging (client : Client) (keeps : Siege → LimitCall → Prop) : System Siege :=
  callSystem (fun w => w.db.throttleRows = 0 ∧ w.used = [] ∧ w.imposed = [] ∧ w.due = none)
    (fun w call => w.Fair client call ∧ keeps w call) (Siege.step client)

-- The delays, the newest first, never decrease and stay at 15 minutes once they are that long.
def Unrelenting (imposed : List Nat) : Prop :=
  imposed.Pairwise (fun later earlier => earlier ≤ later) ∧
    ∀ later earlier, imposed = later ++ minutes 15 :: earlier → ∀ delay ∈ later, delay = minutes 15

section

variable {now stamp blocked maxRows delay : Nat} {db db' : DB} {identity : ThrottleIdentity} {client : Client}
  {turn : Turn} {keys : List ThrottleAlias}

theorem usernameDelay_le (failures : Nat) : usernameDelay failures ≤ minutes 15 := Nat.min_le_right _ _

theorem usernameDelay_mono {failures failures' : Nat} (h : min 15 failures ≤ failures') :
    usernameDelay failures ≤ usernameDelay failures' := by
  have hexponent : min (failures - 10) 5 ≤ min (failures' - 10) 5 := by omega
  have hpower : 2 ^ min (failures - 10) 5 ≤ 2 ^ min (failures' - 10) 5 := Nat.pow_le_pow_right (by omega) hexponent
  have := Nat.mul_le_mul_left 30000000 hpower
  unfold usernameDelay
  omega

-- Failures are added up to 15: each row counts for what it has.
theorem le_totalFailures {rows : List (ThrottleAlias × UsernameRow)} {entry : ThrottleAlias × UsernameRow}
    (hmem : entry ∈ rows) : min 15 entry.2.failures ≤ totalFailures rows := by
  have hgrows : ∀ (rows : List (ThrottleAlias × UsernameRow)) (total : Nat),
      min 15 total ≤ rows.foldl (fun total row => min 15 (total + row.2.failures)) total := by
    intro rows
    induction rows with
    | nil =>
        intro total
        exact Nat.min_le_right _ _
    | cons row rest ih =>
        intro total
        have := ih (min 15 (total + row.2.failures))
        simp only [List.foldl_cons]
        omega
  have hcounts : ∀ (rows : List (ThrottleAlias × UsernameRow)) (total : Nat), entry ∈ rows →
      min 15 entry.2.failures ≤ rows.foldl (fun total row => min 15 (total + row.2.failures)) total := by
    intro rows
    induction rows with
    | nil => simp
    | cons row rest ih =>
        intro total hentry
        simp only [List.foldl_cons]
        rcases List.mem_cons.1 hentry with rfl | hrest
        · have := hgrows rest (min 15 (total + entry.2.failures))
          omega
        · exact ih _ hrest
  exact hcounts rows 0 hmem

-- A delay is sustained by a stored row with as many failures as it takes.
def Sustained (keys : List ThrottleAlias) (delay : Nat) (db : DB) : Prop :=
  delay = 0 ∨ ∃ key ∈ keys, ∃ row, db.usernames.get? key = some row ∧ 10 ≤ row.failures ∧ delay ≤ usernameDelay row.failures

theorem Sustained.mono {keys' : List ThrottleAlias} (h : Sustained keys delay db) (hsub : keys ⊆ keys') :
    Sustained keys' delay db := by
  rcases h with rfl | ⟨key, hkey, hrow⟩
  · exact .inl rfl
  · exact .inr ⟨key, hsub hkey, hrow⟩

theorem Sustained.congr (h : Sustained keys delay db)
    (hsame : ∀ key ∈ keys, db'.usernames.get? key = db.usernames.get? key) : Sustained keys delay db' := by
  rcases h with rfl | ⟨key, hkey, row, hrow, hfailures, hdelay⟩
  · exact .inl rfl
  · exact .inr ⟨key, hkey, row, (hsame key hkey).trans hrow, hfailures, hdelay⟩

-- A row that sustains a delay is among those a turn finds, as it is stored.
theorem Sustained.found (h : Sustained identity.candidates delay db)
    (hactive : ∀ key ∈ identity.candidates, ∀ row, db.usernames.get? key = some row → 10 ≤ row.failures →
      row.inactive now = false) :
    delay = 0 ∨ ∃ key row, (key, row) ∈ lockUsernames now db identity.candidates ∧ db.usernames.get? key = some row ∧
      10 ≤ row.failures ∧ delay ≤ usernameDelay row.failures := by
  rcases h with rfl | ⟨key, hkey, row, hrow, hfailures, hdelay⟩
  · exact .inl rfl
  · refine .inr ⟨key, row, mem_lockUsernames.2 ⟨hkey, row, hrow, ?_⟩, hrow, hfailures, hdelay⟩
    simp only [UsernameRow.current, hactive key hkey row hrow hfailures, Bool.false_eq_true, if_false]

theorem get?_mergeUsernames_own {own : ThrottleAlias} {rows : List (ThrottleAlias × UsernameRow)} :
    (mergeUsernames db own own rows).usernames.get? own = db.usernames.get? own := by
  unfold mergeUsernames
  split
  · rfl
  · rw [Table.get?_keep]
    cases db.usernames.get? own with
    | none => rfl
    | some row => simp

-- A turn of the username: if it is allowed it imposes a delay at least as long as the last one, and in any case the delay
-- is sustained under the key the identity is counted under.
theorem reserveUsernameThrottle_sustains {reservation : ThrottleReservation}
    (hkey : identity.primary.keyVersion ≠ "overflow") (hover : usernameOverflows db identity maxRows = false)
    (hactive : ∀ key ∈ identity.candidates, ∀ row, db.usernames.get? key = some row → 10 ≤ row.failures →
      row.inactive now = false) (hdelay : Sustained identity.candidates delay db)
    (h : reserveUsernameThrottle now stamp db identity maxRows = .ok (reservation, db')) :
    (reservation.allowed = true → delay ≤ reservation.blockedUntil - now ∧ reservation.blockedUntil - now ≤ minutes 15 ∧
      Sustained [identity.primary] (reservation.blockedUntil - now) db') ∧
    (reservation.allowed = false → Sustained [identity.primary] delay db') := by
  have hfound := hdelay.found hactive
  cases reserveUsernameThrottle_cases h with
  | full hover' _ =>
      rw [hover] at hover'
      cases hover'
  | overflow hover' _ _ =>
      rw [hover] at hover'
      cases hover'
  | own _ hcounts =>
      generalize hrows : lockUsernames now db identity.candidates = rows at hfound hcounts
      cases hcounts with
      | kept block hlive hone =>
          refine ⟨fun hallowed => Bool.noConfusion hallowed, fun _ => ?_⟩
          rcases hfound with rfl | ⟨key, row, hmem, hrow, hfailures, hle⟩
          · exact .inl rfl
          · -- There is one row, the one of the identity's own key.
            obtain ⟨hprimary, hlength⟩ := hone.resolve_left hkey
            obtain ⟨own, hown⟩ := Option.isSome_iff_exists.1 hprimary
            have hmine : (identity.primary, own.current now) ∈ rows := by
              rw [← hrows]
              exact mem_lockUsernames.2 ⟨List.mem_cons_self, own, hown, rfl⟩
            obtain ⟨only, honly⟩ := List.length_eq_one_iff.1 (Nat.le_antisymm hlength (List.length_pos_of_mem hmem))
            rw [honly, List.mem_singleton] at hmem hmine
            obtain rfl : key = identity.primary := congrArg Prod.fst (hmem.trans hmine.symm)
            exact .inr ⟨_, List.mem_singleton_self _, row, get?_mergeUsernames_own.trans hrow, hfailures, hle⟩
      | merged block hlive _ =>
          refine ⟨fun hallowed => Bool.noConfusion hallowed, fun _ => ?_⟩
          rcases hfound with rfl | ⟨key, row, hmem, hrow, hfailures, hle⟩
          · exact .inl rfl
          · have htotal : min 15 row.failures ≤ totalFailures rows := le_totalFailures hmem
            refine .inr ⟨_, List.mem_singleton_self _, _, Table.get?_put_self _ _ _, ?_, ?_⟩
            · show 10 ≤ totalFailures rows
              omega
            · exact hle.trans (usernameDelay_mono htotal)
      | counted hlive =>
          refine ⟨fun _ => ?_, fun hrefused => Bool.noConfusion hrefused⟩
          have hle : delay = 0 ∨ (10 ≤ min 15 (totalFailures rows + 1) ∧
              delay ≤ usernameDelay (min 15 (totalFailures rows + 1))) := by
            rcases hfound with rfl | ⟨key, row, hmem, hrow, hfailures, hle⟩
            · exact .inl rfl
            · have htotal : min 15 row.failures ≤ totalFailures rows := le_totalFailures hmem
              exact .inr ⟨by omega, hle.trans (usernameDelay_mono (by omega))⟩
          by_cases hten : 10 ≤ min 15 (totalFailures rows + 1)
          · have hlength : (usernameBlock now (min 15 (totalFailures rows + 1))).getD 0 - now =
                usernameDelay (min 15 (totalFailures rows + 1)) := by
              simp [usernameBlock, hten]
            rw [hlength]
            refine ⟨?_, usernameDelay_le _, ?_⟩
            · rcases hle with rfl | ⟨-, hle⟩
              · exact Nat.zero_le _
              · exact hle
            · exact .inr ⟨_, List.mem_singleton_self _, _, Table.get?_put_self _ _ _, hten, Nat.le_refl _⟩
          · have hlength : (usernameBlock now (min 15 (totalFailures rows + 1))).getD 0 - now = 0 := by
              simp [usernameBlock, hten]
            rw [hlength]
            refine ⟨?_, Nat.zero_le _, .inl rfl⟩
            rcases hle with rfl | ⟨hten', -⟩
            · exact Nat.le_refl _
            · exact absurd hten' hten

-- A username's turn writes under the key it is counted under and deletes rows it found.
theorem CountsUsername.frame {own key other : ThrottleAlias} {rows : List (ThrottleAlias × UsernameRow)} {found : Bool}
    {reservation : ThrottleReservation} (h : CountsUsername now stamp db own key rows found reservation db')
    (hkey : other ≠ key) (hrows : ∀ entry ∈ rows, entry.1 ≠ other) :
    db'.usernames.get? other = db.usernames.get? other := by
  have hmerge : (mergeUsernames db own key rows).usernames.get? other = db.usernames.get? other := by
    have hnone : (rows.any fun row => row.1 == other) = false := by simpa using hrows
    unfold mergeUsernames
    split
    · rfl
    · rw [Table.get?_keep]
      cases db.usernames.get? other with
      | none => rfl
      | some row => simp [hnone]
  cases h with
  | kept _ _ _ => exact hmerge
  | merged _ _ _ => simpa only [Table.get?_put, if_neg hkey] using hmerge
  | counted _ => simpa only [Table.get?_put, if_neg hkey] using hmerge

theorem reserveBucket_usernames (h : reserveBucket now blocked maxRows db identity = .ok (turn, db')) :
    db'.usernames = db.usernames := by
  obtain ⟨recovery, merged, blocked', -, hmigrates, hcounts⟩ := reserveBucket_cases h
  have hmerged : merged.usernames = db.usernames := by
    cases hmigrates with
    | none _ => rfl
    | moved _ _ _ _ => rfl
  refine Eq.trans ?_ hmerged
  cases hcounts with
  | refused _ => rfl
  | overflow _ _ _ _ hattempt =>
      cases hattempt with
      | refused _ => rfl
      | counted _ _ => rfl
  | own _ hattempt =>
      cases hattempt with
      | refused _ => rfl
      | counted _ _ => rfl

-- A turn that has nothing to do with the username leaves its rows alone.
theorem reserveIdentity_usernames (hkind : client.kind = .username) (hignores : client.ignores identity = true)
    {key : ThrottleAlias} (hkey : key ∈ client.keys) (hover : key.keyVersion ≠ "overflow")
    (h : reserveIdentity now stamp blocked maxRows db identity = .ok (turn, db')) :
    db'.usernames.get? key = db.usernames.get? key := by
  obtain ⟨hname, reservation, hreserve, -⟩ | ⟨-, hbucket⟩ := reserveIdentity_cases h
  · have hother : key ∉ identity.candidates := by
      simp only [Client.ignores, hname, hkind, ne_eq, not_true_eq_false, decide_false, Bool.false_or, List.all_eq_true,
        decide_eq_true_eq] at hignores
      exact fun hmem => hignores key hmem hkey
    have hne : key ≠ overflowKey := fun heq => hover (congrArg ThrottleAlias.keyVersion heq)
    cases reserveUsernameThrottle_cases hreserve with
    | full _ _ => rfl
    | overflow _ _ hcounts =>
        refine hcounts.frame hne fun entry hmem => ?_
        rw [List.mem_singleton.1 (mem_lockUsernames.1 hmem).1]
        exact Ne.symm hne
    | own _ hcounts =>
        refine hcounts.frame (fun heq => hother (heq ▸ List.mem_cons_self)) fun entry hmem heq => ?_
        exact hother (heq ▸ (mem_lockUsernames.1 hmem).1)
  · rw [reserveBucket_usernames hbucket]

theorem delaysOf_eq_nil {clock : Clock} {ids : List ThrottleIdentity} (hnone : ids.filter client.owns = []) :
    delaysOf client now maxRows clock ids blocked db = [] := by
  induction ids generalizing clock blocked db with
  | nil => rfl
  | cons identity rest ih =>
      have hrest : rest.filter client.owns = [] := by
        refine List.filter_eq_nil_iff.2 fun other hmem => ?_
        exact List.filter_eq_nil_iff.1 hnone other (List.mem_cons_of_mem _ hmem)
      have hfirst : client.owns identity ≠ true := List.filter_eq_nil_iff.1 hnone identity List.mem_cons_self
      simp only [delaysOf, if_neg hfirst]
      split
      · exact ih hrest
      · rfl

theorem reserveAll_usernames (hkind : client.kind = .username) {clock : Clock} {ids : List ThrottleIdentity}
    {reservation : ThrottleReservation} (hignores : ∀ identity ∈ ids, client.ignores identity = true)
    {key : ThrottleAlias} (hkey : key ∈ client.keys) (hover : key.keyVersion ≠ "overflow")
    (h : reserveAll now maxRows clock ids blocked db = .ok (reservation, db')) :
    db'.usernames.get? key = db.usernames.get? key := by
  refine reserveAll_preserves (P := fun d => d.usernames.get? key = db.usernames.get? key) clock ids
    (fun identity hmem stamp blocked d turn d' hd hturn => ?_) h rfl
  exact (reserveIdentity_usernames hkind (hignores identity hmem) hkey hover hturn).trans hd

-- The reservation whose first identity is the username's.
theorem reserveAll_sustains_first (hkind : client.kind = .username) {clock : Clock} {rest : List ThrottleIdentity}
    {reservation : ThrottleReservation} (howns : client.owns identity = true)
    (hvalid : ∀ key ∈ identity.candidates, key.keyVersion ≠ "overflow")
    (hrest : ∀ other ∈ rest, client.owns other = false ∧ client.ignores other = true)
    (hover : usernameOverflows db identity maxRows = false)
    (hactive : ∀ key ∈ client.keys, key.keyVersion ≠ "overflow" → ∀ row,
      db.usernames.get? key = some row → 10 ≤ row.failures → row.inactive now = false)
    (hdelay : Sustained identity.candidates delay db)
    (h : reserveAll now maxRows clock (identity :: rest) blocked db = .ok (reservation, db')) :
    (delaysOf client now maxRows clock (identity :: rest) blocked db = [] ∧ Sustained [identity.primary] delay db') ∨
      ∃ next, delaysOf client now maxRows clock (identity :: rest) blocked db = [next] ∧ delay ≤ next ∧
        next ≤ minutes 15 ∧ Sustained [identity.primary] next db' := by
  obtain ⟨hname, hmine⟩ := owns_iff.1 howns
  have hprimary : identity.primary ∈ identity.candidates := List.mem_cons_self
  simp only [reserveAll, bind_eq_ok] at h
  obtain ⟨⟨turn, d⟩, hfirst, h⟩ := h
  obtain ⟨-, first, hreserve, hturn⟩ | ⟨hother, -⟩ := reserveIdentity_cases hfirst
  · obtain ⟨hallowed, hrefused⟩ := reserveUsernameThrottle_sustains (hvalid _ hprimary) hover
      (fun key hkey => hactive key (hmine key hkey) (hvalid key hkey)) hdelay hreserve
    have hnone : rest.filter client.owns = [] := by
      refine List.filter_eq_nil_iff.2 fun other hmem => ?_
      simp [(hrest other hmem).1]
    rcases hturn with ⟨hallow, rfl⟩ | ⟨hrefuse, rfl⟩
    · have hsame := reserveAll_usernames hkind (fun other hmem => (hrest other hmem).2) (hmine _ hprimary)
        (hvalid _ hprimary) h
      obtain ⟨hle, hcap, hsustained⟩ := hallowed hallow
      refine .inr ⟨first.blockedUntil - now, ?_, hle, hcap, hsustained.congr fun key hkey => ?_⟩
      · simp only [delaysOf, if_pos howns, hfirst, hreserve, delaysOf_eq_nil hnone, hallow, if_true, List.nil_append]
      · rw [List.mem_singleton.1 hkey]
        exact hsame
    · simp only [pure_eq_ok, Prod.mk.injEq] at h
      refine .inl ⟨?_, h.2 ▸ hrefused hrefuse⟩
      simp only [delaysOf, if_pos howns, hfirst, hreserve, hrefuse, Bool.false_eq_true, if_false, List.append_nil]
  · exact absurd (hname.trans hkind) hother

-- One reservation: it imposes no delay and the last one is sustained, or it imposes one that is at least as long.
theorem reserveAll_sustains (hkind : client.kind = .username) {clock : Clock} {ids : List ThrottleIdentity}
    {reservation : ThrottleReservation}
    (hvalid : ∀ identity ∈ ids, ∀ key ∈ identity.candidates, key.keyVersion ≠ "overflow")
    (hall : ∀ identity ∈ ids, client.owns identity = true ∨ client.ignores identity = true)
    (hfew : (ids.filter client.owns).length ≤ 1)
    (hkeys : ∀ key ∈ keys, key ∈ client.keys ∧ key.keyVersion ≠ "overflow")
    (hlists : ∀ identity ∈ ids, client.owns identity = true → keys ⊆ identity.candidates)
    (hroom : ∀ turn ∈ turnsOf now maxRows clock ids blocked db, client.owns turn.1 = true →
      usernameOverflows turn.2 turn.1 maxRows = false)
    (hactive : ids.any client.owns = true → ∀ key ∈ client.keys, key.keyVersion ≠ "overflow" → ∀ row,
      db.usernames.get? key = some row → 10 ≤ row.failures → row.inactive now = false)
    (hdelay : Sustained keys delay db)
    (h : reserveAll now maxRows clock ids blocked db = .ok (reservation, db')) :
    (delaysOf client now maxRows clock ids blocked db = [] ∧
        Sustained ((ids.filter client.owns).map ThrottleIdentity.primary ++ keys) delay db') ∨
      ∃ next, delaysOf client now maxRows clock ids blocked db = [next] ∧ delay ≤ next ∧ next ≤ minutes 15 ∧
        Sustained ((ids.filter client.owns).map ThrottleIdentity.primary ++ keys) next db' := by
  induction ids generalizing clock blocked db with
  | nil =>
      simp only [reserveAll] at h
      cases h
      exact .inl ⟨rfl, hdelay⟩
  | cons identity rest ih =>
      by_cases howns : client.owns identity = true
      · have hnone : rest.filter client.owns = [] := by
          rw [List.filter_cons_of_pos howns, List.length_cons] at hfew
          exact List.length_eq_zero_iff.1 (by omega)
        have hothers : ∀ other ∈ rest, client.owns other = false ∧ client.ignores other = true := by
          intro other hmem
          have hnot := List.filter_eq_nil_iff.1 hnone other hmem
          exact ⟨by simpa using hnot, (hall other (List.mem_cons_of_mem _ hmem)).resolve_left hnot⟩
        have hlisted := hdelay.mono (hlists identity List.mem_cons_self howns)
        have hsub : [identity.primary] ⊆ ((identity :: rest).filter client.owns).map ThrottleIdentity.primary ++ keys := by
          rw [List.filter_cons_of_pos howns]
          simp
        rcases reserveAll_sustains_first hkind howns (hvalid identity List.mem_cons_self) hothers
            (hroom (identity, db) (by simp [turnsOf]) howns) (hactive (by simp [howns])) hlisted h with
          ⟨hnil, hsustained⟩ | ⟨next, hone, hle, hcap, hsustained⟩
        · exact .inl ⟨hnil, hsustained.mono hsub⟩
        · exact .inr ⟨next, hone, hle, hcap, hsustained.mono hsub⟩
      · simp only [reserveAll, bind_eq_ok] at h
        obtain ⟨⟨turn, d⟩, hfirst, h⟩ := h
        have hignores := (hall identity List.mem_cons_self).resolve_left howns
        have hsame : ∀ key ∈ client.keys, key.keyVersion ≠ "overflow" → d.usernames.get? key = db.usernames.get? key :=
          fun key hkey hover => reserveIdentity_usernames hkind hignores hkey hover hfirst
        have hdelay' : Sustained keys delay d := hdelay.congr fun key hkey => hsame key (hkeys key hkey).1 (hkeys key hkey).2
        rw [List.filter_cons_of_neg howns] at hfew ⊢
        simp only [delaysOf, if_neg howns]
        cases turn with
        | refused r =>
            simp only [pure_eq_ok, Prod.mk.injEq] at h
            rw [← h.2]
            simp only [hfirst]
            exact .inl ⟨trivial, hdelay'.mono (List.subset_append_right _ _)⟩
        | next blocked' =>
            simp only [hfirst]
            refine ih (fun other hmem => hvalid other (List.mem_cons_of_mem _ hmem))
              (fun other hmem => hall other (List.mem_cons_of_mem _ hmem)) hfew
              (fun other hmem => hlists other (List.mem_cons_of_mem _ hmem)) (fun later hmem => hroom later ?_)
              (fun hany key hkey hover row hrow => ?_) hdelay' h
            · simp only [turnsOf, hfirst]
              exact List.mem_cons_of_mem _ hmem
            · rw [hsame key hkey hover] at hrow
              refine hactive ?_ key hkey hover row hrow
              rw [List.any_cons, hany, Bool.or_true]

end

-- The invariant: the last delay is sustained by a row under a key the username was active under.
structure Siege.Held (client : Client) (w : Siege) : Prop where
  keys : ∀ key ∈ w.used, key ∈ client.keys ∧ key.keyVersion ≠ "overflow"
  ordered : w.imposed.Pairwise fun later earlier => earlier ≤ later
  capped : ∀ delay ∈ w.imposed, delay ≤ minutes 15
  sustained : Sustained w.used (w.imposed.headD 0) w.db

section

variable {client : Client} {w : Siege}

theorem Siege.Held.unrelenting (h : w.Held client) : Unrelenting w.imposed := by
  refine ⟨h.ordered, fun later earlier hsplit delay hmem => Nat.le_antisymm (h.capped delay ?_) ?_⟩
  · rw [hsplit]
    exact List.mem_append_left _ hmem
  · have hordered := h.ordered
    rw [hsplit, List.pairwise_append] at hordered
    exact hordered.2.2 delay hmem (minutes 15) List.mem_cons_self

theorem Siege.Held.le_head (h : w.Held client) {delay : Nat} (hmem : delay ∈ w.imposed) : delay ≤ w.imposed.headD 0 := by
  have hordered := h.ordered
  cases himposed : w.imposed with
  | nil =>
      rw [himposed] at hmem
      exact absurd hmem List.not_mem_nil
  | cons head rest =>
      rw [himposed] at hmem hordered
      rcases List.mem_cons.1 hmem with rfl | hrest
      · exact Nat.le_refl _
      · exact (List.pairwise_cons.1 hordered).1 delay hrest

theorem Siege.Held.reserve (hkind : client.kind = .username) (h : w.Held client) {clock : Clock}
    {ids : List ThrottleIdentity} {maxRows : Nat} {reservation : ThrottleReservation} {db : DB}
    (hfair : w.Fair client (.reserve clock ids maxRows)) (hactive : w.Active client (.reserve clock ids maxRows))
    (hreserve : reserveThrottle clock w.db ids maxRows = .ok (reservation, db)) (due : Option Nat) :
    Siege.Held client
      { db
        used := (ids.filter client.owns).map ThrottleIdentity.primary ++ w.used
        imposed := delaysOf client (clock 0) maxRows (fun n => clock (n + 1)) ids 0
          { w.db with maxRows := some maxRows } ++ w.imposed
        due
        time := clock 0 } := by
  obtain ⟨-, hall, hfew, hlists, hroom⟩ := hfair
  simp only [reserveThrottle, bind_eq_ok] at hreserve
  obtain ⟨⟨⟩, hvalidate, -, -, hloop⟩ := hreserve
  obtain ⟨-, hvalid, -⟩ := validateThrottleIdentities_eq_ok.1 hvalidate
  have hnot : ∀ identity ∈ ids, ∀ key ∈ identity.candidates, key.keyVersion ≠ "overflow" :=
    fun identity hmem key hkey => ((hvalid identity hmem).keys key hkey).2.1
  have hkeys : ∀ key ∈ (ids.filter client.owns).map ThrottleIdentity.primary ++ w.used,
      key ∈ client.keys ∧ key.keyVersion ≠ "overflow" := by
    intro key hkey
    rcases List.mem_append.1 hkey with hkey | hkey
    · obtain ⟨identity, hmem, rfl⟩ := List.mem_map.1 hkey
      obtain ⟨hmem, howns⟩ := List.mem_filter.1 hmem
      exact ⟨(owns_iff.1 howns).2 _ List.mem_cons_self, hnot identity hmem _ List.mem_cons_self⟩
    · exact h.keys key hkey
  rcases reserveAll_sustains hkind hnot hall hfew h.keys (fun identity hmem howns => (hlists identity hmem howns).1) hroom
      (fun hany key hkey _ => hactive hany key hkey) h.sustained hloop with
    ⟨hnil, hsustained⟩ | ⟨next, hone, hle, hcap, hsustained⟩
  · rw [hnil]
    exact ⟨hkeys, h.ordered, h.capped, hsustained⟩
  · rw [hone]
    refine ⟨hkeys, List.pairwise_cons.2 ⟨fun delay hmem => (h.le_head hmem).trans hle, h.ordered⟩, ?_, hsustained⟩
    intro delay hmem
    rcases List.mem_cons.1 hmem with rfl | hmem
    · exact hcap
    · exact h.capped delay hmem

theorem mem_staleUsernames {clock : Readings ThrottleAlias} {limit : Nat} {place : ThrottleAlias → Nat} {db : DB}
    {key : ThrottleAlias} {row : UsernameRow} (hrow : db.usernames.get? key = some row)
    (h : key ∈ (staleUsernames clock place db limit).map Prod.fst) :
    row.updatedAt + minutes 15 < clock.first key ∧ row.live (clock.second key) = false := by
  obtain ⟨⟨key', row'⟩, hmem, rfl⟩ := List.mem_map.1 h
  have hselected := (List.mem_insertionSort _).1 (List.mem_of_mem_take hmem)
  obtain ⟨hrow', hstale⟩ := (Table.mem_select _ _ _ _).1 hselected
  obtain rfl : row' = row := Option.some.inj (hrow'.symm.trans hrow)
  simp only [Bool.and_eq_true, decide_eq_true_eq] at hstale
  refine ⟨hstale.1, ?_⟩
  have hpast := hstale.2
  unfold UsernameRow.live
  cases hblock : row'.blockedUntil with
  | none => rfl
  | some block =>
      rw [hblock] at hpast
      simpa using hpast

theorem Siege.Held.cleanup (h : w.Held client) {ended : Nat} {clock : Readings BucketKey}
    {clock' : Readings ThrottleAlias} {place : BucketKey → Nat} {place' : ThrottleAlias → Nat} {limit deleted : Nat}
    {db : DB} (hactive : w.Active client (.cleanup ended clock clock' place place' limit))
    (hcleanup : cleanupThrottle clock clock' place place' w.db limit = .ok (deleted, db)) :
    Siege.Held client { w with db, time := ended } := by
  simp only [cleanupThrottle, bind_eq_ok, pure_eq_ok, Prod.mk.injEq] at hcleanup
  obtain ⟨-, -, -, rfl⟩ := hcleanup
  refine ⟨h.keys, h.ordered, h.capped, ?_⟩
  rcases h.sustained with hzero | ⟨key, hkey, row, hrow, hfailures, hdelay⟩
  · exact .inl hzero
  · refine .inr ⟨key, hkey, row, ?_, hfailures, hdelay⟩
    simp only [Table.get?_keep, hrow, Option.filter_some, ite_eq_left_iff]
    intro hgone
    obtain ⟨hold, hnotLive⟩ := mem_staleUsernames hrow (by simpa using hgone)
    rcases hactive key (h.keys key hkey).1 row hrow hfailures with hlive | hrecent
    · rw [hnotLive] at hlive
      cases hlive
    · omega

theorem Siege.Held.step (hkind : client.kind = .username) (h : w.Held client) {call : LimitCall}
    (hfair : w.Fair client call) (hactive : w.Active client call) : (w.step client call).Held client := by
  cases call with
  | reserve clock ids maxRows =>
      cases hreserve : reserveThrottle clock w.db ids maxRows with
      | error e => simpa only [Siege.step, hreserve] using h
      | ok result =>
          obtain ⟨reservation, db⟩ := result
          have hnext := fun due => h.reserve hkind hfair hactive hreserve due
          by_cases hany : ids.any client.owns = true
          · simp only [Siege.step, hreserve, if_pos hany]
            exact hnext _
          · have hnone : ids.filter client.owns = [] := by
              refine List.filter_eq_nil_iff.2 fun identity hmem howns => hany ?_
              exact List.any_eq_true.2 ⟨identity, hmem, howns⟩
            have hquiet := hnext w.due
            simp only [Siege.step, hreserve, if_neg hany]
            simpa only [hnone, delaysOf_eq_nil hnone, List.map_nil, List.nil_append] using hquiet
  | cleanup ended clock clock' place place' limit =>
      cases hcleanup : cleanupThrottle clock clock' place place' w.db limit with
      | error e => simpa only [Siege.step, hcleanup] using h
      | ok result =>
          obtain ⟨deleted, db⟩ := result
          simp only [Siege.step, hcleanup]
          exact h.cleanup hactive hcleanup

end

-- In every run in which no row of the username with ten failures or more is inactive when it is read or old enough for a
-- cleanup, the delays never decrease and stay at 15 minutes.
theorem delays_unrelenting {client : Client} (hkind : client.kind = .username) {w : Siege}
    (h : (besieging client (Siege.Active client)).Reachable w) : Unrelenting w.imposed := by
  refine (h.invariant (P := Siege.Held client) (fun start hstart => ?_) fun before after hbefore hnext => ?_).unrelenting
  · obtain ⟨-, hused, himposed, -⟩ := hstart
    refine ⟨?_, ?_, ?_, ?_⟩
    · simp [hused]
    · simp [himposed]
    · simp [himposed]
    · exact .inl (by simp [himposed])
  · obtain ⟨call, ⟨hfair, hactive⟩, rfl⟩ := hnext
    exact hbefore.step hkind hfair hactive

instance (client : Client) (w : Siege) : ∀ call, Decidable (w.Fair client call)
  | .reserve _ _ _ => inferInstanceAs (Decidable (_ ∧ _))
  | .cleanup _ _ _ _ _ _ => inferInstanceAs (Decidable (_ ≤ _))

instance (client : Client) (w : Siege) : ∀ call, Decidable (w.Active client call)
  | .reserve _ _ _ => inferInstanceAs (Decidable (_ → _))
  | .cleanup _ _ _ _ _ _ => inferInstanceAs (Decidable (∀ key ∈ client.keys, _))

def adminName : Client := ⟨.username, {⟨"u1", adminNameDigest⟩}⟩

def emptySiege : Siege := ⟨emptyDB, [], [], none, 0⟩

theorem reachable_emptySiege (client : Client) (keeps : Siege → LimitCall → Prop) :
    (besieging client keeps).Reachable emptySiege :=
  .of_initial ⟨rfl, rfl, rfl, rfl⟩

def seconds (n : Nat) : Nat := n * 1000000

def attemptAt (second : Nat) : LimitCall :=
  .reserve (fun n => seconds second + n) [⟨.username, "u1", adminNameDigest, [], ""⟩] 10000

-- Fifteen failures, each soon after the last one or after the block it set.
def fifteenAttempts : List LimitCall :=
  [3600, 3610, 3620, 3630, 3640, 3650, 3660, 3670, 3680, 3690, 3730, 3800, 3930, 4180, 4670].map attemptAt

theorem delays_unrelenting_fifteenAttempts :
    (fifteenAttempts.foldl (Siege.step adminName) emptySiege).imposed =
        [900, 480, 240, 120, 60, 30, 0, 0, 0, 0, 0, 0, 0, 0, 0].map seconds ∧
      Unrelenting (fifteenAttempts.foldl (Siege.step adminName) emptySiege).imposed := by
  have hreach : (besieging adminName (Siege.Active adminName)).Reachable
      (fifteenAttempts.foldl (Siege.step adminName) emptySiege) :=
    reachable_calls fifteenAttempts (reachable_emptySiege _ _) (by decide +kernel)
  exact ⟨by decide +kernel, delays_unrelenting (by decide) hreach⟩

-- Ten seconds after the block of 15 minutes has ended, the failures are forgotten: nine more attempts are free and the
-- tenth is delayed by 30 seconds.
def nextAttempts : List LimitCall :=
  [5580, 5590, 5600, 5610, 5620, 5630, 5640, 5650, 5660, 5670].map attemptAt

theorem delay_drops_after_longest :
    ¬ ∀ (client : Client) (w : Siege), client.kind = .username → (besieging client fun _ _ => True).Reachable w →
      Unrelenting w.imposed := by
  intro h
  have hreach : (besieging adminName fun _ _ => True).Reachable
      ((fifteenAttempts ++ nextAttempts).foldl (Siege.step adminName) emptySiege) :=
    reachable_calls (fifteenAttempts ++ nextAttempts) (reachable_emptySiege _ _) (by decide +kernel)
  have himposed : ((fifteenAttempts ++ nextAttempts).foldl (Siege.step adminName) emptySiege).imposed =
      ([30, 0, 0, 0, 0, 0, 0, 0, 0, 0] ++ 900 :: [480, 240, 120, 60, 30, 0, 0, 0, 0, 0, 0, 0, 0, 0]).map seconds := by
    decide +kernel
  have hstays := (h adminName _ rfl hreach).2
  rw [himposed, List.map_append, List.map_cons] at hstays
  have hdelay := hstays _ _ rfl (seconds 30) (by simp)
  exact absurd hdelay (by decide)

end AutoDeploy.Auth
