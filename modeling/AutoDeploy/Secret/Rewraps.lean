import AutoDeploy.Secret.Ledger
import AutoDeploy.Secret.Rotation

namespace AutoDeploy.Secret

open Lib Lib.Result Crypto

namespace Collation

variable (order : Collation)

theorem le_total (a b : Bytes) : order.le a b ∨ order.le b a := by
  by_cases hlt : order.lt b a = true
  · refine .inr (Bool.eq_false_iff.2 ?_)
    intro hgt
    have hself := order.trans _ _ _ hlt hgt
    rw [order.irrefl] at hself
    cases hself
  · exact .inl (Bool.eq_false_iff.2 hlt)

theorem le_trans {a b c : Bytes} (hab : order.le a b) (hbc : order.le b c) : order.le a c := by
  refine Bool.eq_false_iff.2 ?_
  intro hca
  by_cases hsame : b = c
  · subst hsame
    rw [Collation.le, hca] at hab
    cases hab
  · obtain hlt | hgt := order.total b c hsame
    · have hba := order.trans _ _ _ hlt hca
      rw [Collation.le, hba] at hab
      cases hab
    · rw [Collation.le, hgt] at hbc
      cases hbc

theorem lt_of_le_of_ne {a b : Bytes} (h : order.le a b) (hne : a ≠ b) : order.lt a b = true := by
  obtain hlt | hgt := order.total a b hne
  · exact hlt
  · rw [Collation.le, hgt] at h
    cases h

instance : Std.Total order.le := ⟨order.le_total⟩

instance : IsTrans Bytes order.le := ⟨fun _ _ _ => order.le_trans⟩

end Collation

-- The versions a rotation of the key has to move.
def DB.LiveUnder (db : DB) (kekID id : Bytes) : Prop :=
  ∃ row, db.versions.get? id = some row ∧ row.envelope.kekID = kekID ∧ row.state ≠ .revoked

-- The ids the query goes through, in its order, and the version it returns for one.
def DB.idsPast (db : DB) (order : Collation) (kekID cursor : Bytes) : List Bytes :=
  ((db.versions.select fun id row => row.envelope.kekID == kekID && row.state != .revoked && order.lt cursor id &&
    db.heads.contains row.secretID).map Prod.fst).insertionSort order.le

def DB.versionAt (db : DB) (id : Bytes) : Option Version := do
  let row ← db.versions.get? id
  let head ← db.heads.get? row.secretID
  pure (row.version id head)

section

variable {order : Collation} {db : DB} {kekID cursor id : Bytes} {limit : Nat} {versions : List Version}

theorem listVersionsByKEK_eq_ok (h : listVersionsByKEK order db kekID cursor limit = .ok versions) :
    1 ≤ limit ∧ versions = ((db.idsPast order kekID cursor).take limit).filterMap db.versionAt := by
  simp only [listVersionsByKEK, bind_eq_ok, require_eq_ok, pure_eq_ok] at h
  obtain ⟨_, ⟨_, _, hlimit, _⟩, _, _, rfl⟩ := h
  exact ⟨hlimit, rfl⟩

theorem versionAt_eq_some {v : Version} (h : db.versionAt id = some v) :
    ∃ row head, db.versions.get? id = some row ∧ db.heads.get? row.secretID = some head ∧ v = row.version id head := by
  simp only [DB.versionAt, Option.bind_eq_bind, Option.bind_eq_some_iff, Option.pure_def, Option.some.injEq] at h
  obtain ⟨row, hrow, head, hhead, rfl⟩ := h
  exact ⟨row, head, hrow, hhead, rfl⟩

theorem mem_idsPast : id ∈ db.idsPast order kekID cursor ↔ ∃ row head, db.versions.get? id = some row ∧
    db.heads.get? row.secretID = some head ∧ row.envelope.kekID = kekID ∧ row.state ≠ .revoked ∧
    order.lt cursor id = true := by
  simp only [DB.idsPast, List.mem_insertionSort, List.mem_map, Prod.exists, Table.mem_select, Bool.and_eq_true,
    beq_iff_eq, bne_iff_ne, Table.contains, Option.isSome_iff_exists]
  constructor
  · rintro ⟨_, row, ⟨hrow, ⟨⟨hkek, hstate⟩, hlt⟩, head, hhead⟩, rfl⟩
    exact ⟨row, head, hrow, hhead, hkek, hstate, hlt⟩
  · rintro ⟨row, head, hrow, hhead, hkek, hstate, hlt⟩
    exact ⟨id, row, ⟨hrow, ⟨⟨hkek, hstate⟩, hlt⟩, head, hhead⟩, rfl⟩

theorem idsPast_nodup : (db.idsPast order kekID cursor).Nodup := by
  refine ((List.perm_insertionSort _ _).nodup_iff).2 ?_
  exact (List.filter_sublist.map Prod.fst).nodup db.versions.nodup

theorem idsPast_sorted : (db.idsPast order kekID cursor).Pairwise order.le := List.pairwise_insertionSort order.le _

-- Every version of the page is a stored one.
theorem listed_stored (h : listVersionsByKEK order db kekID cursor limit = .ok versions) {v : Version}
    (hv : v ∈ versions) :
    ∃ row head, db.versions.get? v.id = some row ∧ db.heads.get? row.secretID = some head ∧
      v = row.version v.id head := by
  obtain ⟨_, rfl⟩ := listVersionsByKEK_eq_ok h
  obtain ⟨id, _, hid⟩ := List.mem_filterMap.1 hv
  obtain ⟨row, head, hrow, hhead, rfl⟩ := versionAt_eq_some hid
  exact ⟨row, head, hrow, hhead, rfl⟩

theorem listed_ids (h : listVersionsByKEK order db kekID cursor limit = .ok versions) :
    versions.map Version.id = (db.idsPast order kekID cursor).take limit := by
  obtain ⟨_, rfl⟩ := listVersionsByKEK_eq_ok h
  rw [List.map_filterMap]
  refine (List.filterMap_congr ?_).trans List.filterMap_some
  intro x hx
  obtain ⟨row, head, hrow, hhead, _⟩ := mem_idsPast.1 (List.mem_of_mem_take hx)
  simp [DB.versionAt, hrow, hhead, VersionRow.version]

-- The page holds the first of the versions past the cursor: what it leaves out comes after its last.
theorem listed_complete (h : listVersionsByKEK order db kekID cursor limit = .ok versions) (hdb : db.Consistent)
    (hlive : db.LiveUnder kekID id) (hid : order.lt cursor id = true) :
    id ∈ versions.map Version.id ∨ ∃ last, versions.getLast? = some last ∧ order.lt last.id id = true := by
  have hids := listed_ids h
  have hselected : id ∈ db.idsPast order kekID cursor := by
    obtain ⟨row, hrow, hkek, hstate⟩ := hlive
    obtain ⟨head, hhead⟩ := hdb.owned id row hrow
    exact mem_idsPast.2 ⟨row, head, hrow, hhead, hkek, hstate, hid⟩
  have hnodup : (db.idsPast order kekID cursor).Nodup := idsPast_nodup
  have hsorted : (db.idsPast order kekID cursor).Pairwise order.le := idsPast_sorted
  rw [← List.take_append_drop limit (db.idsPast order kekID cursor)] at hselected hnodup hsorted
  obtain hpage | hrest := List.mem_append.1 hselected
  · rw [hids]
    exact .inl hpage
  · -- the page is full, and its last version comes before
    have hfull : versions ≠ [] := by
      rintro rfl
      obtain hzero | hnone := List.take_eq_nil_iff.1 hids.symm
      · have hlimit := (listVersionsByKEK_eq_ok h).1
        omega
      · rw [hnone, List.drop_nil] at hrest
        cases hrest
    refine .inr ⟨_, List.getLast?_eq_some_getLast hfull, ?_⟩
    have hlast : (versions.getLast hfull).id ∈ (db.idsPast order kekID cursor).take limit := by
      rw [← hids]
      exact List.mem_map.2 ⟨_, List.getLast_mem hfull, rfl⟩
    refine order.lt_of_le_of_ne ((List.pairwise_append.1 hsorted).2.2 _ hlast _ hrest) ?_
    intro hsame
    rw [hsame] at hlast
    exact (List.nodup_append.1 hnodup).2.2 id hlast id hrest rfl

end

-- A key that may be retired is referenced by no version, whatever its state.
theorem unreferenced_of_canRetire {db : DB} {provider : KeyProvider} {kekID : Bytes}
    (h : canRetire db provider kekID = .ok ()) {id : Bytes} {row : VersionRow}
    (hrow : db.versions.get? id = some row) : row.envelope.kekID ≠ kekID := by
  simp only [canRetire, bind_eq_ok, require_eq_ok, mapError_eq_ok, countVersionsByKEK, pure_eq_ok] at h
  obtain ⟨_, _, ⟨_, _⟩, _, _, _, _, _, n, ⟨_, _, rfl⟩, hzero⟩ := h
  intro hsame
  have hmem : (id, row) ∈ db.versions.select fun _ row => row.envelope.kekID == kekID :=
    (Table.mem_select _ _ _ _).2 ⟨hrow, by simp [hsame]⟩
  rw [List.length_eq_zero_iff.1 hzero] at hmem
  cases hmem

section

variable {w w' : World} {i : Nat}

-- The steps of a rewrap, when its call is where it has to be.
theorem next_rewrapReserve {v : Version} {provider : KeyProvider} (hcall : w.calls[i]? = some (.listed v))
    (h : w.next (.rewrapReserve i provider) = some w') :
    ∃ dek newID newKey db, newID ≠ v.envelope.kekID ∧ db.versions = w.db.versions ∧
      w' = { w with db := db, calls := w.calls.set i (.rewrapReserved v dek newID newKey) } := by
  simp only [World.next, hcall, Option.bind_eq_bind, Option.bind_eq_some_iff, toOption_eq_some, Option.pure_def,
    Option.some.injEq] at h
  obtain ⟨⟨dek, newID, newKey⟩, hkeys, db, hreserve, rfl⟩ := h
  obtain ⟨_, _, _, _, _, hnew⟩ := rewrapKeys_eq_ok hkeys
  obtain ⟨_, _, _, _, hdb⟩ := reserveWrapInvocation_eq_ok hreserve
  exact ⟨dek, newID, newKey, db, hnew, by rw [hdb], rfl⟩

theorem next_rewrapSeal {wrapped : Bytes} (h : w.next (.rewrapSeal i wrapped) = some w') :
    ∃ v dek newID newKey envelope, w.calls[i]? = some (.rewrapReserved v dek newID newKey) ∧ envelope.kekID = newID ∧
      w'.db = w.db ∧ w'.calls = w.calls.set i (.rewrapSealed v envelope) := by
  simp only [World.next] at h
  split at h
  · rename_i v dek newID newKey hcall
    split at h
    · cases h
      exact ⟨v, dek, newID, newKey, _, hcall, rfl, rfl, rfl⟩
    · cases h
  · cases h

theorem next_rewrapStore {v : Version} {envelope : Envelope} (hcall : w.calls[i]? = some (.rewrapSealed v envelope))
    (h : w.next (.rewrapStore i) = some w') :
    ∃ db, rewrap w.db v.scope v.id v.envelopeRevision envelope = .ok db ∧
      w' = { w with db := db, calls := w.calls.set i .ended } := by
  simp only [World.next, hcall, Option.bind_eq_bind, Option.bind_eq_some_iff, toOption_eq_some, Option.pure_def,
    Option.some.injEq] at h
  obtain ⟨db, hstore, rfl⟩ := h
  exact ⟨db, hstore, rfl⟩

-- Calls the event leaves alone stay where they are.
theorem next_leaves {e : Event} {pending : List Nat} {c : Call} (hnext : w.next e = some w')
    (hleaves : e.leaves pending = true) (hi : i ∈ pending) (hcall : w.calls[i]? = some c) :
    w'.calls[i]? = some c := by
  have happend (added : Call) : (w.calls ++ [added])[i]? = some c := by
    rw [List.getElem?_append_left (List.getElem?_eq_some_iff.1 hcall).1]
    exact hcall
  have hset {j : Nat} (hj : (!pending.contains j) = true) (new : Call) : (w.calls.set j new)[i]? = some c := by
    have hne : j ≠ i := by
      rintro rfl
      simp [hi] at hj
    rw [List.getElem?_set_ne hne]
    exact hcall
  cases e with
  | restart =>
      rw [List.isEmpty_iff.1 hleaves] at hi
      cases hi
  | begin r =>
      simp only [World.next, Option.bind_eq_bind, Option.bind_eq_some_iff, Option.pure_def, Option.some.injEq] at hnext
      obtain ⟨_, _, rfl⟩ := hnext
      exact happend _
  | list id =>
      simp only [World.next, Option.bind_eq_bind, Option.bind_eq_some_iff, Option.pure_def, Option.some.injEq] at hnext
      obtain ⟨_, _, _, _, rfl⟩ := hnext
      exact happend _
  | reserveLost kekID | initLedger kekID generationID | audit a =>
      simp only [World.next, Option.bind_eq_bind, Option.bind_eq_some_iff, Option.pure_def, Option.some.injEq] at hnext
      obtain ⟨_, _, rfl⟩ := hnext
      exact hcall
  | reserve j provider | rewrapReserve j provider =>
      simp only [World.next] at hnext
      split at hnext
      · simp only [Option.bind_eq_bind, Option.bind_eq_some_iff, Option.pure_def, Option.some.injEq] at hnext
        obtain ⟨_, _, _, _, rfl⟩ := hnext
        exact hset hleaves _
      · cases hnext
  | encrypt j draw | rewrapSeal j wrapped =>
      simp only [World.next] at hnext
      split at hnext
      · split at hnext
        · cases hnext
          exact hset hleaves _
        · cases hnext
      · cases hnext
  | commit j | rewrapStore j =>
      simp only [World.next] at hnext
      split at hnext
      · simp only [Option.bind_eq_bind, Option.bind_eq_some_iff, Option.pure_def, Option.some.injEq] at hnext
        obtain ⟨_, _, rfl⟩ := hnext
        exact hset hleaves _
      · cases hnext
  | abandon j =>
      cases hnext
      exact hset hleaves _

-- What no event but a commit and the store of a rewrap writes.
theorem next_versions {e : Event} (hnext : w.next e = some w') :
    w'.db.versions = w.db.versions ∨
      (∃ i r m, e = .commit i ∧ w.calls[i]? = some (.sealed r m) ∧ Committed r.kind w.db m w'.db) ∨
      ∃ i v envelope, e = .rewrapStore i ∧ w.calls[i]? = some (.rewrapSealed v envelope) := by
  cases e with
  | restart | abandon j =>
      cases hnext
      exact .inl rfl
  | begin r =>
      simp only [World.next, Option.bind_eq_bind, Option.bind_eq_some_iff, Option.pure_def, Option.some.injEq] at hnext
      obtain ⟨_, _, rfl⟩ := hnext
      exact .inl rfl
  | list id =>
      simp only [World.next, Option.bind_eq_bind, Option.bind_eq_some_iff, Option.pure_def, Option.some.injEq] at hnext
      obtain ⟨_, _, _, _, rfl⟩ := hnext
      exact .inl rfl
  | reserveLost kekID =>
      simp only [World.next, Option.bind_eq_bind, Option.bind_eq_some_iff, toOption_eq_some, Option.pure_def,
        Option.some.injEq] at hnext
      obtain ⟨_, hreserve, rfl⟩ := hnext
      obtain ⟨_, _, _, _, rfl⟩ := reserveWrapInvocation_eq_ok hreserve
      exact .inl rfl
  | initLedger kekID generationID =>
      simp only [World.next, Option.bind_eq_bind, Option.bind_eq_some_iff, toOption_eq_some, Option.pure_def,
        Option.some.injEq] at hnext
      obtain ⟨_, hinit, rfl⟩ := hnext
      obtain ⟨_, _, _, rfl⟩ := initializeActiveLedger_eq_ok hinit
      exact .inl rfl
  | audit a =>
      simp only [World.next, Option.bind_eq_bind, Option.bind_eq_some_iff, toOption_eq_some, Option.pure_def,
        Option.some.injEq] at hnext
      obtain ⟨_, haudit, rfl⟩ := hnext
      obtain ⟨_, _, _, _, rfl⟩ := appendMaterializationAudit_eq_ok haudit
      exact .inl rfl
  | reserve j provider | rewrapReserve j provider =>
      simp only [World.next] at hnext
      split at hnext
      · simp only [Option.bind_eq_bind, Option.bind_eq_some_iff, toOption_eq_some, Option.pure_def,
          Option.some.injEq] at hnext
        obtain ⟨_, _, _, hreserve, rfl⟩ := hnext
        obtain ⟨_, _, _, _, rfl⟩ := reserveWrapInvocation_eq_ok hreserve
        exact .inl rfl
      · cases hnext
  | encrypt j draw | rewrapSeal j wrapped =>
      simp only [World.next] at hnext
      split at hnext
      · split at hnext
        · cases hnext
          exact .inl rfl
        · cases hnext
      · cases hnext
  | commit j =>
      simp only [World.next] at hnext
      split at hnext
      · rename_i r m hcall
        simp only [Option.bind_eq_bind, Option.bind_eq_some_iff, toOption_eq_some, Option.pure_def,
          Option.some.injEq] at hnext
        obtain ⟨_, hcommit, rfl⟩ := hnext
        exact .inr (.inl ⟨j, r, m, rfl, hcall, commit_committed hcommit⟩)
      · cases hnext
  | rewrapStore j =>
      simp only [World.next] at hnext
      split at hnext
      · rename_i v envelope hcall
        exact .inr (.inr ⟨j, v, envelope, rfl, hcall⟩)
      · cases hnext

end

-- A rewrap moves its version to the key of its envelope, and no other.
theorem live_rewrap {db db' : DB} {scope : Scope} {versionID kekID id : Bytes} {expectedRevision : Nat}
    {envelope : Envelope} (h : rewrap db scope versionID expectedRevision envelope = .ok db')
    (hmoved : envelope.kekID ≠ kekID) (hlive : db'.LiveUnder kekID id) : db.LiveUnder kekID id ∧ id ≠ versionID := by
  obtain ⟨_, _, row, hrow, _, _, _, rfl⟩ := Secret.rewrap_eq_ok h
  obtain ⟨row', hrow', hkek, hstate⟩ := hlive
  by_cases hid : id = versionID
  · subst hid
    rw [Table.get?_put_self] at hrow'
    obtain rfl := Option.some.inj hrow'
    exact absurd hkek hmoved
  · rw [Table.get?_put, if_neg hid] at hrow'
    exact ⟨⟨row', hrow', hkek, hstate⟩, hid⟩

-- While nothing sealed under the key is stored, no version comes to be live under it.
theorem live_next {w w' : World} {e : Event} {kekID id : Bytes} (hnext : w.next e = some w')
    (hquiet : e.storesUnder w kekID = false) (hlive : w'.db.LiveUnder kekID id) : w.db.LiveUnder kekID id := by
  obtain hsame | ⟨i, r, m, rfl, hcall, hcommitted⟩ | ⟨i, v, envelope, rfl, hcall⟩ := next_versions hnext
  · obtain ⟨row, hrow, hrest⟩ := hlive
    rw [hsame] at hrow
    exact ⟨row, hrow, hrest⟩
  · simp only [Event.storesUnder, hcall, beq_eq_false_iff_ne] at hquiet
    obtain ⟨row, hrow, hkek, hstate⟩ := hlive
    obtain rfl | ⟨old, hold, henvelope⟩ := hcommitted.others id row hrow
    · obtain rfl := Option.some.inj (hcommitted.stored.symm.trans hrow)
      exact absurd hkek hquiet
    · refine ⟨old, hold, by rw [← henvelope]; exact hkek, ?_⟩
      -- a revoked version does not come back
      intro hrevoked
      obtain ⟨row', hrow', hfollows⟩ := hcommitted.follows.versions id old hold
      obtain rfl := Option.some.inj (hrow'.symm.trans hrow)
      rw [hfollows.revoked hrevoked] at hstate
      exact hstate hrevoked
  · simp only [Event.storesUnder, hcall, beq_eq_false_iff_ne] at hquiet
    obtain ⟨db, hstore, rfl⟩ := next_rewrapStore hcall hnext
    exact (live_rewrap hstore hquiet hlive).1

-- The version a rewrap is for, and whether it leads away from the key.
def Call.target : Call → Option Version
  | .listed v | .rewrapReserved v _ _ _ | .rewrapSealed v _ => some v
  | _ => none

def Call.leavesKey (kekID : Bytes) : Call → Prop
  | .rewrapReserved _ _ newID _ => newID ≠ kekID
  | .rewrapSealed _ envelope => envelope.kekID ≠ kekID
  | _ => True

-- The rest of a page: calls that rewrap, in the order of the page.
structure World.Page (w : World) (kekID : Bytes) (pending : List Nat) : Prop where
  nodup : pending.Nodup
  rewraps : ∀ i ∈ pending, ∃ c v, w.calls[i]? = some c ∧ c.target = some v ∧ c.leavesKey kekID

def World.targets (w : World) (pending : List Nat) (id : Bytes) : Prop :=
  ∃ i ∈ pending, ∃ c v, w.calls[i]? = some c ∧ c.target = some v ∧ v.id = id

-- Where the pass is: every version still live under the old key is on the rest of the page or comes after the page.
def Rotation.Covered (order : Collation) (s : Rotation) : Prop :=
  match s.pass.stage with
  | .between => s.pass.conflicts = 0 → ∀ id, s.world.db.LiveUnder s.pass.oldKEKID id → order.lt s.pass.cursor id = true
  | .looping request pending result =>
      request.oldKEKID = s.pass.oldKEKID ∧ request.dryRun = false ∧ result.conflicts = 0 ∧
        s.world.Page s.pass.oldKEKID pending ∧
        ∃ bound, (pending = [] → result.nextCursor = bound) ∧
          (∀ i, pending.getLast? = some i → ∃ c v, s.world.calls[i]? = some c ∧ c.target = some v ∧ v.id = bound) ∧
          (s.pass.conflicts = 0 → ∀ id, s.world.db.LiveUnder s.pass.oldKEKID id →
            s.world.targets pending id ∨ (result.selected ≠ 0 ∧ order.lt bound id = true))
  | .finished => s.pass.conflicts = 0 → ∀ id, ¬ s.world.db.LiveUnder s.pass.oldKEKID id
  | .failed => True

-- The steps of a quiet pass, one case for each event.
inductive Rotation.Step (order : Collation) (s : Rotation) : Rotation → Prop
  | other {e : Event} {w : World} (hleaves : e.leaves s.pass.pending = true)
      (hquiet : e.storesUnder s.world s.pass.oldKEKID = false) (hnext : s.world.next e = some w) :
      Step order s { s with world := w }
  | call {provider : KeyProvider} {batchSize : Int} {versions : List Version} (hstage : s.pass.stage = .between)
      (hselect : selectBatch order s.world.db provider ⟨s.pass.oldKEKID, s.pass.cursor, batchSize, false⟩ = .ok versions) :
      Step order s
        { world := { s.world with calls := s.world.calls ++ versions.map Call.listed }
          pass := { s.pass with
            stage := .looping ⟨s.pass.oldKEKID, s.pass.cursor, batchSize, false⟩
              (List.range' s.world.calls.length versions.length) ⟨[], versions.length, 0, 0⟩ } }
  | skip {request : RewrapRequest} {i : Nat} {pending : List Nat} {result : RewrapResult} {w : World}
      (hstage : s.pass.stage = .looping request (i :: pending) result) (hdry : request.dryRun = true)
      (hnext : s.world.next (.abandon i) = some w) :
      Step order s ⟨w, { s.pass with stage := .looping request pending result }⟩
  | reserve {request : RewrapRequest} {i : Nat} {pending : List Nat} {result : RewrapResult} {v : Version}
      {provider : KeyProvider} {w : World} (hstage : s.pass.stage = .looping request (i :: pending) result)
      (hcall : s.world.calls[i]? = some (.listed v)) (hold : v.envelope.kekID = request.oldKEKID)
      (hnext : s.world.next (.rewrapReserve i provider) = some w) : Step order s { s with world := w }
  | wrap {request : RewrapRequest} {i : Nat} {pending : List Nat} {result : RewrapResult} {wrapped : Bytes} {w : World}
      (hstage : s.pass.stage = .looping request (i :: pending) result)
      (hnext : s.world.next (.rewrapSeal i wrapped) = some w) : Step order s { s with world := w }
  | store {request : RewrapRequest} {i : Nat} {pending : List Nat} {result : RewrapResult} {v : Version}
      {envelope : Envelope} {w : World} (hstage : s.pass.stage = .looping request (i :: pending) result)
      (hcall : s.world.calls[i]? = some (.rewrapSealed v envelope))
      (hnext : s.world.next (.rewrapStore i) = some w) :
      Step order s ⟨w, { s.pass with
        stage := .looping request pending { result with rewrapped := result.rewrapped + 1, nextCursor := v.id }
        rewrapped := v.id :: s.pass.rewrapped }⟩
  | conflict {request : RewrapRequest} {i : Nat} {pending : List Nat} {result : RewrapResult} {e : Event} {w : World}
      (hstage : s.pass.stage = .looping request (i :: pending) result) (hnext : s.world.next e = some w) :
      Step order s ⟨w, s.pass.returned { result with conflicts := result.conflicts + 1 }⟩
  | finish {request : RewrapRequest} {result : RewrapResult} (hstage : s.pass.stage = .looping request [] result) :
      Step order s { s with pass := s.pass.returned result }
  | fail : Step order s { s with pass := { s.pass with stage := .failed } }

theorem Rotation.step_of_next {order : Collation} {s s' : Rotation} {e : RotationEvent} (hreal : e.real = true)
    (hquiet : e.quiet s = true) (h : s.next order e = some s') : s.Step order s' := by
  cases e with
  | other e =>
      simp only [Rotation.next] at h
      split at h
      · rename_i hleaves
        obtain ⟨w, hnext, rfl⟩ := Option.map_eq_some_iff.1 h
        exact .other hleaves (by simpa [RotationEvent.quiet] using hquiet) hnext
      · cases h
  | call provider batchSize dryRun =>
      obtain rfl : dryRun = false := by simpa [RotationEvent.real] using hreal
      simp only [Rotation.next] at h
      split at h
      · rename_i hstage
        simp only [Option.bind_eq_bind, Option.bind_eq_some_iff, toOption_eq_some, Option.pure_def,
          Option.some.injEq] at h
        obtain ⟨versions, hselect, rfl⟩ := h
        exact .call hstage hselect
      · cases h
  | skip =>
      simp only [Rotation.next] at h
      split at h
      · rename_i hstage
        split at h
        · split at h
          · rename_i hskip
            obtain ⟨w, hnext, rfl⟩ := Option.map_eq_some_iff.1 h
            exact .skip hstage hskip.2 hnext
          · cases h
        · cases h
      · cases h
  | reserve provider =>
      simp only [Rotation.next] at h
      split at h
      · rename_i hstage
        split at h
        · rename_i hcall
          split at h
          · rename_i hcheck
            obtain ⟨w, hnext, rfl⟩ := Option.map_eq_some_iff.1 h
            have hold := hcheck.1
            simp only [rewrappable, Bool.and_eq_true, beq_iff_eq] at hold
            exact .reserve hstage hcall hold.1 hnext
          · cases h
        · cases h
      · cases h
  | wrap wrapped =>
      simp only [Rotation.next] at h
      split at h
      · rename_i hstage
        obtain ⟨w, hnext, rfl⟩ := Option.map_eq_some_iff.1 h
        exact .wrap hstage hnext
      · cases h
  | store =>
      simp only [Rotation.next] at h
      split at h
      · rename_i hstage
        split at h
        · rename_i hcall
          simp only [Option.bind_eq_bind, Option.bind_eq_some_iff, Option.pure_def, Option.some.injEq] at h
          obtain ⟨w, hnext, rfl⟩ := h
          exact .store hstage hcall hnext
        · cases h
      · cases h
  | conflict stored =>
      simp only [Rotation.next] at h
      split at h
      · rename_i hstage
        split at h
        · simp only [Option.bind_eq_bind, Option.bind_eq_some_iff, Option.pure_def, Option.some.injEq] at h
          obtain ⟨w, hnext, rfl⟩ := h
          exact .conflict hstage hnext
        · cases h
      · cases h
  | finish =>
      simp only [Rotation.next] at h
      split at h
      · rename_i hstage
        cases h
        exact .finish hstage
      · cases h
  | fail =>
      cases h
      exact .fail

-- Every step of the pass is one of the service, the reads of a page one after another.
theorem run_listed {w : World} {versions : List Version} (h : ∀ v ∈ versions, ∃ row head,
    w.db.versions.get? v.id = some row ∧ w.db.heads.get? row.secretID = some head ∧ v = row.version v.id head) :
    secretSystem.Run w { w with calls := w.calls ++ versions.map Call.listed } := by
  induction versions generalizing w with
  | nil =>
      rw [List.map_nil, List.append_nil]
      exact .refl
  | cons v versions ih =>
      obtain ⟨row, head, hrow, hhead, hv⟩ := h v List.mem_cons_self
      let read : World := { w with calls := w.calls ++ [.listed v] }
      have hread : w.next (.list v.id) = some read := by
        simp only [World.next, hrow, hhead, Option.bind_eq_bind, Option.bind_some, Option.pure_def, ← hv]
        rfl
      have hrest := @ih read (fun v' hv' => h v' (List.mem_cons_of_mem _ hv'))
      simp only [read, List.append_assoc, List.singleton_append] at hrest
      exact .head ⟨_, hread⟩ hrest

theorem selectBatch_eq_ok {order : Collation} {db : DB} {provider : KeyProvider} {request : RewrapRequest}
    {versions : List Version} (h : selectBatch order db provider request = .ok versions) :
    ∃ limit, listVersionsByKEK order db request.oldKEKID request.cursor limit = .ok versions := by
  simp only [selectBatch, bind_eq_ok, require_eq_ok, mapError_eq_ok] at h
  obtain ⟨_, _, _, _, ⟨_, _⟩, _, _, _, hlist⟩ := h
  exact ⟨_, hlist⟩

theorem Rotation.Step.run {order : Collation} {s s' : Rotation} (h : s.Step order s') :
    secretSystem.Run s.world s'.world := by
  cases h with
  | other _ _ hnext | reserve _ _ _ hnext | wrap _ hnext | store _ _ hnext | skip _ _ hnext | conflict _ hnext =>
      exact .single ⟨_, hnext⟩
  | call _ hselect =>
      obtain ⟨limit, hlist⟩ := selectBatch_eq_ok hselect
      exact run_listed fun v hv => listed_stored hlist hv
  | finish | fail => exact .refl

namespace Rotation.Covered

variable {order : Collation} {s : Rotation}

-- A step that keeps the calls of the page on their versions and makes no version live under the old key.
theorem kept (hs : s.Covered order) {w : World}
    (hlive : ∀ id, w.db.LiveUnder s.pass.oldKEKID id → s.world.db.LiveUnder s.pass.oldKEKID id)
    (hcalls : ∀ i ∈ s.pass.pending, ∀ c v, s.world.calls[i]? = some c → c.target = some v →
      c.leavesKey s.pass.oldKEKID → ∃ c', w.calls[i]? = some c' ∧ c'.target = some v ∧ c'.leavesKey s.pass.oldKEKID) :
    Rotation.Covered order { s with world := w } := by
  unfold Rotation.Covered at hs ⊢
  simp only [Pass.pending] at hcalls
  cases hstage : s.pass.stage with
  | between =>
      simp only [hstage] at hs ⊢
      exact fun hzero id hid => hs hzero id (hlive id hid)
  | finished =>
      simp only [hstage] at hs ⊢
      exact fun hzero id hid => hs hzero id (hlive id hid)
  | failed => trivial
  | looping request pending result =>
      simp only [hstage] at hs hcalls ⊢
      obtain ⟨hold, hdry, hnone, hpage, bound, hempty, hlast, hcovered⟩ := hs
      -- a call of the page is still there, for the same version
      have hkept {i : Nat} (hi : i ∈ pending) {c : Call} {v : Version} (hc : s.world.calls[i]? = some c)
          (hv : c.target = some v) :
          ∃ c', w.calls[i]? = some c' ∧ c'.target = some v ∧ c'.leavesKey s.pass.oldKEKID := by
        obtain ⟨c₀, v₀, hc₀, hv₀, hleaves⟩ := hpage.rewraps i hi
        obtain rfl := Option.some.inj (hc₀.symm.trans hc)
        exact hcalls i hi c₀ v hc hv hleaves
      refine ⟨hold, hdry, hnone, ⟨hpage.nodup, ?_⟩, bound, hempty, ?_, ?_⟩
      · intro i hi
        obtain ⟨c, v, hc, hv, _⟩ := hpage.rewraps i hi
        obtain ⟨c', hc', hv', hleaves'⟩ := hkept hi hc hv
        exact ⟨c', v, hc', hv', hleaves'⟩
      · intro i hi
        obtain ⟨c, v, hc, hv, hid⟩ := hlast i hi
        obtain ⟨c', hc', hv', _⟩ := hkept (List.mem_of_getLast? hi) hc hv
        exact ⟨c', v, hc', hv', hid⟩
      · intro hzero id hid
        refine (hcovered hzero id (hlive id hid)).imp_left ?_
        rintro ⟨i, hi, c, v, hc, hv, rfl⟩
        obtain ⟨c', hc', hv', _⟩ := hkept hi hc hv
        exact ⟨i, hi, c', v, hc', hv', rfl⟩

-- A step of one call of the page.
theorem advanced (hs : s.Covered order) {w : World} {i : Nat} {c c' : Call} {v : Version}
    (hcall : s.world.calls[i]? = some c) (hv : c.target = some v) (hcalls : w.calls = s.world.calls.set i c')
    (hv' : c'.target = some v) (hleaves : c.leavesKey s.pass.oldKEKID → c'.leavesKey s.pass.oldKEKID)
    (hversions : w.db.versions = s.world.db.versions) : Rotation.Covered order { s with world := w } := by
  refine hs.kept ?_ ?_
  · rintro id ⟨row, hrow, hrest⟩
    rw [hversions] at hrow
    exact ⟨row, hrow, hrest⟩
  · intro j _ cj vj hcj hvj hleavesj
    by_cases hji : j = i
    · subst hji
      obtain rfl := Option.some.inj (hcall.symm.trans hcj)
      refine ⟨c', ?_, hv'.trans (hv.symm.trans hvj), hleaves hleavesj⟩
      rw [hcalls, List.getElem?_set_self (List.getElem?_eq_some_iff.1 hcall).1]
    · refine ⟨cj, ?_, hvj, hleavesj⟩
      rw [hcalls, List.getElem?_set_ne (Ne.symm hji)]
      exact hcj

theorem called (hs : s.Covered order) (hdb : s.world.db.Consistent) {provider : KeyProvider} {batchSize : Int}
    {versions : List Version} (hstage : s.pass.stage = .between)
    (hselect : selectBatch order s.world.db provider ⟨s.pass.oldKEKID, s.pass.cursor, batchSize, false⟩ = .ok versions) :
    Rotation.Covered order
      { world := { s.world with calls := s.world.calls ++ versions.map Call.listed }
        pass := { s.pass with
          stage := .looping ⟨s.pass.oldKEKID, s.pass.cursor, batchSize, false⟩
            (List.range' s.world.calls.length versions.length) ⟨[], versions.length, 0, 0⟩ } } := by
  obtain ⟨limit, hlist⟩ := selectBatch_eq_ok hselect
  simp only [Rotation.Covered, hstage] at hs
  have hat {k : Nat} (hk : k < versions.length) :
      (s.world.calls ++ versions.map Call.listed)[s.world.calls.length + k]? = some (.listed versions[k]) := by
    rw [List.getElem?_append_right (Nat.le_add_right _ _)]
    simp [hk]
  refine ⟨rfl, rfl, rfl, ⟨List.nodup_range', ?_⟩, (versions.getLast?.map Version.id).getD [], ?_, ?_, ?_⟩
  · intro i hi
    obtain ⟨hle, hlt⟩ := List.mem_range'_1.1 hi
    obtain ⟨k, rfl⟩ := Nat.exists_eq_add_of_le hle
    have hk : k < versions.length := by omega
    exact ⟨_, _, hat hk, rfl, trivial⟩
  · intro hempty
    obtain rfl := List.length_eq_zero_iff.1 (List.range'_eq_nil_iff.1 hempty)
    rfl
  · intro i hi
    by_cases hnone : versions = []
    · subst hnone
      cases hi
    · have hpos : 0 < versions.length := List.length_pos_iff.2 hnone
      have hlast : i = s.world.calls.length + (versions.length - 1) := by
        rw [List.getLast?_range', if_neg hpos.ne'] at hi
        have := Option.some.inj hi
        omega
      subst hlast
      refine ⟨_, _, hat (by omega), rfl, ?_⟩
      rw [List.getLast?_eq_some_getLast hnone, List.getLast_eq_getElem]
      rfl
  · intro hzero id hlive
    obtain hmem | ⟨last, hlast, hlt⟩ := listed_complete hlist hdb hlive (hs hzero id hlive)
    · obtain ⟨v, hv, rfl⟩ := List.mem_map.1 hmem
      obtain ⟨k, hk, rfl⟩ := List.mem_iff_getElem.1 hv
      refine .inl ⟨s.world.calls.length + k, ?_, _, _, hat hk, rfl, rfl⟩
      exact List.mem_range'_1.2 ⟨Nat.le_add_right _ _, by omega⟩
    · refine .inr ⟨?_, ?_⟩
      · intro hnone
        rw [List.length_eq_zero_iff.1 hnone] at hlast
        cases hlast
      · rw [hlast]
        exact hlt

-- A stored rewrap takes its version off the page and off the key.
theorem stored (hs : s.Covered order) {request : RewrapRequest} {i : Nat} {pending : List Nat} {result : RewrapResult}
    {v : Version} {envelope : Envelope} {w : World} (hstage : s.pass.stage = .looping request (i :: pending) result)
    (hcall : s.world.calls[i]? = some (.rewrapSealed v envelope)) (hnext : s.world.next (.rewrapStore i) = some w) :
    Rotation.Covered order ⟨w, { s.pass with
      stage := .looping request pending { result with rewrapped := result.rewrapped + 1, nextCursor := v.id }
      rewrapped := v.id :: s.pass.rewrapped }⟩ := by
  simp only [Rotation.Covered, hstage] at hs
  obtain ⟨hold, hdry, hnone, hpage, bound, _, hlast, hcovered⟩ := hs
  obtain ⟨db, hstore, rfl⟩ := next_rewrapStore hcall hnext
  obtain ⟨hfresh, hnodup⟩ := List.nodup_cons.1 hpage.nodup
  have hmoved : envelope.kekID ≠ s.pass.oldKEKID := by
    obtain ⟨c, _, hc, _, hleaves⟩ := hpage.rewraps i List.mem_cons_self
    obtain rfl := Option.some.inj (hcall.symm.trans hc)
    exact hleaves
  have hrest {j : Nat} (hj : j ∈ pending) : (s.world.calls.set i .ended)[j]? = s.world.calls[j]? := by
    refine List.getElem?_set_ne ?_
    rintro rfl
    exact hfresh hj
  refine ⟨hold, hdry, hnone, ⟨hnodup, ?_⟩, bound, ?_, ?_, ?_⟩
  · intro j hj
    obtain ⟨c, v', hc, hv', hleaves⟩ := hpage.rewraps j (List.mem_cons_of_mem _ hj)
    exact ⟨c, v', (hrest hj).trans hc, hv', hleaves⟩
  · rintro rfl
    obtain ⟨c, v', hc, hv', rfl⟩ := hlast i rfl
    obtain rfl := Option.some.inj (hcall.symm.trans hc)
    exact congrArg Version.id (Option.some.inj hv')
  · intro j hj
    have hmem := List.mem_of_getLast? hj
    have hcons : (i :: pending).getLast? = some j := by
      rw [List.getLast?_cons, hj]
      rfl
    obtain ⟨c, v', hc, hv', hid⟩ := hlast j hcons
    exact ⟨c, v', (hrest hmem).trans hc, hv', hid⟩
  · intro hzero id hlive
    obtain ⟨hbefore, hid⟩ := live_rewrap hstore hmoved hlive
    obtain ⟨j, hj, c, v', hc, hv', rfl⟩ | hpast := hcovered hzero id hbefore
    · obtain rfl | hj := List.mem_cons.1 hj
      · obtain rfl := Option.some.inj (hcall.symm.trans hc)
        obtain rfl := Option.some.inj hv'
        exact absurd rfl hid
      · exact .inl ⟨j, hj, c, v', (hrest hj).trans hc, hv', rfl⟩
    · exact .inr hpast

theorem finished (hs : s.Covered order) {request : RewrapRequest} {result : RewrapResult}
    (hstage : s.pass.stage = .looping request [] result) :
    Rotation.Covered order { s with pass := s.pass.returned result } := by
  simp only [Rotation.Covered, hstage] at hs
  obtain ⟨_, _, hnone, _, bound, hempty, _, hcovered⟩ := hs
  have hpast (hzero : s.pass.conflicts + result.conflicts = 0) (id : Bytes)
      (hlive : s.world.db.LiveUnder s.pass.oldKEKID id) : result.selected ≠ 0 ∧ order.lt bound id = true := by
    obtain ⟨_, hi, _⟩ | hpast := hcovered (by omega) id hlive
    · cases hi
    · exact hpast
  by_cases hselected : result.selected = 0
  · simp only [Rotation.Covered, Pass.returned, hselected, if_true]
    intro hzero id hlive
    exact (hpast hzero id hlive).1 hselected
  · simp only [Rotation.Covered, Pass.returned, hselected, if_false]
    intro hzero id hlive
    rw [hempty trivial]
    exact (hpast hzero id hlive).2

-- Nothing is promised after a conflict.
theorem conflicted (w : World) (p : Pass) {result : RewrapResult} (h : 0 < result.conflicts) :
    Rotation.Covered order ⟨w, p.returned result⟩ := by
  have hpositive : p.conflicts + result.conflicts ≠ 0 := by omega
  by_cases hselected : result.selected = 0
  · simp only [Rotation.Covered, Pass.returned, hselected, if_true]
    exact fun hzero => absurd hzero hpositive
  · simp only [Rotation.Covered, Pass.returned, hselected, if_false]
    exact fun hzero => absurd hzero hpositive

theorem request (hs : s.Covered order) {request : RewrapRequest} {pending : List Nat} {result : RewrapResult}
    (hstage : s.pass.stage = .looping request pending result) :
    request.oldKEKID = s.pass.oldKEKID ∧ request.dryRun = false := by
  simp only [Rotation.Covered, hstage] at hs
  exact ⟨hs.1, hs.2.1⟩

theorem step (hs : s.Covered order) (hdb : s.world.db.Consistent) {s' : Rotation} (h : s.Step order s') :
    s'.Covered order := by
  cases h with
  | other hleaves hquiet hnext =>
      refine hs.kept ?_ ?_
      · intro id hlive
        exact live_next hnext hquiet hlive
      · intro i hi c v hc hv hleavesKey
        exact ⟨c, next_leaves hnext hleaves hi hc, hv, hleavesKey⟩
  | call hstage hselect => exact hs.called hdb hstage hselect
  | skip hstage hdry hnext =>
      rw [(hs.request hstage).2] at hdry
      cases hdry
  | reserve hstage hcall hold hnext =>
      obtain ⟨dek, newID, newKey, db, hnew, hversions, rfl⟩ := next_rewrapReserve hcall hnext
      rw [hold, (hs.request hstage).1] at hnew
      exact hs.advanced hcall rfl rfl rfl (fun _ => hnew) hversions
  | wrap hstage hnext =>
      obtain ⟨v, dek, newID, newKey, envelope, hcall, hkek, hdb', hcalls⟩ := next_rewrapSeal hnext
      refine hs.advanced hcall rfl hcalls rfl ?_ (by rw [hdb'])
      intro hleaves
      rw [Call.leavesKey, hkek]
      exact hleaves
  | store hstage hcall hnext => exact hs.stored hstage hcall hnext
  | conflict hstage hnext => exact conflicted _ _ (Nat.succ_pos _)
  | finish hstage => exact hs.finished hstage
  | fail => trivial

end Rotation.Covered

-- A committed version has an id.
theorem commit_named {kind : Kind} {db db' : DB} {m : Mutation} (h : kind.commit db m = .ok db') :
    m.version.id ≠ [] := by
  cases kind with
  | create => exact (create_eq_ok h).2.1
  | replace => exact (replace_eq_ok h).2.1
  | replaceCompromised => exact (replace_eq_ok h).2.1

theorem commits_named {w : World} (h : secretSystem.Reachable w) : ∀ c ∈ w.commits, c.mutation.version.id ≠ [] := by
  refine Reachable.step_invariant (P := fun w => ∀ c ∈ w.commits, c.mutation.version.id ≠ []) ?_ ?_ h
  · intro generationID c hc
    cases hc
  · intro w w' hw hstep
    cases hstep with
    | commit _ hcommit =>
        intro c hc
        obtain hc | rfl := List.mem_append.1 hc |>.imp_right List.mem_singleton.1
        · exact hw c hc
        · exact commit_named hcommit
    | _ => exact hw

theorem version_named {w : World} (h : secretSystem.Reachable w) {id : Bytes} {row : VersionRow}
    (hrow : w.db.versions.get? id = some row) : id ≠ [] := by
  have hintact := World.Intact.of_reachable h
  obtain ⟨head, hhead⟩ := hintact.consistent.owned id row hrow
  obtain ⟨c, hc, rfl, _⟩ := hintact.stored id row head hrow hhead
  exact commits_named h c hc

-- What a quiet pass keeps.
structure Rotation.Sound (order : Collation) (s : Rotation) : Prop where
  reachable : secretSystem.Reachable s.world
  covered : s.Covered order
  rewrapped : ∀ id ∈ s.pass.rewrapped, ∃ row, s.world.db.versions.get? id = some row

theorem Rotation.Sound.step {order : Collation} {s s' : Rotation} (hs : s.Sound order) (h : s.Step order s') :
    s'.Sound order := by
  have hrun := h.run
  -- what was stored is stored still
  have hkept {id : Bytes} {row : VersionRow} (hrow : s.world.db.versions.get? id = some row) :
      ∃ row', s'.world.db.versions.get? id = some row' := by
    obtain ⟨row', hrow', _⟩ := (follows_run hrun).versions id row hrow
    exact ⟨row', hrow'⟩
  refine ⟨hs.reachable.run hrun, hs.covered.step (World.Intact.of_reachable hs.reachable).consistent h, ?_⟩
  have hold : ∀ id ∈ s.pass.rewrapped, ∃ row, s'.world.db.versions.get? id = some row := by
    intro id hid
    obtain ⟨row, hrow⟩ := hs.rewrapped id hid
    exact hkept hrow
  cases h with
  | store hstage hcall hnext =>
      intro id hid
      obtain rfl | hid := List.mem_cons.1 hid
      · obtain ⟨db, hstore, rfl⟩ := next_rewrapStore hcall hnext
        obtain ⟨_, _, row, hrow, _⟩ := Secret.rewrap_eq_ok hstore
        exact hkept hrow
      · exact hold id hid
  | _ => exact hold

theorem Rotation.Sound.of_reachable {order : Collation} {s : Rotation} (h : (quietSystem order).Reachable s) :
    s.Sound order := by
  refine h.invariant ?_ ?_
  · rintro ⟨w, pass⟩ ⟨hw, oldKEKID, rfl⟩
    refine ⟨hw, ?_, ?_⟩
    · rintro _ id ⟨row, hrow, _, _⟩
      exact order.nil_lt id (version_named hw hrow)
    · intro id hid
      cases hid
  · rintro s s' hs ⟨e, hreal, hquiet, hnext⟩
    exact hs.step (Rotation.step_of_next hreal hquiet hnext)

-- A rotation misses nothing: when a pass without a conflict has selected no more, every version still under the old key
-- is revoked, as long as no envelope sealed under that key was stored meanwhile. What it rewrapped still decrypts, and a
-- key that may be retired is referenced by no version.
theorem rotation_misses_nothing {order : Collation} {s : Rotation} (h : (quietSystem order).Reachable s) :
    (s.pass.stage = .finished → s.pass.conflicts = 0 → ∀ id row, s.world.db.versions.get? id = some row →
      row.envelope.kekID = s.pass.oldKEKID → row.state = .revoked) ∧
    (∀ id ∈ s.pass.rewrapped, ∃ row head, s.world.db.versions.get? id = some row ∧
      s.world.db.heads.get? row.secretID = some head ∧ ∃ c ∈ s.world.commits, c.mutation.version.id = id ∧
        ∀ provider, KeyAvailable s.world.vault.cipher provider row.envelope →
          decrypt s.world.vault.cipher provider (cryptoScope (row.version id head).scope id) row.envelope =
            .ok c.plaintext) ∧
    ∀ db provider kekID, canRetire db provider kekID = .ok () →
      ∀ id row, db.versions.get? id = some row → row.envelope.kekID ≠ kekID := by
  have hs := Rotation.Sound.of_reachable h
  have hintact := World.Intact.of_reachable hs.reachable
  refine ⟨?_, ?_, ?_⟩
  · intro hstage hzero id row hrow hkek
    have hcovered := hs.covered
    simp only [Rotation.Covered, hstage] at hcovered
    by_contra hstate
    exact hcovered hzero id ⟨row, hrow, hkek, hstate⟩
  · intro id hid
    obtain ⟨row, hrow⟩ := hs.rewrapped id hid
    obtain ⟨head, hhead⟩ := hintact.consistent.owned id row hrow
    obtain ⟨c, hc, hsame, hcarries⟩ := hintact.stored id row head hrow hhead
    exact ⟨row, head, hrow, hhead, c, hc, hsame, fun provider => hintact.sound.decrypt_carried hcarries⟩
  · intro db provider kekID hretire id row hrow
    exact unreferenced_of_canRetire hretire hrow

-- Text compared byte by byte.
def bytesLt : Bytes → Bytes → Bool
  | [], [] => false
  | [], _ :: _ => true
  | _ :: _, [] => false
  | a :: as, b :: bs => decide (a < b) || (a == b && bytesLt as bs)

theorem bytesLt_irrefl (a : Bytes) : bytesLt a a = false := by
  induction a with
  | nil => rfl
  | cons x xs ih => simp [bytesLt, ih]

theorem bytesLt_trans (a b c : Bytes) (hab : bytesLt a b = true) (hbc : bytesLt b c = true) : bytesLt a c = true := by
  induction a generalizing b c with
  | nil =>
      cases c with
      | nil =>
          cases b with
          | nil => cases hab
          | cons y ys => cases hbc
      | cons z zs => rfl
  | cons x xs ih =>
      cases b with
      | nil => cases hab
      | cons y ys =>
          cases c with
          | nil => cases hbc
          | cons z zs =>
              simp only [bytesLt, Bool.or_eq_true, decide_eq_true_eq, Bool.and_eq_true, beq_iff_eq] at hab hbc ⊢
              obtain hxy | ⟨rfl, hxy⟩ := hab
              · obtain hyz | ⟨rfl, _⟩ := hbc
                · exact .inl (UInt8.lt_trans hxy hyz)
                · exact .inl hxy
              · obtain hyz | ⟨rfl, hyz⟩ := hbc
                · exact .inl hyz
                · exact .inr ⟨rfl, ih ys zs hxy hyz⟩

theorem bytesLt_total (a b : Bytes) (hne : a ≠ b) : bytesLt a b = true ∨ bytesLt b a = true := by
  induction a generalizing b with
  | nil =>
      cases b with
      | nil => exact absurd rfl hne
      | cons y ys => exact .inl rfl
  | cons x xs ih =>
      cases b with
      | nil => exact .inr rfl
      | cons y ys =>
          simp only [bytesLt, Bool.or_eq_true, decide_eq_true_eq, Bool.and_eq_true, beq_iff_eq]
          by_cases hxy : x = y
          · subst hxy
            have hrest : xs ≠ ys := by
              rintro rfl
              exact hne rfl
            exact (ih ys hrest).imp (fun h => .inr ⟨rfl, h⟩) (fun h => .inr ⟨rfl, h⟩)
          · obtain hlt | hgt := UInt8.lt_or_lt_of_ne hxy
            · exact .inl (.inl hlt)
            · exact .inr (.inl hgt)

def byteOrder : Collation where
  lt := bytesLt
  irrefl := bytesLt_irrefl
  trans := bytesLt_trans
  total := bytesLt_total
  nil_lt a h := by
    cases a with
    | nil => exact absurd rfl h
    | cons x xs => rfl

-- A schedule of a pass, as long as each of its events can happen.
def Rotation.run (order : Collation) (s : Rotation) : List RotationEvent → Option Rotation
  | [] => some s
  | e :: events => if e.real then (s.next order e).bind fun s' => s'.run order events else none

def Rotation.quietRun (order : Collation) (s : Rotation) : List RotationEvent → Option Rotation
  | [] => some s
  | e :: events =>
      if e.real ∧ e.quiet s then (s.next order e).bind fun s' => s'.quietRun order events else none

theorem Rotation.run_of_events {order : Collation} {s s' : Rotation} {events : List RotationEvent}
    (h : s.run order events = some s') : (rotationSystem order).Run s s' := by
  induction events generalizing s with
  | nil =>
      cases h
      exact .refl
  | cons e events ih =>
      simp only [Rotation.run] at h
      split at h
      · rename_i hreal
        obtain ⟨s₁, hnext, hrest⟩ := Option.bind_eq_some_iff.1 h
        exact .head ⟨e, hreal, hnext⟩ (ih hrest)
      · cases h

theorem Rotation.quietRun_of_events {order : Collation} {s s' : Rotation} {events : List RotationEvent}
    (h : s.quietRun order events = some s') : (quietSystem order).Run s s' := by
  induction events generalizing s with
  | nil =>
      cases h
      exact .refl
  | cons e events ih =>
      simp only [Rotation.quietRun] at h
      split at h
      · rename_i hquiet
        obtain ⟨s₁, hnext, hrest⟩ := Option.bind_eq_some_iff.1 h
        exact .head ⟨e, hquiet.1, hquiet.2, hnext⟩ (ih hrest)
      · cases h

-- One secret is stored under the first key, and a second one is sealed under it but not committed.
def lateCreate : Request :=
  ⟨.create, { sampleScope with secretID := Bytes.ofString "late" }, Bytes.ofString "version-0",
    sampleOperation (Bytes.ofString "audit-0"), Bytes.ofString "hunter2"⟩

def lateEvents : List Event :=
  sampleEvents ++ [.initLedger secondID sampleGeneration, .begin lateCreate, .reserve 1 (sampleRing firstID).provider,
    .encrypt 1 replaceDraw]

-- The second secret is committed behind the cursor of the pass.
def lateRotation : List RotationEvent :=
  [.call (sampleRing secondID).provider 0 false, .reserve (sampleRing secondID).provider, .wrap sampleWrapped, .store,
    .other (.commit 1), .finish, .call (sampleRing secondID).provider 0 false, .finish]

theorem rotation_left_behind :
    ¬ ∀ (order : Collation) (s₀ s : Rotation), (rotationSystem order).initial s₀ → (rotationSystem order).Run s₀ s →
      s.pass.stage = .finished → s.pass.conflicts = 0 →
      s.world.sealsUnder s.pass.oldKEKID = s₀.world.sealsUnder s.pass.oldKEKID →
      ∀ id row, s.world.db.versions.get? id = some row → row.envelope.kekID = s.pass.oldKEKID →
        row.state = .revoked := by
  intro hclaim
  have hrun : ((World.initial sampleGeneration).run lateEvents).any (fun w => w.sealsUnder firstID == 2 &&
      (Rotation.run byteOrder ⟨w, .start firstID⟩ lateRotation).any (fun s => s.pass.oldKEKID == firstID &&
        s.pass.stage == .finished && s.pass.conflicts == 0 && s.world.sealsUnder firstID == 2 &&
        (s.world.db.versions.get? (Bytes.ofString "version-0")).any (fun row => row.envelope.kekID == firstID &&
          row.state == .active))) = true := by decide +kernel
  obtain ⟨w, hw, hsample⟩ := World.exists_of_events hrun
  simp only [Bool.and_eq_true, beq_iff_eq, Option.any_eq_true] at hsample
  obtain ⟨hseals, s, hs, ⟨⟨⟨⟨hold, hstage⟩, hzero⟩, hseals'⟩, row, hrow, hkek, hstate⟩⟩ := hsample
  have hrevoked := hclaim byteOrder ⟨w, .start firstID⟩ s ⟨hw, firstID, rfl⟩ (Rotation.run_of_events hs) hstage hzero
    (by rw [hold, hseals, hseals']) _ row hrow (by rw [hkek, hold])
  rw [hstate] at hrevoked
  cases hrevoked

-- A pass that moves the one version there is.
def sampleRotation : List RotationEvent :=
  [.other (.initLedger secondID sampleGeneration), .call (sampleRing secondID).provider 1 false,
    .reserve (sampleRing secondID).provider, .wrap sampleWrapped, .store, .finish,
    .call (sampleRing secondID).provider 1 false, .finish]

theorem rotation_misses_nothing_moved :
    ∃ s, (quietSystem byteOrder).Reachable s ∧ s.pass.stage = .finished ∧ s.pass.conflicts = 0 ∧
      s.pass.rewrapped = [Bytes.ofString "version-1"] ∧ ∃ row,
        s.world.db.versions.get? (Bytes.ofString "version-1") = some row ∧
        (row.envelope.kekID = firstID → row.state = .revoked) := by
  have hrun : ((World.initial sampleGeneration).run sampleEvents).any (fun w =>
      (Rotation.quietRun byteOrder ⟨w, .start firstID⟩ sampleRotation).any (fun s => s.pass.oldKEKID == firstID &&
        s.pass.stage == .finished && s.pass.conflicts == 0 && s.pass.rewrapped == [Bytes.ofString "version-1"])) =
      true := by decide +kernel
  obtain ⟨w, hw, hsample⟩ := World.exists_of_events hrun
  simp only [Bool.and_eq_true, beq_iff_eq, Option.any_eq_true] at hsample
  obtain ⟨s, hs, ⟨⟨hold, hstage⟩, hzero⟩, hrewrapped⟩ := hsample
  have hinitial : (quietSystem byteOrder).Reachable ⟨w, .start firstID⟩ := .of_initial ⟨hw, firstID, rfl⟩
  have hreachable := hinitial.run (Rotation.quietRun_of_events hs)
  obtain ⟨hmissed, hstored, _⟩ := rotation_misses_nothing hreachable
  have hmem : Bytes.ofString "version-1" ∈ s.pass.rewrapped := by
    rw [hrewrapped]
    exact List.mem_singleton.2 rfl
  obtain ⟨row, _, hrow, _⟩ := hstored _ hmem
  refine ⟨s, hreachable, hstage, hzero, hrewrapped, row, hrow, ?_⟩
  intro hkek
  exact hmissed hstage hzero _ row hrow (by rw [hkek, hold])

end AutoDeploy.Secret
