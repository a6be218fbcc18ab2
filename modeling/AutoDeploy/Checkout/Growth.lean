import AutoDeploy.Checkout.Process

namespace AutoDeploy.Checkout

open Lib Lib.Result

-- What no step of the process takes back: a reservation stays the same one, its mint attempts only grow, and one that
-- has ended stays as it ended.

structure Reservation.Becomes (row row' : Reservation) : Prop where
  snapshot : row'.snapshot = row.snapshot
  attempts : row.attempts ≤ row'.attempts
  ended : row.state.live = false → row'.state = row.state

theorem Reservation.Becomes.refl (row : Reservation) : row.Becomes row := ⟨rfl, Nat.le_refl _, fun _ => rfl⟩

-- A live reservation may become anything.
theorem Reservation.Becomes.of_live {row row' : Reservation} (hlive : row.state.live = true)
    (hsnapshot : row'.snapshot = row.snapshot) (hattempts : row.attempts ≤ row'.attempts) : row.Becomes row' :=
  ⟨hsnapshot, hattempts, fun h => absurd (hlive.symm.trans h) (by simp)⟩

def GitHubDB.Grows (db db' : GitHubDB) : Prop :=
  ∀ id row, db.reservations.get? id = some row → ∃ row', db'.reservations.get? id = some row' ∧ row.Becomes row'

theorem GitHubDB.Grows.of_eq {db db' : GitHubDB} (h : db'.reservations = db.reservations) : db.Grows db' := by
  intro id row hrow
  exact ⟨row, by rw [h, hrow], .refl row⟩

theorem grows_setReservation {db : GitHubDB} {id : String} {row new : Reservation}
    (hrow : db.reservations.get? id = some row) (hnew : row.Becomes new) : db.Grows (setReservation db id new) := by
  intro id' row' hrow'
  by_cases hid : id' = id
  · subst hid
    cases hrow.symm.trans hrow'
    exact ⟨new, Table.get?_put_self .., hnew⟩
  · refine ⟨row', ?_, .refl row'⟩
    rw [setReservation, Table.get?_put, if_neg hid, hrow']

theorem grows_mapValues {db db' : GitHubDB} {f : String → Reservation → Reservation}
    (h : db'.reservations = db.reservations.mapValues f) (hf : ∀ id (row : Reservation), row.Becomes (f id row)) :
    db.Grows db' := by
  intro id row hrow
  exact ⟨f id row, by rw [h, Table.get?_mapValues, hrow, Option.map_some], hf id row⟩

theorem expire_becomes (now : Nat) (owner project : String) (row : Reservation) :
    row.Becomes (expire now owner project row) := by
  unfold expire
  split
  case isFalse => exact .refl row
  case isTrue h =>
      refine .of_live ?_ rfl (Nat.le_refl _)
      simp only [Bool.and_eq_true, Bool.or_eq_true, beq_iff_eq] at h
      obtain ⟨⟨-, (hstate | hstate) | hstate⟩, -⟩ := h <;> rw [hstate] <;> rfl

theorem invalidateRow_becomes (owner : String) (installationID : Nat) (row : Reservation) :
    row.Becomes (invalidateRow owner installationID row) := by
  unfold invalidateRow
  split
  case isFalse => exact .refl row
  case isTrue h =>
      rw [Bool.and_eq_true] at h
      exact .of_live h.2 rfl (Nat.le_refl _)

theorem reserveCheckout_grows {now : Nat} {db db' : GitHubDB} {id owner project sha : String} {row : Reservation}
    (h : reserveCheckout now db id owner project sha = .ok (db', row)) : db.Grows db' := by
  obtain ⟨hfresh, -, htable⟩ := reserveCheckout_effect h
  intro id' old hold
  have hne : id' ≠ id := by
    rintro rfl
    rw [hfresh] at hold
    cases hold
  refine ⟨expire now owner project old, ?_, expire_becomes ..⟩
  rw [htable, Table.get?_put, if_neg hne, Table.get?_mapValues, hold, Option.map_some]

-- A mint attempt is given once, to a reservation that is still as it was made.
theorem beginMintAttempt_effect {now : Nat} {db db' : GitHubDB} {id : String} {row : Reservation}
    (h : beginMintAttempt now db id = .ok (db', row)) :
    db.reservations.get? id = some row ∧ row.state = .reserved ∧ row.attempts = 0 ∧
      db' = setReservation db id { row with state := .minting, attempts := 1 } := by
  simp only [beginMintAttempt, bind_eq_ok, require_eq_ok, found_eq_ok, pure_eq_ok, Prod.mk.injEq] at h
  obtain ⟨old, hold, _, ⟨hstate, -, hattempts⟩, _, -, rfl, rfl⟩ := h
  have hzero : old.attempts = 0 := by omega
  exact ⟨hold, hstate, hzero, by rw [hzero]⟩

theorem activateMintAttempt_effect {now : Nat} {db db' : GitHubDB} {id : String} {snapshot : Snapshot} {u : Unit}
    (h : activateMintAttempt now db id snapshot = .ok (db', u)) :
    ∃ row, db.reservations.get? id = some row ∧ row.state = .minting ∧
      db' = setReservation db id { row with state := .active } := by
  simp only [activateMintAttempt, bind_eq_ok, require_eq_ok, found_eq_ok, pure_eq_ok, Prod.mk.injEq] at h
  obtain ⟨_, -, row, hrow, _, ⟨hstate, -⟩, rfl, -⟩ := h
  exact ⟨row, hrow, hstate, rfl⟩

theorem startCheckout_effect {now : Nat} {db db' : GitHubDB} {id : String} {snapshot : Snapshot} {u : Unit}
    (h : startCheckout now db id snapshot = .ok (db', u)) :
    ∃ row, db.reservations.get? id = some row ∧ row.state = .active ∧
      db' = setReservation db id { row with state := .running } := by
  simp only [startCheckout, bind_eq_ok, require_eq_ok, found_eq_ok, pure_eq_ok, Prod.mk.injEq] at h
  obtain ⟨row, hrow, _, ⟨-, hstate⟩, _, -, rfl, -⟩ := h
  exact ⟨row, hrow, hstate, rfl⟩

theorem closeCheckout_effect {now : Nat} {db db' : GitHubDB} {id : String} {u : Unit}
    (h : closeCheckout now db id = .ok (db', u)) :
    ∃ row, db.reservations.get? id = some row ∧
      ((row.state.live = true ∧ db' = setReservation db id { row with state := .consumed, consumedAt := some now }) ∨
        (row.state = .consumed ∧ db' = db)) := by
  simp only [closeCheckout, bind_eq_ok, found_eq_ok] at h
  obtain ⟨row, hrow, h⟩ := h
  refine ⟨row, hrow, ?_⟩
  by_cases hlive : row.state.live = true
  · simp only [hlive, if_true, pure_eq_ok, Prod.mk.injEq] at h
    exact .inl ⟨hlive, h.1.symm⟩
  · rw [if_neg hlive] at h
    simp only [bind_eq_ok, require_eq_ok, pure_eq_ok, Prod.mk.injEq] at h
    obtain ⟨_, hstate, hdb, -⟩ := h
    exact .inr ⟨hstate, hdb.symm⟩

theorem beginMintAttempt_grows {now : Nat} {db db' : GitHubDB} {id : String} {row : Reservation}
    (h : beginMintAttempt now db id = .ok (db', row)) : db.Grows db' := by
  obtain ⟨hrow, hstate, hattempts, rfl⟩ := beginMintAttempt_effect h
  exact grows_setReservation hrow (.of_live (by rw [hstate]; rfl) rfl (by simp [hattempts]))

theorem activateMintAttempt_grows {now : Nat} {db db' : GitHubDB} {id : String} {snapshot : Snapshot} {u : Unit}
    (h : activateMintAttempt now db id snapshot = .ok (db', u)) : db.Grows db' := by
  obtain ⟨row, hrow, hstate, rfl⟩ := activateMintAttempt_effect h
  exact grows_setReservation hrow (.of_live (by rw [hstate]; rfl) rfl (Nat.le_refl _))

theorem startCheckout_grows {now : Nat} {db db' : GitHubDB} {id : String} {snapshot : Snapshot} {u : Unit}
    (h : startCheckout now db id snapshot = .ok (db', u)) : db.Grows db' := by
  obtain ⟨row, hrow, hstate, rfl⟩ := startCheckout_effect h
  exact grows_setReservation hrow (.of_live (by rw [hstate]; rfl) rfl (Nat.le_refl _))

theorem closeCheckout_grows {now : Nat} {db db' : GitHubDB} {id : String} {u : Unit}
    (h : closeCheckout now db id = .ok (db', u)) : db.Grows db' := by
  obtain ⟨row, hrow, ⟨hlive, rfl⟩ | ⟨-, rfl⟩⟩ := closeCheckout_effect h
  · exact grows_setReservation hrow (.of_live hlive rfl (Nat.le_refl _))
  · exact .of_eq rfl

-- The reservations after a withdrawal: either no writer touched them, or every live one of the installation is
-- invalidated and listed.
theorem Withdrawal.apply_reservations {w : Withdrawal} {db db' : GitHubDB} {ids : List String}
    (h : w.apply db = some (db', ids)) :
    (db'.reservations = db.reservations ∧ ids = []) ∨
      ∃ owner installationID,
        db'.reservations = db.reservations.mapValues (fun _ r => invalidateRow owner installationID r) ∧
        ids = invalidatedCheckoutIDs db owner installationID ∧
        ∀ a s, w.withdraws a s = true → s.ownerID = owner ∧ s.installationID = installationID := by
  cases w with
  | disableInstallation owner installationID =>
      simp only [apply, Option.bind_eq_bind, Option.bind_eq_some_iff] at h
      obtain ⟨i, -, h⟩ := h
      split at h
      case isFalse =>
          cases h
          exact .inl ⟨rfl, rfl⟩
      case isTrue =>
          cases h
          refine .inr ⟨owner, installationID, rfl, rfl, fun a s hs => ?_⟩
          simp only [withdraws, Bool.and_eq_true, beq_iff_eq] at hs
          exact hs.1
  | reconcileInstallation owner installationID repositories =>
      simp only [apply, Option.bind_eq_bind, Option.bind_eq_some_iff] at h
      obtain ⟨i, -, h⟩ := h
      split at h
      case isFalse => cases h
      case isTrue =>
          cases h
          refine .inr ⟨owner, installationID, rfl, rfl, fun a s hs => ?_⟩
          simp only [withdraws, Bool.and_eq_true, beq_iff_eq] at hs
          exact hs.1
  | completeHandoff owner installationID repositories =>
      simp only [apply, Option.bind_eq_bind, Option.bind_eq_some_iff] at h
      obtain ⟨a, -, h⟩ := h
      split at h
      case isFalse => cases h
      case isTrue =>
          simp only [Option.bind_eq_some_iff] at h
          obtain ⟨upserted, -, h⟩ := h
          cases h
          exact .inl ⟨rfl, rfl⟩
  | installationSuspended installationID =>
      simp only [apply, Option.bind_eq_bind, Option.bind_eq_some_iff] at h
      obtain ⟨i, -, h⟩ := h
      cases h
      exact .inl ⟨rfl, rfl⟩
  | repositoriesRemoved installationID repositoryIDs =>
      simp only [apply] at h
      split at h
      case isFalse => cases h
      case isTrue =>
          cases h
          exact .inl ⟨rfl, rfl⟩

-- The two writers invalidate every live reservation whose authority they take away, and list it.
theorem Withdrawal.apply_invalidates {w : Withdrawal} {db db' : GitHubDB} {ids : List String}
    (h : w.apply db = some (db', ids)) (hinvalidates : w.invalidates = true) {id : String} {row : Reservation}
    (hrow : db.reservations.get? id = some row) (hwithdraws : w.withdraws db.authority row.snapshot = true)
    (hlive : row.state.live = true) :
    id ∈ ids ∧ db'.reservations.get? id = some { row with state := .invalidated } := by
  have hlisted : ∀ {owner installationID}, row.snapshot.ownerID = owner → row.snapshot.installationID = installationID →
      id ∈ invalidatedCheckoutIDs db owner installationID ∧
        invalidateRow owner installationID row = { row with state := .invalidated } := by
    rintro owner installationID rfl rfl
    constructor
    · exact List.mem_map_of_mem (f := Prod.fst) ((Table.mem_select _ _ id row).2 ⟨hrow, by simp [liveOf, hlive]⟩)
    · simp [invalidateRow, hlive]
  obtain ⟨-, hids⟩ | ⟨owner, installationID, htable, rfl, hscope⟩ := Withdrawal.apply_reservations h
  · -- Nothing is listed only when the installation was inactive before, and then nothing is taken away.
    exfalso
    cases w with
    | disableInstallation owner installationID =>
        simp only [apply, Option.bind_eq_bind, Option.bind_eq_some_iff, Option.filter_eq_some_iff] at h
        obtain ⟨i, ⟨hi, -⟩, h⟩ := h
        simp only [withdraws, Bool.and_eq_true, beq_iff_eq, hi, Option.any_some] at hwithdraws
        rw [if_pos hwithdraws.2] at h
        cases h
        have hmem := (hlisted hwithdraws.1.1 hwithdraws.1.2).1
        rw [hids] at hmem
        cases hmem
    | reconcileInstallation owner installationID repositories =>
        simp only [apply, Option.bind_eq_bind, Option.bind_eq_some_iff] at h
        obtain ⟨i, -, h⟩ := h
        split at h
        case isFalse => cases h
        case isTrue =>
            cases h
            simp only [withdraws, Bool.and_eq_true, beq_iff_eq] at hwithdraws
            have hmem := (hlisted hwithdraws.1.1 hwithdraws.1.2).1
            rw [hids] at hmem
            cases hmem
    | completeHandoff _ _ _ | installationSuspended _ | repositoriesRemoved _ _ => cases hinvalidates
  · obtain ⟨howner, hinstallation⟩ := hscope _ _ hwithdraws
    obtain ⟨hmem, hrow'⟩ := hlisted howner hinstallation
    exact ⟨hmem, by rw [htable, Table.get?_mapValues, hrow, Option.map_some, hrow']⟩

theorem Withdrawal.apply_grows {w : Withdrawal} {db db' : GitHubDB} {ids : List String}
    (h : w.apply db = some (db', ids)) : db.Grows db' := by
  obtain ⟨hsame, -⟩ | ⟨owner, installationID, htable, -⟩ := Withdrawal.apply_reservations h
  · exact .of_eq hsame
  · exact grows_mapValues htable fun _ row => invalidateRow_becomes owner installationID row

-- A call either came through as the caller sees it, or the caller sees an error whatever became of the call.
theorem GitHubDB.call_cases {α : Type} (db : GitHubDB) (fault : Option Bool)
    (result : Except ReservationError (GitHubDB × α)) :
    (∃ db' a, result = .ok (db', a) ∧ db.call fault result = (db', some a)) ∨
      (∃ db' a, result = .ok (db', a) ∧ db.call fault result = (db', none)) ∨ db.call fault result = (db, none) := by
  unfold call
  split
  · exact .inl ⟨_, _, rfl, rfl⟩
  · exact .inr (.inl ⟨_, _, rfl, rfl⟩)
  · exact .inr (.inr rfl)

theorem GitHubDB.grows_call {α : Type} {db : GitHubDB} {fault : Option Bool}
    {result : Except ReservationError (GitHubDB × α)} (h : ∀ db' a, result = .ok (db', a) → db.Grows db') :
    db.Grows (db.call fault result).1 := by
  obtain ⟨db', a, hresult, hcall⟩ | ⟨db', a, hresult, hcall⟩ | hcall := db.call_cases fault result
  · rw [hcall]
    exact h db' a hresult
  · rw [hcall]
    exact h db' a hresult
  · rw [hcall]
    exact .of_eq rfl

theorem GitHubDB.call_eq_some {α : Type} {db db' : GitHubDB} {fault : Option Bool} {a : α}
    {result : Except ReservationError (GitHubDB × α)} (h : db.call fault result = (db', some a)) :
    result = .ok (db', a) := by
  obtain ⟨db₁, a₁, hresult, hcall⟩ | ⟨db₁, a₁, hresult, hcall⟩ | hcall := db.call_cases fault result
  · rw [h] at hcall
    cases hcall
    exact hresult
  · rw [h] at hcall
    cases hcall
  · rw [h] at hcall
    cases hcall

def Spent (s : Shared) (id : String) : Prop := ∃ row, s.store.reservations.get? id = some row ∧ 1 ≤ row.attempts

def InState (s : Shared) (id : String) (state : ReservationState) : Prop :=
  ∃ row, s.store.reservations.get? id = some row ∧ row.state = state

-- The reservation can never be minted for, activated or started again.
def Ended (s : Shared) (id : String) : Prop := ∃ row, s.store.reservations.get? id = some row ∧ row.state.live = false

theorem Ended.not_inState {s : Shared} {id : String} {state : ReservationState} (h : Ended s id)
    (hlive : state.live = true) : ¬ InState s id state := by
  rintro ⟨row, hrow, rfl⟩
  obtain ⟨row', hrow', hended⟩ := h
  cases hrow.symm.trans hrow'
  rw [hlive] at hended
  cases hended

theorem InState.ended {s : Shared} {id : String} {state : ReservationState} (h : InState s id state)
    (hlive : state.live = false) : Ended s id := by
  obtain ⟨row, hrow, rfl⟩ := h
  exact ⟨row, hrow, hlive⟩

section

variable {s s' : Shared} {id : String} (h : s.store.Grows s'.store)

include h

theorem Spent.grows (hspent : Spent s id) : Spent s' id := by
  obtain ⟨row, hrow, hattempts⟩ := hspent
  obtain ⟨row', hrow', hbecomes⟩ := h id row hrow
  exact ⟨row', hrow', Nat.le_trans hattempts hbecomes.attempts⟩

theorem Ended.grows (hended : Ended s id) : Ended s' id := by
  obtain ⟨row, hrow, hstate⟩ := hended
  obtain ⟨row', hrow', hbecomes⟩ := h id row hrow
  exact ⟨row', hrow', by rw [hbecomes.ended hstate, hstate]⟩

theorem InState.grows {state : ReservationState} (hlive : state.live = false) (hstate : InState s id state) :
    InState s' id state := by
  obtain ⟨row, hrow, rfl⟩ := hstate
  obtain ⟨row', hrow', hbecomes⟩ := h id row hrow
  exact ⟨row', hrow', hbecomes.ended hlive⟩

end

end AutoDeploy.Checkout
