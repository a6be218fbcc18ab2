import AutoDeploy.Secret.Effects

namespace AutoDeploy.Secret

open Lib Lib.Result Crypto

-- The ledger's count for a key; a key without a row has none.
def DB.reservedInvocations (db : DB) (kekID : Bytes) : Nat :=
  match db.wrapInvocations.get? kekID with
  | some row => row.reserved
  | none => 0

-- The seals ever made under a key-encryption key.
def World.sealsUnder (w : World) (kekID : Bytes) : Nat := w.kekSeals.count kekID

-- A call between its reservation and its seal.
def Call.holds (kekID : Bytes) : Call → Bool
  | .reserved _ _ _ id _ => id == kekID
  | .rewrapReserved _ _ id _ => id == kekID
  | _ => false

-- Every seal made, and every seal a call may still make, was counted before.
structure World.Accounted (w : World) : Prop where
  counted : ∀ kekID, w.sealsUnder kekID + w.calls.countP (Call.holds kekID) ≤ w.db.reservedInvocations kekID
  bounded : ∀ kekID row, w.db.wrapInvocations.get? kekID = some row → row.reserved ≤ maxReservedWrapInvocations

-- How the ledger of a database follows from that of an earlier one: rows stay, and their counts never go back.
def LedgerKept (db db' : DB) : Prop :=
  db'.generationID = db.generationID ∧ ∀ kekID row, db.wrapInvocations.get? kekID = some row →
    ∃ row', db'.wrapInvocations.get? kekID = some row' ∧ row.reserved ≤ row'.reserved ∧
      row'.generationID = row.generationID

theorem LedgerKept.of_eq {db db' : DB} (hrows : db'.wrapInvocations = db.wrapInvocations)
    (hgeneration : db'.generationID = db.generationID) : LedgerKept db db' := by
  refine ⟨hgeneration, ?_⟩
  intro kekID row hrow
  rw [hrows]
  exact ⟨row, hrow, le_refl _, rfl⟩

theorem LedgerKept.trans {db₁ db₂ db₃ : DB} (h₁ : LedgerKept db₁ db₂) (h₂ : LedgerKept db₂ db₃) : LedgerKept db₁ db₃ := by
  refine ⟨h₂.1.trans h₁.1, ?_⟩
  intro kekID row hrow
  obtain ⟨row₂, hrow₂, hle₂, hsame₂⟩ := h₁.2 kekID row hrow
  obtain ⟨row₃, hrow₃, hle₃, hsame₃⟩ := h₂.2 kekID row₂ hrow₂
  exact ⟨row₃, hrow₃, hle₂.trans hle₃, hsame₃.trans hsame₂⟩

section

variable {db db' : DB} {kekID : Bytes}

-- Nothing but the reservation and the first insert writes the ledger.
theorem commit_ledger {kind : Kind} {m : Mutation} (h : kind.commit db m = .ok db') :
    db'.wrapInvocations = db.wrapInvocations ∧ db'.generationID = db.generationID := by
  cases kind with
  | create =>
      obtain ⟨_, _, _, _, _, _, _, _, _, _, _, _, _, _, _, _, rfl⟩ := create_eq_ok h
      exact ⟨rfl, rfl⟩
  | replace =>
      obtain ⟨_, _, _, _, _, _, _, _, _, _, _, _, _, _, _, _, _, _, _, _, _, rfl⟩ := replace_eq_ok h
      exact ⟨rfl, rfl⟩
  | replaceCompromised =>
      obtain ⟨_, _, _, _, _, _, _, _, _, _, _, _, _, _, _, _, _, _, _, _, _, rfl⟩ := replace_eq_ok h
      exact ⟨rfl, rfl⟩

theorem reserved_of_reserve (h : reserveWrapInvocation db kekID = .ok db') (other : Bytes) :
    db'.reservedInvocations other = db.reservedInvocations other + if kekID = other then 1 else 0 := by
  obtain ⟨row, hrow, _, _, rfl⟩ := reserveWrapInvocation_eq_ok h
  by_cases hsame : kekID = other
  · subst hsame
    simp [DB.reservedInvocations, hrow]
  · simp only [DB.reservedInvocations, Table.get?_put, if_neg (Ne.symm hsame), if_neg hsame]
    rfl

theorem reserve_kept (h : reserveWrapInvocation db kekID = .ok db') : LedgerKept db db' := by
  obtain ⟨row, hrow, _, _, rfl⟩ := reserveWrapInvocation_eq_ok h
  refine ⟨rfl, ?_⟩
  intro other row' hrow'
  by_cases hsame : other = kekID
  · subst hsame
    obtain rfl := Option.some.inj (hrow.symm.trans hrow')
    exact ⟨_, Table.get?_put_self _ _ _, Nat.le_succ _, rfl⟩
  · refine ⟨row', ?_, le_refl _, rfl⟩
    rw [Table.get?_put, if_neg hsame]
    exact hrow'

theorem reserve_bounded (h : reserveWrapInvocation db kekID = .ok db')
    (hbounded : ∀ id row, db.wrapInvocations.get? id = some row → row.reserved ≤ maxReservedWrapInvocations) :
    ∀ id row, db'.wrapInvocations.get? id = some row → row.reserved ≤ maxReservedWrapInvocations := by
  obtain ⟨row, hrow, _, hlimit, rfl⟩ := reserveWrapInvocation_eq_ok h
  intro id row' hrow'
  obtain ⟨_, rfl⟩ | hold := Table.get?_put_cases hrow'
  · exact hlimit
  · exact hbounded id row' hold

theorem reserved_of_initialize {generationID : Bytes} (h : initializeActiveLedger db kekID generationID = .ok db')
    (other : Bytes) : db'.reservedInvocations other = db.reservedInvocations other := by
  obtain ⟨hnone, _, _, rfl⟩ := initializeActiveLedger_eq_ok h
  by_cases hsame : other = kekID
  · subst hsame
    simp [DB.reservedInvocations, hnone]
  · simp only [DB.reservedInvocations, Table.get?_put, if_neg hsame]

theorem initialize_kept {generationID : Bytes} (h : initializeActiveLedger db kekID generationID = .ok db') :
    LedgerKept db db' := by
  obtain ⟨hnone, _, _, rfl⟩ := initializeActiveLedger_eq_ok h
  refine ⟨rfl, ?_⟩
  intro other row hrow
  exact ⟨row, Table.get?_put_of_fresh hnone hrow, le_refl _, rfl⟩

theorem initialize_bounded {generationID : Bytes} (h : initializeActiveLedger db kekID generationID = .ok db')
    (hbounded : ∀ id row, db.wrapInvocations.get? id = some row → row.reserved ≤ maxReservedWrapInvocations) :
    ∀ id row, db'.wrapInvocations.get? id = some row → row.reserved ≤ maxReservedWrapInvocations := by
  obtain ⟨_, _, _, rfl⟩ := initializeActiveLedger_eq_ok h
  intro id row hrow
  obtain ⟨_, rfl⟩ | hold := Table.get?_put_cases hrow
  · exact Nat.zero_le _
  · exact hbounded id row hold

end

-- Replacing one call moves the count of those that hold a reservation by that call alone.
theorem countP_holds_set {calls : List Call} {i : Nat} {c c' : Call} (hcall : calls[i]? = some c) (kekID : Bytes) :
    (calls.set i c').countP (Call.holds kekID) + (if c.holds kekID then 1 else 0) =
      calls.countP (Call.holds kekID) + if c'.holds kekID then 1 else 0 := by
  obtain ⟨hlt, rfl⟩ := List.getElem?_eq_some_iff.1 hcall
  have hpositive : (if (calls[i]).holds kekID then 1 else 0) ≤ calls.countP (Call.holds kekID) := by
    split
    · rename_i hholds
      exact List.countP_pos_iff.2 ⟨_, List.getElem_mem hlt, hholds⟩
    · exact Nat.zero_le _
  rw [List.countP_set hlt]
  omega

theorem countP_holds_set_le {calls : List Call} {i : Nat} {c' : Call} (hfree : ∀ kekID, c'.holds kekID = false)
    (kekID : Bytes) : (calls.set i c').countP (Call.holds kekID) ≤ calls.countP (Call.holds kekID) := by
  cases hcall : calls[i]? with
  | none => rw [List.set_eq_of_length_le (List.getElem?_eq_none_iff.1 hcall)]
  | some c =>
      have hcount := @countP_holds_set calls i c c' hcall kekID
      simp only [hfree kekID, Bool.false_eq_true, if_false] at hcount
      omega

-- A call that got its reservation, or that used it for a seal.
theorem World.Accounted.reserve {w : World} (hw : w.Accounted) {i : Nat} {c c' : Call} {kekID : Bytes} {db : DB}
    (hcall : w.calls[i]? = some c) (hnone : ∀ id, c.holds id = false) (hholds : ∀ id, c'.holds id = (kekID == id))
    (hreserve : reserveWrapInvocation w.db kekID = .ok db) :
    World.Accounted { w with db := db, calls := w.calls.set i c' } := by
  constructor
  · intro id
    have hcount := @countP_holds_set w.calls i c c' hcall id
    have hreserved := reserved_of_reserve hreserve id
    have hbefore := hw.counted id
    simp only [hnone id, hholds id, Bool.false_eq_true, if_false, beq_iff_eq] at hcount
    simp only [World.sealsUnder] at hbefore ⊢
    omega
  · exact reserve_bounded hreserve hw.bounded

theorem World.Accounted.sealed {w : World} (hw : w.Accounted) {i : Nat} {c c' : Call} {kekID : Bytes} {vault : Vault}
    (hcall : w.calls[i]? = some c) (hholds : ∀ id, c.holds id = (kekID == id)) (hnone : ∀ id, c'.holds id = false) :
    World.Accounted { w with vault := vault, kekSeals := kekID :: w.kekSeals, calls := w.calls.set i c' } := by
  refine ⟨?_, hw.bounded⟩
  intro id
  have hcount := @countP_holds_set w.calls i c c' hcall id
  have hbefore := hw.counted id
  simp only [hnone id, hholds id, Bool.false_eq_true, if_false, beq_iff_eq] at hcount
  simp only [World.sealsUnder, List.count_cons, beq_iff_eq] at hbefore ⊢
  omega

theorem World.Accounted.step {w w' : World} (hw : w.Accounted) (h : w.Step w') : w'.Accounted := by
  -- a step that leaves the ledger and the seals alone and adds no holder
  have hkeep {db : DB} {calls : List Call} {commits : List Commit} (hrows : db.wrapInvocations = w.db.wrapInvocations)
      (hcalls : ∀ id, calls.countP (Call.holds id) ≤ w.calls.countP (Call.holds id)) :
      World.Accounted { w with db := db, calls := calls, commits := commits } := by
    constructor
    · intro id
      have hbefore := hw.counted id
      have hless := hcalls id
      simp only [World.sealsUnder, DB.reservedInvocations, hrows] at hbefore ⊢
      omega
    · intro id row hrow
      rw [hrows] at hrow
      exact hw.bounded id row hrow
  cases h with
  | begin _ => exact hkeep rfl (fun id => by simp [Call.holds])
  | reserve hcall hkey hreserve => exact hw.reserve hcall (fun _ => rfl) (fun _ => rfl) hreserve
  | reserveLost hreserve =>
      refine ⟨?_, reserve_bounded hreserve hw.bounded⟩
      intro id
      have hreserved := reserved_of_reserve hreserve id
      have hbefore := hw.counted id
      simp only [World.sealsUnder] at hbefore ⊢
      omega
  | encrypt hcall hdraw => exact hw.sealed hcall (fun _ => rfl) (fun _ => rfl)
  | commit hcall hcommit => exact hkeep (commit_ledger hcommit).1 (countP_holds_set_le (fun _ => rfl))
  | list _ _ => exact hkeep rfl (fun id => by simp [Call.holds])
  | rewrapReserve hcall hkeys hreserve => exact hw.reserve hcall (fun _ => rfl) (fun _ => rfl) hreserve
  | rewrapSeal hcall hwrap => exact hw.sealed hcall (fun _ => rfl) (fun _ => rfl)
  | rewrapStore hcall hstore =>
      obtain ⟨_, _, _, _, _, _, _, rfl⟩ := rewrap_eq_ok hstore
      exact hkeep rfl (countP_holds_set_le (fun _ => rfl))
  | abandon => exact hkeep rfl (countP_holds_set_le (fun _ => rfl))
  | restart => exact hkeep rfl (fun id => by simp)
  | initLedger hinit =>
      refine ⟨?_, initialize_bounded hinit hw.bounded⟩
      intro id
      have hreserved := reserved_of_initialize hinit id
      have hbefore := hw.counted id
      simp only [World.sealsUnder] at hbefore ⊢
      omega
  | audit haudit =>
      obtain ⟨_, _, _, _, rfl⟩ := appendMaterializationAudit_eq_ok haudit
      exact hkeep rfl (fun id => le_refl _)

theorem World.Step.ledger_kept {w w' : World} (h : w.Step w') : LedgerKept w.db w'.db := by
  cases h with
  | begin _ => exact .of_eq rfl rfl
  | reserve hcall hkey hreserve => exact reserve_kept hreserve
  | reserveLost hreserve => exact reserve_kept hreserve
  | encrypt hcall hdraw => exact .of_eq rfl rfl
  | commit hcall hcommit => exact .of_eq (commit_ledger hcommit).1 (commit_ledger hcommit).2
  | list _ _ => exact .of_eq rfl rfl
  | rewrapReserve hcall hkeys hreserve => exact reserve_kept hreserve
  | rewrapSeal hcall hwrap => exact .of_eq rfl rfl
  | rewrapStore hcall hstore =>
      obtain ⟨_, _, _, _, _, _, _, rfl⟩ := rewrap_eq_ok hstore
      exact .of_eq rfl rfl
  | abandon => exact .of_eq rfl rfl
  | restart => exact .of_eq rfl rfl
  | initLedger hinit => exact initialize_kept hinit
  | audit haudit =>
      obtain ⟨_, _, _, _, rfl⟩ := appendMaterializationAudit_eq_ok haudit
      exact .of_eq rfl rfl

theorem World.Accounted.of_reachable {w : World} (h : secretSystem.Reachable w) : w.Accounted := by
  refine Reachable.step_invariant ?_ ?_ h
  · intro generationID
    constructor
    · intro kekID
      simp [World.initial, World.sealsUnder]
    · intro kekID row hrow
      cases hrow
  · intro w w' hw hstep
    exact hw.step hstep

theorem ledger_kept_run {w w' : World} (h : secretSystem.Run w w') : LedgerKept w.db w'.db := by
  induction h with
  | refl => exact .of_eq rfl rfl
  | tail _ hnext ih =>
      obtain ⟨e, hnext⟩ := hnext
      exact ih.trans (World.step_of_next hnext).ledger_kept

-- The seals made under a key never exceed its count in the ledger, which only grows, is never made anew and ends
-- before 2^31.
theorem wrap_ledger_bounds_key_use {w : World} (hw : secretSystem.Reachable w) (kekID : Bytes) :
    w.sealsUnder kekID ≤ w.db.reservedInvocations kekID ∧ w.db.reservedInvocations kekID ≤ 2 ^ 31 - 1 ∧
      ∀ w', secretSystem.Run w w' → w.db.reservedInvocations kekID ≤ w'.db.reservedInvocations kekID ∧
        ∀ row, w.db.wrapInvocations.get? kekID = some row →
          ∃ row', w'.db.wrapInvocations.get? kekID = some row' ∧ row.reserved ≤ row'.reserved ∧
            row'.generationID = row.generationID := by
  have haccounted := World.Accounted.of_reachable hw
  refine ⟨?_, ?_, ?_⟩
  · have hcounted := haccounted.counted kekID
    omega
  · cases hrow : w.db.wrapInvocations.get? kekID with
    | none => simp [DB.reservedInvocations, hrow]
    | some row =>
        simp only [DB.reservedInvocations, hrow]
        exact haccounted.bounded kekID row hrow
  · intro w' hrun
    have hkept := (ledger_kept_run hrun).2 kekID
    refine ⟨?_, hkept⟩
    cases hrow : w.db.wrapInvocations.get? kekID with
    | none => simp [DB.reservedInvocations, hrow]
    | some row =>
        obtain ⟨row', hrow', hle, _⟩ := hkept row hrow
        simpa [DB.reservedInvocations, hrow, hrow'] using hle

theorem wrap_ledger_bounds_key_use_once :
    ∃ w, secretSystem.Reachable w ∧ w.sealsUnder firstID = 1 ∧ 1 ≤ w.db.reservedInvocations firstID ∧
      w.db.reservedInvocations firstID ≤ 2 ^ 31 - 1 := by
  have hrun : ((World.initial sampleGeneration).run sampleEvents).any (fun w => w.sealsUnder firstID == 1) = true := by
    decide +kernel
  obtain ⟨w, hw, hseals⟩ := World.exists_of_events hrun
  obtain ⟨hcounted, hbounded, _⟩ := wrap_ledger_bounds_key_use hw firstID
  rw [beq_iff_eq] at hseals
  rw [hseals] at hcounted
  exact ⟨w, hw, hseals, hcounted, hbounded⟩

end AutoDeploy.Secret
