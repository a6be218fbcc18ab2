import AutoDeploy.Lib.Result
import Mathlib.Data.List.Nodup
import Mathlib.Logic.Function.Basic

namespace AutoDeploy.Lib

-- A keyed table: finitely many rows, at most one for each key. Every fact about a table is
-- stated through `get?`, so the order of the rows only matters to queries that list them.
structure Table (κ : Type) (α : Type) where
  rows : List (κ × α)
  nodup : (rows.map Prod.fst).Nodup

namespace Table

theorem eq_of_rows {κ α : Type} {t t' : Table κ α} (h : t.rows = t'.rows) : t = t' := by
  cases t
  cases t'
  cases h
  rfl

variable {κ α : Type} [DecidableEq κ]

def lookup : List (κ × α) → κ → Option α
  | [], _ => none
  | (k', v') :: rest, k => if k' = k then some v' else lookup rest k

def replace : List (κ × α) → κ → α → List (κ × α)
  | [], k, v => [(k, v)]
  | (k', v') :: rest, k, v => if k' = k then (k, v) :: rest else (k', v') :: replace rest k v

private theorem mem_keys_replace (rows : List (κ × α)) (k x : κ) (v : α)
    (hx : x ∈ (replace rows k v).map Prod.fst) : x = k ∨ x ∈ rows.map Prod.fst := by
  induction rows with
  | nil => exact .inl (by simpa [replace] using hx)
  | cons row rest ih =>
      obtain ⟨k', v'⟩ := row
      by_cases hk : k' = k
      · subst hk
        simp only [replace, if_pos, List.map_cons, List.mem_cons] at hx ⊢
        exact .inr hx
      · simp only [replace, hk, if_false, List.map_cons, List.mem_cons] at hx ⊢
        rcases hx with rfl | hx
        · exact .inr (.inl rfl)
        · rcases ih hx with rfl | hrest
          · exact .inl rfl
          · exact .inr (.inr hrest)

theorem nodup_keys_replace (rows : List (κ × α)) (k : κ) (v : α)
    (hnodup : (rows.map Prod.fst).Nodup) : ((replace rows k v).map Prod.fst).Nodup := by
  induction rows with
  | nil => simp [replace]
  | cons row rest ih =>
      obtain ⟨k', v'⟩ := row
      simp only [List.map_cons, List.nodup_cons] at hnodup
      by_cases hk : k' = k
      · subst hk
        simpa [replace] using hnodup
      · simp only [replace, hk, if_false, List.map_cons, List.nodup_cons]
        refine ⟨fun hmem => ?_, ih hnodup.2⟩
        rcases mem_keys_replace rest k k' v hmem with h | h
        · exact hk h
        · exact hnodup.1 h

def empty : Table κ α := ⟨[], List.nodup_nil⟩

def get? (t : Table κ α) (k : κ) : Option α := lookup t.rows k

-- INSERT of a fresh key or UPDATE of an existing one.
def put (t : Table κ α) (k : κ) (v : α) : Table κ α :=
  ⟨replace t.rows k v, nodup_keys_replace t.rows k v t.nodup⟩

def putAll (t : Table κ α) (entries : List (κ × α)) : Table κ α :=
  entries.foldl (fun t e => t.put e.1 e.2) t

def contains (t : Table κ α) (k : κ) : Bool := (t.get? k).isSome

-- SELECT of the rows a predicate accepts.
def select (t : Table κ α) (p : κ → α → Bool) : List (κ × α) := t.rows.filter (fun r => p r.1 r.2)

def find? (t : Table κ α) (p : κ → α → Bool) : Option (κ × α) := t.rows.find? (fun r => p r.1 r.2)

def any (t : Table κ α) (p : κ → α → Bool) : Bool := t.rows.any (fun r => p r.1 r.2)

-- UPDATE of one keyed row: nothing happens unless the row exists and meets the condition, and
-- the row check may refuse the new row. The number of rows affected is returned.
def update {ε : Type} (t : Table κ α) (k : κ) (condition : α → Bool) (set : α → α)
    (check : α → α → Except ε Unit) : Except ε (Table κ α × Nat) :=
  match t.get? k with
  | none => .ok (t, 0)
  | some old =>
      if condition old then do
        check old (set old)
        pure (t.put k (set old), 1)
      else .ok (t, 0)

private theorem lookup_replace (rows : List (κ × α)) (k x : κ) (v : α) :
    lookup (replace rows k v) x = if x = k then some v else lookup rows x := by
  induction rows with
  | nil =>
      by_cases hx : k = x
      · simp [replace, lookup, hx]
      · simp [replace, lookup, hx, Ne.symm hx]
  | cons row rest ih =>
      obtain ⟨k', v'⟩ := row
      by_cases hk : k' = k
      · subst hk
        by_cases hx : k' = x
        · simp [replace, lookup, hx]
        · simp [replace, lookup, hx, Ne.symm hx]
      · by_cases hx : k' = x
        · subst hx
          simp [replace, lookup, hk]
        · simp [replace, lookup, hk, hx, ih]

@[simp] theorem get?_empty (k : κ) : (empty : Table κ α).get? k = none := rfl

theorem get?_put (t : Table κ α) (k x : κ) (v : α) :
    (t.put k v).get? x = if x = k then some v else t.get? x :=
  lookup_replace t.rows k x v

@[simp] theorem get?_put_self (t : Table κ α) (k : κ) (v : α) : (t.put k v).get? k = some v := by
  simp [get?_put]

private theorem replace_replace (rows : List (κ × α)) (k : κ) (v v' : α) :
    replace (replace rows k v) k v' = replace rows k v' := by
  induction rows with
  | nil => simp [replace]
  | cons row rest ih =>
      obtain ⟨k', v''⟩ := row
      by_cases hk : k' = k
      · simp [replace, hk]
      · simp [replace, hk, ih]

theorem put_put (t : Table κ α) (k : κ) (v v' : α) : (t.put k v).put k v' = t.put k v' := by
  simp only [put, replace_replace]

-- Seen as a function, writing a row is a function update.
@[simp] theorem get?_put_eq_update (t : Table κ α) (k : κ) (v : α) :
    (t.put k v).get? = Function.update t.get? k (some v) := by
  funext x
  rw [get?_put, Function.update_apply]

private theorem mem_rows_iff_lookup (rows : List (κ × α)) (hnodup : (rows.map Prod.fst).Nodup)
    (k : κ) (v : α) : (k, v) ∈ rows ↔ lookup rows k = some v := by
  induction rows with
  | nil => simp [lookup]
  | cons row rest ih =>
      obtain ⟨k', v'⟩ := row
      simp only [List.map_cons, List.nodup_cons] at hnodup
      simp only [List.mem_cons, Prod.mk.injEq, lookup]
      by_cases hk : k' = k
      · subst hk
        have hnot : (k', v) ∉ rest := fun hmem => hnodup.1 (List.mem_map_of_mem (f := Prod.fst) hmem)
        simp [hnot, eq_comm]
      · simp [hk, Ne.symm hk, ih hnodup.2]

theorem mem_rows_iff (t : Table κ α) (k : κ) (v : α) : (k, v) ∈ t.rows ↔ t.get? k = some v :=
  mem_rows_iff_lookup t.rows t.nodup k v

theorem mem_select (t : Table κ α) (p : κ → α → Bool) (k : κ) (v : α) :
    (k, v) ∈ t.select p ↔ t.get? k = some v ∧ p k v = true := by
  simp [select, List.mem_filter, mem_rows_iff]

theorem find?_some {t : Table κ α} {p : κ → α → Bool} {k : κ} {v : α}
    (h : t.find? p = some (k, v)) : t.get? k = some v ∧ p k v = true :=
  ⟨(mem_rows_iff t k v).1 (List.mem_of_find?_eq_some h), by simpa using List.find?_some h⟩

theorem find?_none {t : Table κ α} {p : κ → α → Bool} (h : t.find? p = none) {k : κ} {v : α}
    (hrow : t.get? k = some v) : p k v = false := by
  have hmem := (mem_rows_iff t k v).2 hrow
  simpa using List.find?_eq_none.1 h (k, v) hmem

-- A query whose predicate at most one row satisfies finds that row.
theorem find?_eq_of_unique {t : Table κ α} {p : κ → α → Bool} {k : κ} {v : α}
    (hrow : t.get? k = some v) (hp : p k v = true)
    (hunique : ∀ k' v', t.get? k' = some v' → p k' v' = true → k' = k) :
    t.find? p = some (k, v) := by
  cases hfind : t.find? p with
  | none => simp [find?_none hfind hrow] at hp
  | some row =>
      obtain ⟨k', v'⟩ := row
      obtain ⟨hrow', hp'⟩ := find?_some hfind
      have hk := hunique k' v' hrow' hp'
      subst hk
      rw [hrow] at hrow'
      simpa using hrow'.symm

theorem any_iff (t : Table κ α) (p : κ → α → Bool) :
    t.any p = true ↔ ∃ k v, t.get? k = some v ∧ p k v = true := by
  simp only [any, List.any_eq_true, Prod.exists]
  constructor
  · rintro ⟨k, v, hmem, hp⟩
    exact ⟨k, v, (mem_rows_iff t k v).1 hmem, hp⟩
  · rintro ⟨k, v, hrow, hp⟩
    exact ⟨k, v, (mem_rows_iff t k v).2 hrow, hp⟩

theorem any_eq_false {t : Table κ α} {p : κ → α → Bool} (h : t.any p = false) {k : κ} {v : α}
    (hrow : t.get? k = some v) : p k v = false := by
  by_contra hp
  have := (any_iff t p).2 ⟨k, v, hrow, by simpa using hp⟩
  simp [h] at this

theorem any_eq_false_of {t : Table κ α} {p : κ → α → Bool} (h : ∀ k v, t.get? k = some v → p k v = false) :
    t.any p = false := by
  by_contra hany
  obtain ⟨k, v, hrow, hp⟩ := (any_iff t p).1 (by simpa using hany)
  simp [h k v hrow] at hp

-- A row that was there when a fresh key was written is there still.
theorem get?_put_of_fresh {t : Table κ α} {k x : κ} {v w : α} (hfresh : t.get? k = none) (hrow : t.get? x = some w) :
    (t.put k v).get? x = some w := by
  have hx : x ≠ k := by
    rintro rfl
    rw [hfresh] at hrow
    cases hrow
  rw [get?_put, if_neg hx, hrow]

theorem get?_put_cases {t : Table κ α} {k x : κ} {v w : α} (h : (t.put k v).get? x = some w) :
    (x = k ∧ w = v) ∨ t.get? x = some w := by
  rw [get?_put] at h
  split at h
  · rename_i hx
    exact .inl ⟨hx, (Option.some.inj h).symm⟩
  · exact .inr h

-- A unique name stays one when the new row's name is new.
theorem unique_put {β : Type} {t : Table κ α} {k : κ} {v : α} (name : α → β)
    (hold : ∀ x w x' w', t.get? x = some w → t.get? x' = some w' → name w = name w' → x = x')
    (hnew : ∀ x w, t.get? x = some w → name w ≠ name v) :
    ∀ x w x' w', (t.put k v).get? x = some w → (t.put k v).get? x' = some w' → name w = name w' → x = x' := by
  intro x w x' w' hw hw' hname
  obtain ⟨hx, hv⟩ | hrow := get?_put_cases hw
  · obtain ⟨hx', -⟩ | hrow' := get?_put_cases hw'
    · rw [hx, hx']
    · rw [hv] at hname
      exact absurd hname.symm (hnew x' w' hrow')
  · obtain ⟨-, hv'⟩ | hrow' := get?_put_cases hw'
    · rw [hv'] at hname
      exact absurd hname (hnew x w hrow)
    · exact hold x w x' w' hrow hrow' hname

-- DELETE of every row a predicate does not accept.
def keep (t : Table κ α) (p : κ → α → Bool) : Table κ α :=
  ⟨t.rows.filter fun row => p row.1 row.2, t.nodup.sublist (List.filter_sublist.map Prod.fst)⟩

def erase (t : Table κ α) (k : κ) : Table κ α :=
  ⟨t.rows.filter fun row => row.1 ≠ k, t.nodup.sublist (List.filter_sublist.map Prod.fst)⟩

private theorem lookup_eq_none {rows : List (κ × α)} {k : κ} (h : k ∉ rows.map Prod.fst) : lookup rows k = none := by
  induction rows with
  | nil => rfl
  | cons row rest ih =>
      obtain ⟨k', v'⟩ := row
      simp only [List.map_cons, List.mem_cons, not_or] at h
      simpa [lookup, Ne.symm h.1] using ih h.2

private theorem lookup_filter (p : κ × α → Bool) (rows : List (κ × α)) (hnodup : (rows.map Prod.fst).Nodup) (k : κ) :
    lookup (rows.filter p) k = (lookup rows k).filter fun v => p (k, v) := by
  induction rows with
  | nil => rfl
  | cons row rest ih =>
      obtain ⟨k', v'⟩ := row
      simp only [List.map_cons, List.nodup_cons] at hnodup
      by_cases hk : k' = k
      · subst hk
        cases hp : p (k', v') with
        | true => simp [lookup, hp, Option.filter]
        | false =>
            have hrest := ih hnodup.2
            rw [lookup_eq_none hnodup.1] at hrest
            simpa [lookup, hp, Option.filter] using hrest
      · cases hp : p (k', v') with
        | true => simpa [lookup, hk, hp] using ih hnodup.2
        | false => simpa [lookup, hk, hp] using ih hnodup.2

theorem get?_keep (t : Table κ α) (p : κ → α → Bool) (k : κ) : (t.keep p).get? k = (t.get? k).filter (p k) :=
  lookup_filter (fun row => p row.1 row.2) t.rows t.nodup k

theorem get?_erase (t : Table κ α) (k x : κ) : (t.erase k).get? x = if x = k then none else t.get? x := by
  refine (lookup_filter (fun row => decide (row.1 ≠ k)) t.rows t.nodup x).trans ?_
  by_cases hx : x = k
  · simp [hx]
  · cases hrow : lookup t.rows x <;> simp [hx, get?, hrow, Option.filter]

-- UPDATE of every row, each by itself.
def mapValues (t : Table κ α) (f : κ → α → α) : Table κ α :=
  ⟨t.rows.map fun row => (row.1, f row.1 row.2), by rw [List.map_map]; exact t.nodup⟩

private theorem lookup_mapValues (f : κ → α → α) (rows : List (κ × α)) (k : κ) :
    lookup (rows.map fun row => (row.1, f row.1 row.2)) k = (lookup rows k).map (f k) := by
  induction rows with
  | nil => rfl
  | cons row rest ih =>
      obtain ⟨k', v'⟩ := row
      by_cases hk : k' = k
      · subst hk
        simp [lookup]
      · simpa [lookup, hk] using ih

@[simp] theorem get?_mapValues (t : Table κ α) (f : κ → α → α) (k : κ) : (t.mapValues f).get? k = (t.get? k).map (f k) :=
  lookup_mapValues f t.rows k

end Table

namespace Table

variable {α : Type}

theorem nodup_select {κ : Type} (t : Table κ α) (p : κ → α → Bool) : (t.select p).Nodup :=
  (List.Nodup.of_map Prod.fst t.nodup).filter _

-- A fresh identity: one past every key in use.
def nextKey (t : Table Nat α) : Nat := (t.rows.map Prod.fst).foldr max 0 + 1

private theorem le_foldr_max (keys : List Nat) (k : Nat) (hk : k ∈ keys) : k ≤ keys.foldr max 0 := by
  induction keys with
  | nil => simp at hk
  | cons x rest ih =>
      simp only [List.foldr_cons]
      rcases List.mem_cons.1 hk with rfl | hmem
      · exact Nat.le_max_left _ _
      · exact Nat.le_trans (ih hmem) (Nat.le_max_right _ _)

theorem lt_nextKey {t : Table Nat α} {k : Nat} {v : α} (h : t.get? k = some v) : k < t.nextKey := by
  have hmem := (mem_rows_iff t k v).2 h
  have := le_foldr_max (t.rows.map Prod.fst) k (List.mem_map_of_mem (f := Prod.fst) hmem)
  unfold nextKey
  omega

theorem get?_nextKey (t : Table Nat α) : t.get? t.nextKey = none := by
  cases h : t.get? t.nextKey with
  | none => rfl
  | some v => exact absurd (lt_nextKey h) (Nat.lt_irrefl _)

end Table

end AutoDeploy.Lib
