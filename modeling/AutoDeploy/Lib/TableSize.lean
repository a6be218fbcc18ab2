import AutoDeploy.Lib.Table
import Mathlib.Data.List.Perm.Subperm

namespace AutoDeploy.Lib.Table

-- How many rows a table has, and what each write does to that number.

variable {κ α : Type} [DecidableEq κ]

def size (t : Table κ α) : Nat := t.rows.length

omit [DecidableEq κ] in
@[simp] theorem size_empty : (empty : Table κ α).size = 0 := rfl

private theorem length_replace (rows : List (κ × α)) (k : κ) (v : α) :
    (replace rows k v).length = if (lookup rows k).isSome then rows.length else rows.length + 1 := by
  induction rows with
  | nil => rfl
  | cons row rest ih =>
      obtain ⟨k', v'⟩ := row
      by_cases hk : k' = k
      · simp [replace, lookup, hk]
      · simp only [replace, lookup, hk, if_false, List.length_cons, ih]
        split <;> rfl

theorem size_put (t : Table κ α) (k : κ) (v : α) :
    (t.put k v).size = if (t.get? k).isSome then t.size else t.size + 1 :=
  length_replace t.rows k v

theorem size_put_of_some {t : Table κ α} {k : κ} {old : α} (v : α) (hrow : t.get? k = some old) :
    (t.put k v).size = t.size := by
  simp [size_put, hrow]

theorem size_put_le (t : Table κ α) (k : κ) (v : α) : (t.put k v).size ≤ t.size + 1 := by
  rw [size_put]
  split <;> omega

omit [DecidableEq κ] in
theorem size_keep_le (t : Table κ α) (p : κ → α → Bool) : (t.keep p).size ≤ t.size :=
  List.length_filter_le _ _

-- A row that is dropped makes room.
theorem size_keep_lt {t : Table κ α} {p : κ → α → Bool} {k : κ} {v : α} (hrow : t.get? k = some v)
    (hp : p k v = false) : (t.keep p).size < t.size := by
  have hmem := (mem_rows_iff t k v).2 hrow
  refine Nat.lt_of_le_of_ne (size_keep_le t p) fun heq => ?_
  have hall := List.length_filter_eq_length_iff.1 heq (k, v) hmem
  simp [hp] at hall

theorem nodup_keys_select {κ : Type} (t : Table κ α) (p : κ → α → Bool) : ((t.select p).map Prod.fst).Nodup :=
  (List.filter_sublist.map Prod.fst).nodup t.nodup

-- A selection whose keys are all listed is no longer than the list.
theorem length_select_le {t : Table κ α} {p : κ → α → Bool} {keys : List κ}
    (h : ∀ k v, t.get? k = some v → p k v = true → k ∈ keys) : (t.select p).length ≤ keys.length := by
  have hsubset : (t.select p).map Prod.fst ⊆ keys := by
    intro k hk
    obtain ⟨⟨k', v⟩, hmem, rfl⟩ := List.mem_map.1 hk
    obtain ⟨hrow, hp⟩ := (mem_select t p k' v).1 hmem
    exact h k' v hrow hp
  have hle := ((nodup_keys_select t p).subperm hsubset).length_le
  simpa only [List.length_map] using hle

-- A table that selects nothing new selects no more.
theorem length_select_mono {t t' : Table κ α} {p p' : κ → α → Bool}
    (h : ∀ k v', t'.get? k = some v' → p' k v' = true → ∃ v, t.get? k = some v ∧ p k v = true) :
    (t'.select p').length ≤ (t.select p).length := by
  have hle : (t'.select p').length ≤ ((t.select p).map Prod.fst).length := by
    refine length_select_le fun k v' hrow' hp' => ?_
    obtain ⟨v, hrow, hp⟩ := h k v' hrow' hp'
    exact List.mem_map.2 ⟨(k, v), (mem_select t p k v).2 ⟨hrow, hp⟩, rfl⟩
  simpa only [List.length_map] using hle

end AutoDeploy.Lib.Table
