import AutoDeploy.Lib.Table

namespace AutoDeploy.Lib

-- Rows that count their changes: a later row has a higher count, or the same count and what is to be kept of it.
def Counted {α : Type} (revision : α → Nat) (kept : α → α → Prop) (a a' : α) : Prop :=
  revision a < revision a' ∨ revision a = revision a' ∧ kept a a'

namespace Counted

variable {α : Type} {revision : α → Nat} {kept : α → α → Prop} {a b c : α}

theorem trans (htrans : ∀ a b c, kept a b → kept b c → kept a c) (h : Counted revision kept a b)
    (h' : Counted revision kept b c) : Counted revision kept a c := by
  rcases h with hlt | ⟨heq, hkept⟩
  · rcases h' with hlt' | ⟨heq', -⟩
    · exact .inl (by omega)
    · exact .inl (by omega)
  · rcases h' with hlt' | ⟨heq', hkept'⟩
    · exact .inl (by omega)
    · exact .inr ⟨by omega, htrans a b c hkept hkept'⟩

theorem le (h : Counted revision kept a b) : revision a ≤ revision b := by
  rcases h with hlt | ⟨heq, -⟩
  · omega
  · omega

-- A count that is the same in the end was the same all along.
theorem between (h : Counted revision kept a b) (h' : Counted revision kept b c) (hsame : revision c = revision a) :
    kept a b := by
  have hle := h'.le
  rcases h with hlt | ⟨-, hkept⟩
  · omega
  · exact hkept

end Counted

namespace Table

variable {κ α : Type} [DecidableEq κ]

-- Every row of the first table is in the second, and has counted its changes.
def Counts (revision : α → Nat) (kept : α → α → Prop) (t t' : Table κ α) : Prop :=
  ∀ k a, t.get? k = some a → ∃ a', t'.get? k = some a' ∧ Counted revision kept a a'

namespace Counts

variable {revision : α → Nat} {kept : α → α → Prop} {t t' t'' : Table κ α}

theorem refl (hrefl : ∀ a, kept a a) (t : Table κ α) : Counts revision kept t t :=
  fun _ a h => ⟨a, h, .inr ⟨rfl, hrefl a⟩⟩

theorem trans (htrans : ∀ a b c, kept a b → kept b c → kept a c) (h : Counts revision kept t t')
    (h' : Counts revision kept t' t'') : Counts revision kept t t'' := by
  intro k a ha
  obtain ⟨b, hb, hcounted⟩ := h k a ha
  obtain ⟨c, hc, hcounted'⟩ := h' k b hb
  exact ⟨c, hc, hcounted.trans htrans hcounted'⟩

theorem mapValues {f : κ → α → α} (hf : ∀ k a, Counted revision kept a (f k a)) :
    Counts revision kept t (t.mapValues f) := by
  intro k a ha
  exact ⟨f k a, by rw [Table.get?_mapValues, ha]; rfl, hf k a⟩

theorem put {k : κ} {b : α} (hrefl : ∀ a, kept a a) (hb : ∀ a, t.get? k = some a → Counted revision kept a b) :
    Counts revision kept t (t.put k b) := by
  intro x a ha
  by_cases hx : x = k
  · subst hx
    exact ⟨b, Table.get?_put_self _ _ _, hb a ha⟩
  · refine ⟨a, ?_, .inr ⟨rfl, hrefl a⟩⟩
    rw [Table.get?_put, if_neg hx, ha]

end Counts

end Table

end AutoDeploy.Lib
