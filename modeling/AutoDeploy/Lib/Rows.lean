import Mathlib.Logic.Function.Basic

namespace AutoDeploy.Lib

open Function

-- Facts about the rows of a table seen as a function: every row, or the row under one key.

variable {κ α β : Type}

def Every (f : κ → Option α) (P : κ → α → Prop) : Prop := ∀ k v, f k = some v → P k v

def At (f : κ → Option α) (k : κ) (P : α → Prop) : Prop := ∃ v, f k = some v ∧ P v

theorem At.intro {f : κ → Option α} {k : κ} {v : α} {P : α → Prop} (hrow : f k = some v) (h : P v) : At f k P :=
  ⟨v, hrow, h⟩

theorem At.imp {f : κ → Option α} {k : κ} {P Q : α → Prop} (h : At f k P) (hPQ : ∀ v, P v → Q v) : At f k Q := by
  obtain ⟨v, hrow, hP⟩ := h
  exact ⟨v, hrow, hPQ v hP⟩

-- What is known of a row, once the row itself is known.
theorem At.of_row {f : κ → Option α} {k : κ} {v : α} {P : α → Prop} (h : At f k P) (hrow : f k = some v) : P v := by
  obtain ⟨w, hw, hP⟩ := h
  rw [hrow] at hw
  cases hw
  exact hP

theorem Every.imp {f : κ → Option α} {P Q : κ → α → Prop} (h : Every f P)
    (hPQ : ∀ k v, f k = some v → P k v → Q k v) : Every f Q :=
  fun k v hrow => hPQ k v hrow (h k v hrow)

-- Two tables have the same keys and agree on one column.
def SameBy (column : α → β) (f g : κ → Option α) : Prop := ∀ k, (f k).map column = (g k).map column

theorem SameBy.refl {column : α → β} {f : κ → Option α} : SameBy column f f := fun _ => rfl

theorem SameBy.forward {column : α → β} {f g : κ → Option α} (h : SameBy column f g) {k : κ} {v : α}
    (hrow : g k = some v) : At f k fun w => column w = column v := by
  have hk := h k
  rw [hrow, Option.map_some] at hk
  exact Option.map_eq_some_iff.1 hk

theorem SameBy.symm {column : α → β} {f g : κ → Option α} (h : SameBy column f g) : SameBy column g f :=
  fun k => (h k).symm

theorem SameBy.trans {column : α → β} {f g h : κ → Option α} (hfg : SameBy column f g) (hgh : SameBy column g h) :
    SameBy column f h :=
  fun k => (hfg k).trans (hgh k)

variable [DecidableEq κ]

theorem update_eq_some {f : κ → Option α} {k x : κ} {v w : α} :
    update f k (some v) x = some w ↔ (x = k ∧ v = w) ∨ (x ≠ k ∧ f x = some w) := by
  by_cases hx : x = k
  · subst hx
    simp
  · simp [hx]

-- Writing the row that is there changes nothing.
theorem update_row {f : κ → Option α} {k : κ} {v : α} (hrow : f k = some v) : update f k (some v) = f := by
  rw [← hrow, update_eq_self]

-- Every row after one is written: the others, and the new one.
theorem Every.write {f : κ → Option α} {k : κ} {v : α} {P : κ → α → Prop}
    (hrest : ∀ x w, x ≠ k → f x = some w → P x w) (hnew : P k v) : Every (update f k (some v)) P := by
  intro x w hrow
  rcases update_eq_some.1 hrow with ⟨rfl, rfl⟩ | ⟨hx, hrow⟩
  · exact hnew
  · exact hrest x w hx hrow

theorem Every.put {f : κ → Option α} {k : κ} {v : α} {P : κ → α → Prop} (h : Every f P) (hnew : P k v) :
    Every (update f k (some v)) P :=
  Every.write (fun x w _ hrow => h x w hrow) hnew

theorem At.write_self {f : κ → Option α} {k : κ} {v : α} {P : α → Prop} (h : P v) :
    At (update f k (some v)) k P :=
  ⟨v, by simp, h⟩

theorem At.write_of_ne {f : κ → Option α} {k x : κ} {v : α} {P : α → Prop} (h : At f x P) (hx : x ≠ k) :
    At (update f k (some v)) x P := by
  obtain ⟨w, hrow, hP⟩ := h
  exact ⟨w, by simpa [hx] using hrow, hP⟩

-- A fact about the row under `x` survives a write under `k` if the new row keeps it.
theorem At.write {f : κ → Option α} {k x : κ} {old v : α} {P : α → Prop} (h : At f x P)
    (hold : f k = some old) (hkeep : x = k → P old → P v) : At (update f k (some v)) x P := by
  by_cases hx : x = k
  · subst hx
    exact At.write_self (hkeep rfl (h.of_row hold))
  · exact h.write_of_ne hx

-- ... and survives the insertion of a row under a new key.
theorem At.insert {f : κ → Option α} {k x : κ} {v : α} {P : α → Prop} (h : At f x P) (hnone : f k = none) :
    At (update f k (some v)) x P := by
  refine h.write_of_ne fun hx => ?_
  obtain ⟨w, hrow, -⟩ := h
  rw [hx, hnone] at hrow
  cases hrow

theorem SameBy.write {column : α → β} {f : κ → Option α} {k : κ} {old new : α} (hold : f k = some old)
    (hsame : column new = column old) : SameBy column (update f k (some new)) f := by
  intro x
  by_cases hx : x = k
  · subst hx
    simp [hold, hsame]
  · simp [hx]

end AutoDeploy.Lib
