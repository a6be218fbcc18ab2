import AutoDeploy.Lib.Runs

namespace AutoDeploy.Lib

-- A system whose steps are calls: each may be made in some states, and its effect is a function of the state.

variable {σ α : Type}

def callSystem (initial : σ → Prop) (may : σ → α → Prop) (effect : σ → α → σ) : System σ where
  initial := initial
  next s s' := ∃ call, may s call ∧ s' = effect s call

-- Every call of a list may be made when its turn comes.
def mayAll (may : σ → α → Prop) (effect : σ → α → σ) [∀ s call, Decidable (may s call)] : List α → σ → Bool
  | [], _ => true
  | call :: rest, s => decide (may s call) && mayAll may effect rest (effect s call)

theorem reachable_calls {initial : σ → Prop} {may : σ → α → Prop} {effect : σ → α → σ}
    [∀ s call, Decidable (may s call)] (calls : List α) {s : σ} (hs : (callSystem initial may effect).Reachable s)
    (h : mayAll may effect calls s = true) : (callSystem initial may effect).Reachable (calls.foldl effect s) := by
  induction calls generalizing s with
  | nil => exact hs
  | cons call rest ih =>
      simp only [mayAll, Bool.and_eq_true, decide_eq_true_eq] at h
      exact ih (hs.step ⟨call, h.1, rfl⟩) h.2

end AutoDeploy.Lib
