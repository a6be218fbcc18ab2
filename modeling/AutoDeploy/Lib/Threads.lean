import Mathlib.Logic.Function.Basic

namespace AutoDeploy.Lib

-- Threads that take turns at a shared state. `next` is what one of them does in a turn, from the stage it is at and
-- with what the world answers it.
structure Threads (σ ℓ ω : Type) where
  next : σ → Nat → ω → ℓ → σ × ℓ

structure Config (σ ℓ : Type) where
  shared : σ
  stage : Nat → ℓ

namespace Threads

variable {σ ℓ ω κ : Type} {P : Threads σ ℓ ω} {c : Config σ ℓ} {turn : Nat × ω}

def moved (P : Threads σ ℓ ω) (c : Config σ ℓ) (turn : Nat × ω) : σ × ℓ :=
  P.next c.shared turn.1 turn.2 (c.stage turn.1)

def step (P : Threads σ ℓ ω) (c : Config σ ℓ) (turn : Nat × ω) : Config σ ℓ :=
  ⟨(P.moved c turn).1, Function.update c.stage turn.1 (P.moved c turn).2⟩

-- A schedule is a list of turns.
def run (P : Threads σ ℓ ω) (c : Config σ ℓ) (turns : List (Nat × ω)) : Config σ ℓ := turns.foldl P.step c

-- The schedules in which every turn meets `allowed` in the state it is taken in.
def Allows (P : Threads σ ℓ ω) (allowed : Config σ ℓ → Nat × ω → Prop) : Config σ ℓ → List (Nat × ω) → Prop
  | _, [] => True
  | c, turn :: rest => allowed c turn ∧ P.Allows allowed (P.step c turn) rest

theorem allows_true (turns : List (Nat × ω)) : P.Allows (fun _ _ => True) c turns := by
  induction turns generalizing c with
  | nil => trivial
  | cons turn rest ih => exact ⟨trivial, ih⟩

theorem allows_of_forall {allowed : Nat × ω → Prop} {turns : List (Nat × ω)} (h : ∀ turn ∈ turns, allowed turn) :
    P.Allows (fun _ turn => allowed turn) c turns := by
  induction turns generalizing c with
  | nil => trivial
  | cons turn rest ih => exact ⟨h turn List.mem_cons_self, ih fun other hother => h other (List.mem_cons_of_mem _ hother)⟩

-- What every allowed turn keeps, every schedule of allowed turns keeps.
theorem run_invariant {allowed : Config σ ℓ → Nat × ω → Prop} {I : Config σ ℓ → Prop}
    (hstep : ∀ c turn, I c → allowed c turn → I (P.step c turn)) {turns : List (Nat × ω)}
    (hallowed : P.Allows allowed c turns) (h : I c) : I (P.run c turns) := by
  induction turns generalizing c with
  | nil => exact h
  | cons turn rest ih => exact ih hallowed.2 (hstep c turn h hallowed.1)

-- A schedule can be checked turn by turn, with what the turns keep at hand.
def checks (P : Threads σ ℓ ω) (check : Config σ ℓ → Nat × ω → Bool) : Config σ ℓ → List (Nat × ω) → Bool
  | _, [] => true
  | c, turn :: rest => check c turn && P.checks check (P.step c turn) rest

theorem allows_of_checks {allowed : Config σ ℓ → Nat × ω → Prop} {check : Config σ ℓ → Nat × ω → Bool}
    {I : Config σ ℓ → Prop} (hcheck : ∀ c turn, I c → check c turn = true → allowed c turn ∧ I (P.step c turn))
    {turns : List (Nat × ω)} (hchecks : P.checks check c turns = true) (h : I c) : P.Allows allowed c turns := by
  induction turns generalizing c with
  | nil => trivial
  | cons turn rest ih =>
      rw [checks, Bool.and_eq_true] at hchecks
      obtain ⟨hallowed, hnext⟩ := hcheck c turn h hchecks.1
      exact ⟨hallowed, ih hchecks.2 hnext⟩

@[simp] theorem step_shared : (P.step c turn).shared = (P.moved c turn).1 := rfl

@[simp] theorem step_stage_self : (P.step c turn).stage turn.1 = (P.moved c turn).2 := Function.update_self ..

theorem step_stage_of_ne {u : Nat} (h : u ≠ turn.1) : (P.step c turn).stage u = c.stage u :=
  Function.update_of_ne h ..

-- Every thread has its own assertion about the shared state. What the others can do to that state leaves it, and so a
-- turn has only to bring about the assertion of the thread that takes it.
def Asserts (A : σ → Nat → ℓ → Prop) (c : Config σ ℓ) : Prop := ∀ t, A c.shared t (c.stage t)

theorem Asserts.step {A : σ → Nat → ℓ → Prop} (h : Asserts A c)
    (hothers : ∀ u l, u ≠ turn.1 → A c.shared u l → A (P.moved c turn).1 u l)
    (hown : A (P.moved c turn).1 turn.1 (P.moved c turn).2) : Asserts A (P.step c turn) := by
  intro u
  by_cases hu : u = turn.1
  · subst hu
    rw [step_stage_self]
    exact hown
  · rw [step_stage_of_ne hu]
    exact hothers u _ hu (h u)

-- No two threads own the same thing.
def Exclusive (owns : σ → Nat → ℓ → κ → Prop) (c : Config σ ℓ) : Prop :=
  ∀ t u k, owns c.shared t (c.stage t) k → owns c.shared u (c.stage u) k → t = u

-- A turn takes only what nobody owns, and gives the others nothing.
theorem Exclusive.step {owns : σ → Nat → ℓ → κ → Prop} (h : Exclusive owns c)
    (hothers : ∀ u l k, u ≠ turn.1 → owns (P.moved c turn).1 u l k → owns c.shared u l k)
    (hown : ∀ k, owns (P.moved c turn).1 turn.1 (P.moved c turn).2 k →
      owns c.shared turn.1 (c.stage turn.1) k ∨ ∀ u, ¬ owns c.shared u (c.stage u) k) :
    Exclusive owns (P.step c turn) := by
  -- Whoever owns something now owned it before, or it was free before.
  have hbefore : ∀ u k, owns (P.step c turn).shared u ((P.step c turn).stage u) k →
      owns c.shared u (c.stage u) k ∨ (u = turn.1 ∧ ∀ v, ¬ owns c.shared v (c.stage v) k) := by
    intro u k hu
    by_cases hturn : u = turn.1
    · subst hturn
      rw [step_stage_self] at hu
      exact (hown k hu).imp_right fun hfree => ⟨rfl, hfree⟩
    · rw [step_stage_of_ne hturn] at hu
      exact .inl (hothers u _ k hturn hu)
  intro t u k ht hu
  obtain ht | ⟨ht, hfree⟩ := hbefore t k ht
  · obtain hu | ⟨-, hfree⟩ := hbefore u k hu
    · exact h t u k ht hu
    · exact absurd ht (hfree t)
  · obtain hu | ⟨hu, -⟩ := hbefore u k hu
    · exact absurd hu (hfree u)
    · rw [ht, hu]

end Threads

end AutoDeploy.Lib
