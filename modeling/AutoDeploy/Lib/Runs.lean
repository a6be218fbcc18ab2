import Mathlib.Logic.Relation

namespace AutoDeploy.Lib

open Relation

-- A chain of steps keeps what each of them keeps.
theorem chain_preserves {τ : Type} {step : τ → τ → Prop} {P : τ → Prop}
    (hstep : ∀ t t', P t → step t t' → P t') {t t' : τ} (hchain : ReflTransGen step t t') (h : P t) :
    P t' := by
  induction hchain with
  | refl => exact h
  | tail _ hnext ih => exact hstep _ _ ih hnext

-- A transition system, the states it can reach, and how properties of one step become properties
-- of every run.
structure System (σ : Type) where
  initial : σ → Prop
  next : σ → σ → Prop

namespace System

variable {σ : Type} {S T : System σ}

def Run (S : System σ) : σ → σ → Prop := ReflTransGen S.next

def Reachable (S : System σ) (s : σ) : Prop := ∃ s₀, S.initial s₀ ∧ S.Run s₀ s

theorem Reachable.of_initial {s : σ} (h : S.initial s) : S.Reachable s := ⟨s, h, .refl⟩

theorem Reachable.run {s s' : σ} (h : S.Reachable s) (hrun : S.Run s s') : S.Reachable s' := by
  obtain ⟨s₀, hinit, hrun₀⟩ := h
  exact ⟨s₀, hinit, hrun₀.trans hrun⟩

theorem Reachable.step {s s' : σ} (h : S.Reachable s) (hstep : S.next s s') : S.Reachable s' :=
  h.run (.single hstep)

-- An invariant: it holds at the start and each step keeps it.
theorem Reachable.invariant {P : σ → Prop} (hinit : ∀ s, S.initial s → P s)
    (hstep : ∀ s s', P s → S.next s s' → P s') {s : σ} (h : S.Reachable s) : P s := by
  obtain ⟨s₀, hinit₀, hrun⟩ := h
  exact chain_preserves hstep hrun (hinit s₀ hinit₀)

-- Fewer steps reach fewer states.
theorem Run.mono (hnext : ∀ s s', S.next s s' → T.next s s') {s s' : σ} (hrun : S.Run s s') :
    T.Run s s' :=
  ReflTransGen.mono hnext s s' hrun

theorem Reachable.mono (hinit : ∀ s, S.initial s → T.initial s)
    (hnext : ∀ s s', S.next s s' → T.next s s') {s : σ} (h : S.Reachable s) : T.Reachable s := by
  obtain ⟨s₀, hinit₀, hrun⟩ := h
  exact ⟨s₀, hinit s₀ hinit₀, hrun.mono hnext⟩

end System

end AutoDeploy.Lib
