import AutoDeploy.Lib.Result
import Mathlib.Data.List.Induction
import Mathlib.Logic.Relation

namespace AutoDeploy.Lib

open Relation Result

-- A transaction that works through a list of items while others commit between them. `step` is what it does once it
-- holds an item's locks; an item whose locks it does not wait for may be passed over.
structure Loop (σ κ ε : Type) where
  other : σ → σ → Prop
  skips : σ → κ → Prop
  step : σ → κ → Except ε σ

-- How far the transaction is, and the error that ended it.
structure Progress (σ κ ε : Type) where
  state : σ
  pending : List κ
  failed : Option ε

namespace Loop

variable {σ κ ε : Type} {L : Loop σ κ ε} {allowed : σ → κ → Prop} {p p' : Progress σ κ ε}

-- The schedules in which every item meets `allowed` when it is locked.
inductive Next (L : Loop σ κ ε) (allowed : σ → κ → Prop) : Progress σ κ ε → Progress σ κ ε → Prop
  | other {s s' : σ} {items : List κ} (h : L.other s s') : Next L allowed ⟨s, items, none⟩ ⟨s', items, none⟩
  | skip {s : σ} {k : κ} {rest : List κ} (h : L.skips s k) : Next L allowed ⟨s, k :: rest, none⟩ ⟨s, rest, none⟩
  | step {s s' : σ} {k : κ} {rest : List κ} (hallowed : allowed s k) (h : L.step s k = .ok s') :
      Next L allowed ⟨s, k :: rest, none⟩ ⟨s', rest, none⟩
  | fail {s : σ} {k : κ} {rest : List κ} {e : ε} (hallowed : allowed s k) (h : L.step s k = .error e) :
      Next L allowed ⟨s, k :: rest, none⟩ ⟨s, k :: rest, some e⟩

def Run (L : Loop σ κ ε) (allowed : σ → κ → Prop) : Progress σ κ ε → Progress σ κ ε → Prop :=
  ReflTransGen (L.Next allowed)

-- What the other transactions and the items keep, every schedule keeps. The items still to come are in view.
theorem Run.invariant {P : σ → List κ → Prop} (hother : ∀ s s' items, P s items → L.other s s' → P s' items)
    (hskip : ∀ s k rest, P s (k :: rest) → L.skips s k → P s rest)
    (hstep : ∀ s k rest s', P s (k :: rest) → allowed s k → L.step s k = .ok s' → P s' rest)
    (hrun : L.Run allowed p p') (h : P p.state p.pending) : P p'.state p'.pending := by
  induction hrun with
  | refl => exact h
  | tail _ hnext ih =>
      cases hnext with
      | other hcommit => exact hother _ _ _ ih hcommit
      | skip hskipped => exact hskip _ _ _ ih hskipped
      | step hallowed hok => exact hstep _ _ _ _ ih hallowed hok
      | fail _ _ => exact ih

-- If no allowed item is refused, the transaction does not fail.
theorem Run.never_fails {P : σ → List κ → Prop} (hother : ∀ s s' items, P s items → L.other s s' → P s' items)
    (hskip : ∀ s k rest, P s (k :: rest) → L.skips s k → P s rest)
    (hstep : ∀ s k rest s', P s (k :: rest) → allowed s k → L.step s k = .ok s' → P s' rest)
    (haccepted : ∀ s k rest, P s (k :: rest) → allowed s k → Succeeds (L.step s k)) (hrun : L.Run allowed p p')
    (h : P p.state p.pending) (hstart : p.failed = none) : p'.failed = none := by
  induction hrun with
  | refl => exact hstart
  | tail hbefore hnext ih =>
      cases hnext with
      | other _ => rfl
      | skip _ => rfl
      | step _ _ => rfl
      | fail hallowed hrefused =>
          have hP := Run.invariant hother hskip hstep hbefore h
          obtain ⟨s', hok⟩ := haccepted _ _ _ hP hallowed
          cases hok.symm.trans hrefused

-- Alone, the transaction folds its step over the list.
theorem run_foldlM {s s' : σ} {items : List κ} (hallowed : ∀ s k, allowed s k) (h : items.foldlM L.step s = .ok s') :
    L.Run allowed ⟨s, items, none⟩ ⟨s', [], none⟩ := by
  induction items generalizing s with
  | nil =>
      simp only [List.foldlM_nil, pure_eq_ok] at h
      subst h
      exact .refl
  | cons k rest ih =>
      simp only [List.foldlM_cons, bind_eq_ok] at h
      obtain ⟨s₁, hs₁, hrest⟩ := h
      exact .head (.step (hallowed s k) hs₁) (ih hrest)

end Loop

-- Two observations of a state that others change between the two. The changes are in order when none of them touches
-- the second observation after one has touched the first.
section

variable {σ ε α β : Type} {step : σ → ε → σ} {f : σ → α} {g : σ → β}

def InOrder (step : σ → ε → σ) (f : σ → α) (g : σ → β) (s : σ) (edits : List ε) : Prop :=
  ∀ before e between e' later, edits = before ++ e :: between ++ e' :: later →
    f (step (before.foldl step s) e) ≠ f (before.foldl step s) →
      g (step ((before ++ e :: between).foldl step s) e') = g ((before ++ e :: between).foldl step s)

theorem InOrder.tail {s : σ} {e : ε} {rest : List ε} (h : InOrder step f g s (e :: rest)) :
    InOrder step f g (step s e) rest := by
  rintro before e₁ between e₂ later rfl hchange
  exact h (e :: before) e₁ between e₂ later rfl hchange

-- Once the first observation has changed, the second stays.
theorem InOrder.kept {s : σ} {e : ε} {rest : List ε} (h : InOrder step f g s (e :: rest)) (hchange : f (step s e) ≠ f s) :
    g (rest.foldl step (step s e)) = g (step s e) := by
  induction rest using List.reverseRecOn with
  | nil => rfl
  | append_singleton rest last ih =>
      have hrest : InOrder step f g s (e :: rest) := by
        rintro before e₁ between e₂ later hsplit
        refine h before e₁ between e₂ (later ++ [last]) ?_
        rw [← List.cons_append, hsplit, List.append_assoc, List.cons_append]
      have hlast := h [] e rest last [] (by simp) hchange
      rw [List.foldl_append, List.foldl_cons, List.foldl_nil]
      exact hlast.trans (ih hrest)

-- Changes in order leave a moment at which the first observation is still what it was and the second is already what
-- it will be.
theorem InOrder.exists_cut {s : σ} {edits : List ε} (hone : ∀ s e, f (step s e) = f s ∨ g (step s e) = g s)
    (h : InOrder step f g s edits) :
    ∃ before later, edits = before ++ later ∧ f (before.foldl step s) = f s ∧
      g (edits.foldl step s) = g (before.foldl step s) := by
  induction edits generalizing s with
  | nil => exact ⟨[], [], rfl, rfl, rfl⟩
  | cons e rest ih =>
      by_cases hchange : f (step s e) = f s
      · obtain ⟨before, later, rfl, hf, hg⟩ := ih h.tail
        exact ⟨e :: before, later, rfl, hf.trans hchange, hg⟩
      · have hg : g (step s e) = g s := (hone s e).resolve_left hchange
        exact ⟨[], e :: rest, rfl, rfl, (h.kept hchange).trans hg⟩

end

end AutoDeploy.Lib
