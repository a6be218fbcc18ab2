import Mathlib.Data.List.Basic

namespace AutoDeploy.Lib

-- Fallible steps: a guard, a lookup that must succeed, and how a sequence of them succeeds.
namespace Result

variable {ε α β : Type}

def require (c : Prop) [Decidable c] (e : ε) : Except ε Unit := if c then .ok () else .error e

def found (o : Option α) (e : ε) : Except ε α :=
  match o with
  | some a => .ok a
  | none => .error e

@[simp] theorem require_eq_ok {c : Prop} [Decidable c] {e : ε} {u : Unit} :
    require c e = .ok u ↔ c := by
  unfold require
  by_cases hc : c
  · simp [hc]
  · simp [hc]

theorem require_pos {c : Prop} [Decidable c] {e : ε} (hc : c) : require c e = .ok () := if_pos hc

theorem require_neg {c : Prop} [Decidable c] {e : ε} (hc : ¬ c) : require c e = .error e := if_neg hc

theorem require_eq_error {c : Prop} [Decidable c] {e e' : ε} :
    require c e = .error e' ↔ ¬ c ∧ e = e' := by
  unfold require
  by_cases hc : c
  · simp [hc]
  · simp [hc]

@[simp] theorem found_eq_ok {o : Option α} {e : ε} {a : α} : found o e = .ok a ↔ o = some a := by
  cases o with
  | none => simp [found]
  | some x => simp [found]

@[simp] theorem found_some (a : α) (e : ε) : found (some a) e = .ok a := rfl

@[simp] theorem found_none (e : ε) : (found none e : Except ε α) = .error e := rfl

-- A sequence succeeds exactly when each of its steps does.
@[simp] theorem bind_eq_ok {x : Except ε α} {f : α → Except ε β} {b : β} :
    (x >>= f) = .ok b ↔ ∃ a, x = .ok a ∧ f a = .ok b := by
  cases x with
  | error e => simp [bind, Except.bind]
  | ok a => simp [bind, Except.bind]

@[simp] theorem pure_eq_ok {a b : α} : (pure a : Except ε α) = .ok b ↔ a = b := by
  simp [pure, Except.pure]

@[simp] theorem ok_bind (a : α) (f : α → Except ε β) : ((Except.ok a : Except ε α) >>= f) = f a := rfl

@[simp] theorem error_bind (e : ε) (f : α → Except ε β) :
    ((Except.error e : Except ε α) >>= f) = .error e := rfl

@[simp] theorem mapError_eq_ok {ε' : Type} {f : ε → ε'} {x : Except ε α} {a : α} :
    x.mapError f = .ok a ↔ x = .ok a := by
  cases x with
  | error e => simp [Except.mapError]
  | ok b => simp [Except.mapError]

-- What a test of the result says about the computation.
theorem ok_of_toOption {x : Except ε α} {a : α} (h : x.toOption = some a) : x = .ok a := by
  cases x with
  | error e => cases h
  | ok b => exact congrArg Except.ok (Option.some.inj h)

theorem toOption_eq_some {x : Except ε α} {a : α} : x.toOption = some a ↔ x = .ok a := by
  constructor
  · exact ok_of_toOption
  · rintro rfl
    rfl

theorem ok_of_any {x : Except ε α} {p : α → Bool} (h : x.toOption.any p = true) : ∃ a, x = .ok a ∧ p a = true := by
  cases x with
  | error e => simp [Except.toOption] at h
  | ok a => exact ⟨a, rfl, by simpa [Except.toOption] using h⟩

-- A test for one error.
def failsWith [DecidableEq ε] (x : Except ε α) (e : ε) : Bool :=
  match x with
  | .error e' => e' == e
  | .ok _ => false

theorem error_of_failsWith [DecidableEq ε] {x : Except ε α} {e : ε} (h : failsWith x e = true) : x = .error e := by
  cases x with
  | error e' =>
      have he : e' = e := by simpa [failsWith] using h
      rw [he]
  | ok a => simp [failsWith] at h

-- A computation that ends without an error.
def Succeeds (x : Except ε α) : Prop := ∃ a, x = .ok a

theorem Succeeds.pure (a : α) : Succeeds (Pure.pure a : Except ε α) := ⟨a, rfl⟩

theorem Succeeds.bind {x : Except ε α} {f : α → Except ε β} {a : α} (hx : x = .ok a) (hf : Succeeds (f a)) :
    Succeeds (x >>= f) := by
  obtain ⟨b, hb⟩ := hf
  exact ⟨b, bind_eq_ok.2 ⟨a, hx, hb⟩⟩

theorem Succeeds.bind_all {x : Except ε α} {f : α → Except ε β} (hx : Succeeds x)
    (hf : ∀ a, x = .ok a → Succeeds (f a)) : Succeeds (x >>= f) := by
  obtain ⟨a, ha⟩ := hx
  exact .bind ha (hf a ha)

-- Every result a computation can end with has a property.
def Returns (P : α → Prop) (x : Except ε α) : Prop := ∀ a, x = .ok a → P a

namespace Returns

variable {P : α → Prop}

theorem pure {a : α} (h : P a) : Returns P (Pure.pure a : Except ε α) := by
  intro b hb
  cases hb
  exact h

theorem error (e : ε) : Returns P (.error e : Except ε α) := by
  intro a h
  cases h

theorem bind {Q : β → Prop} {x : Except ε α} {f : α → Except ε β} (hx : Returns P x) (hf : ∀ a, P a → Returns Q (f a)) :
    Returns Q (x >>= f) := by
  intro b h
  obtain ⟨a, ha, hb⟩ := bind_eq_ok.1 h
  exact hf a (hx a ha) b hb

-- ... where the second step does not depend on what the first one returned.
theorem bind_any {x : Except ε β} {f : β → Except ε α} (hf : ∀ b, Returns P (f b)) : Returns P (x >>= f) := by
  intro a h
  obtain ⟨b, -, ha⟩ := bind_eq_ok.1 h
  exact hf b a ha

theorem mapError {ε' : Type} {f : ε → ε'} {x : Except ε α} (hx : Returns P x) : Returns P (x.mapError f) := by
  intro a h
  exact hx a (mapError_eq_ok.1 h)

theorem ite {c : Prop} [Decidable c] {x y : Except ε α} (hx : Returns P x) (hy : Returns P y) :
    Returns P (if c then x else y) := by
  split
  · exact hx
  · exact hy

end Returns

-- Every error a computation can end with has a property.
def Throws (P : ε → Prop) (x : Except ε α) : Prop := ∀ e, x = .error e → P e

namespace Throws

variable {P : ε → Prop}

theorem pure (a : α) : Throws P (Pure.pure a : Except ε α) := by
  intro e h
  cases h

theorem error {e : ε} (h : P e) : Throws P (.error e : Except ε α) := by
  intro e' he
  cases he
  exact h

theorem bind {x : Except ε α} {f : α → Except ε β} (hx : Throws P x) (hf : ∀ a, Throws P (f a)) :
    Throws P (x >>= f) := by
  intro e h
  cases x with
  | error e' => exact hx e (by simpa using h)
  | ok a => exact hf a e (by simpa using h)

-- ... where the second step may use what the first one returned.
theorem bind_of_ok {x : Except ε α} {f : α → Except ε β} (hx : Throws P x) (hf : ∀ a, x = .ok a → Throws P (f a)) :
    Throws P (x >>= f) := by
  intro e h
  cases x with
  | error e' => exact hx e (by simpa using h)
  | ok a => exact hf a rfl e (by simpa using h)

theorem require {c : Prop} [Decidable c] {e : ε} (h : P e) : Throws P (Result.require c e) := by
  intro e' he
  rw [(require_eq_error.1 he).2.symm]
  exact h

theorem found {o : Option α} {e : ε} (h : P e) : Throws P (Result.found o e) := by
  cases o with
  | none => exact error h
  | some a => exact pure a

theorem mapError {ε' : Type} {f : ε' → ε} {x : Except ε' α} (h : ∀ e, P (f e)) : Throws P (x.mapError f) := by
  cases x with
  | error e => exact error (h e)
  | ok a => exact pure a

theorem ite {c : Prop} [Decidable c] {x y : Except ε α} (hx : Throws P x) (hy : Throws P y) :
    Throws P (if c then x else y) := by
  split
  · exact hx
  · exact hy

end Throws

end Result

end AutoDeploy.Lib
