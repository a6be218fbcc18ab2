import Mathlib.Data.List.Basic
import Mathlib.Data.List.Forall2

namespace AutoDeploy.Lib

-- A printed form: free fields, each followed by a fixed text. The first character of that text tells a reader where
-- the field ends, as long as the field does not hold it.
namespace Form

variable {α : Type*}

def fill : List (List α) → List (List α) → List α
  | text :: texts, field :: fields => field ++ (text ++ fill texts fields)
  | _, _ => []

def EndsAt (text field : List α) : Prop := ∃ stop rest, text = stop :: rest ∧ stop ∉ field

def Fits (texts fields : List (List α)) : Prop := List.Forall₂ EndsAt texts fields

-- A part that is all of one class ends at the first character outside it.
theorem cut_class (p : α → Bool) {x y s t : List α} {b c : α} (hx : ∀ a ∈ x, p a = true) (hy : ∀ a ∈ y, p a = true)
    (hb : p b = false) (hc : p c = false) (h : x ++ b :: s = y ++ c :: t) : x = y ∧ b :: s = c :: t := by
  have hend {x s : List α} {b : α} (hx : ∀ a ∈ x, p a = true) (hb : p b = false) :
      (x ++ b :: s).takeWhile p = x := by
    rw [List.takeWhile_append_of_pos hx, List.takeWhile_cons_of_neg (by simp [hb]), List.append_nil]
  have hsame : x = y := by rw [← hend hx hb, h, hend hy hc]
  subst hsame
  exact ⟨rfl, List.append_cancel_left h⟩

-- Two texts that stop at the same character before anything else.
theorem cut_unique {stop : α} {x y s t : List α} (hx : stop ∉ x) (hy : stop ∉ y)
    (h : x ++ stop :: s = y ++ stop :: t) : x = y ∧ s = t := by
  induction x generalizing y with
  | nil =>
      cases y with
      | nil => exact ⟨rfl, (List.cons.inj h).2⟩
      | cons c y =>
          have hstop : stop = c := (List.cons.inj h).1
          exact absurd (hstop ▸ List.mem_cons_self) hy
  | cons c x ih =>
      cases y with
      | nil =>
          have hstop : c = stop := (List.cons.inj h).1
          exact absurd (hstop ▸ List.mem_cons_self) hx
      | cons d y =>
          obtain ⟨hhead, htail⟩ := List.cons.inj h
          obtain ⟨hfields, hrest⟩ := ih (fun hm => hx (List.mem_cons_of_mem _ hm))
            (fun hm => hy (List.mem_cons_of_mem _ hm)) htail
          exact ⟨by rw [hhead, hfields], hrest⟩

-- The same from behind, at the last such character.
theorem cut_unique_last {stop : α} {x y s t : List α} (hs : stop ∉ s) (ht : stop ∉ t)
    (h : x ++ stop :: s = y ++ stop :: t) : x = y ∧ s = t := by
  have hreverse := congrArg List.reverse h
  simp only [List.reverse_append, List.reverse_cons, List.append_assoc, List.singleton_append] at hreverse
  obtain ⟨hlast, hfirst⟩ := cut_unique (by simpa using hs) (by simpa using ht) hreverse
  exact ⟨List.reverse_injective hfirst, List.reverse_injective hlast⟩

theorem fill_injective {texts xs ys : List (List α)} (hx : Fits texts xs) (hy : Fits texts ys)
    (h : fill texts xs = fill texts ys) : xs = ys := by
  induction hx generalizing ys with
  | nil =>
      cases hy
      rfl
  | @cons text x texts xs hfirst hrest ih =>
      cases hy with
      | @cons _ y _ ys hfirst' hrest' =>
          obtain ⟨stop, rest, rfl, hstop⟩ := hfirst
          obtain ⟨stop', rest', htext, hstop'⟩ := hfirst'
          obtain ⟨rfl, rfl⟩ := List.cons.inj htext
          -- the field ends at the first `stop`, and what follows the fixed text is the form of the other fields
          obtain ⟨hfield, hbehind⟩ := cut_unique hstop hstop' h
          rw [hfield, ih hrest' (List.append_cancel_left hbehind)]

-- Where a field may hold the character that ends it, the same text is read in several ways: a piece of what follows
-- the one cut stands before the other.
theorem cut_cases {stop : α} {x y s t : List α} (h : x ++ stop :: s = y ++ stop :: t) :
    (x = y ∧ s = t) ∨ (∃ piece, y = x ++ stop :: piece ∧ s = piece ++ stop :: t) ∨
      ∃ piece, x = y ++ stop :: piece ∧ t = piece ++ stop :: s := by
  rcases List.append_eq_append_iff.1 h with ⟨between, hy, hs⟩ | ⟨between, hx, ht⟩
  · cases between with
    | nil => exact .inl ⟨by simpa using hy.symm, (List.cons.inj hs).2⟩
    | cons c piece =>
        obtain ⟨rfl, htail⟩ := List.cons.inj hs
        exact .inr (.inl ⟨piece, hy, htail⟩)
  · cases between with
    | nil => exact .inl ⟨by simpa using hx, (List.cons.inj ht).2.symm⟩
    | cons c piece =>
        obtain ⟨rfl, htail⟩ := List.cons.inj ht
        exact .inr (.inr ⟨piece, hx, htail⟩)

end Form

end AutoDeploy.Lib
