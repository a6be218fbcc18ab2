import Mathlib.Data.List.Dedup
import Mathlib.Data.List.Infix

namespace AutoDeploy.Lib

-- The longest suffixes of a word of a given kind: what an automaton for many patterns keeps of its input.
namespace Borders

variable {α : Type*}

-- The longest suffix that satisfies the test; the empty one when none does.
def longestWith (test : List α → Bool) : List α → List α
  | [] => []
  | a :: w => if test (a :: w) then a :: w else longestWith test w

theorem longestWith_isSuffix (test : List α → Bool) (w : List α) : longestWith test w <:+ w := by
  induction w with
  | nil => exact List.suffix_refl _
  | cons a w ih =>
      rw [longestWith]
      split
      · exact List.suffix_refl _
      · exact ih.trans (List.suffix_cons a w)

theorem longestWith_test (test : List α → Bool) (w : List α) :
    longestWith test w = [] ∨ test (longestWith test w) = true := by
  induction w with
  | nil => exact .inl rfl
  | cons a w ih =>
      rw [longestWith]
      split
      · exact .inr (by assumption)
      · exact ih

theorem isSuffix_longestWith {test : List α → Bool} {v w : List α} (hsuffix : v <:+ w) (hne : v ≠ []) (hv : test v = true) :
    v <:+ longestWith test w := by
  induction w with
  | nil => exact absurd (List.suffix_nil.1 hsuffix) hne
  | cons a w ih =>
      rw [longestWith]
      split
      · exact hsuffix
      · rename_i hfails
        rcases List.suffix_cons_iff.1 hsuffix with rfl | hrest
        · exact absurd hv hfails
        · exact ih hrest

-- These three properties determine it.
theorem longestWith_eq {test : List α → Bool} {w r : List α} (hsuffix : r <:+ w) (hr : r = [] ∨ test r = true)
    (hlongest : ∀ v, v <:+ w → v ≠ [] → test v = true → v <:+ r) : longestWith test w = r := by
  have hle : longestWith test w <:+ r := by
    rcases longestWith_test test w with hnil | htest
    · rw [hnil]
      exact List.nil_suffix
    · by_cases hnil : longestWith test w = []
      · rw [hnil]
        exact List.nil_suffix
      · exact hlongest _ (longestWith_isSuffix test w) hnil htest
  have hge : r <:+ longestWith test w := by
    by_cases hnil : r = []
    · rw [hnil]
      exact List.nil_suffix
    · exact isSuffix_longestWith hsuffix hnil (hr.resolve_left hnil)
  exact hle.eq_of_length (le_antisymm hle.length_le hge.length_le)

theorem concat_isSuffix {u w : List α} (h : u <:+ w) (b : α) : u ++ [b] <:+ w ++ [b] := by
  obtain ⟨front, rfl⟩ := h
  exact ⟨front, (List.append_assoc front u [b]).symm⟩

variable [DecidableEq α] {patterns : List (List α)}

-- Some pattern begins with the word. The empty word begins whatever there is.
def begins (patterns : List (List α)) (w : List α) : Bool := w.isEmpty || patterns.any fun p => w.isPrefixOf p

def longest (patterns : List (List α)) (w : List α) : List α := longestWith (begins patterns) w

-- The longest proper suffix that begins a pattern.
def border (patterns : List (List α)) (u : List α) : List α := longest patterns u.tail

-- The longest proper suffix that is a pattern.
def outLink (patterns : List (List α)) (u : List α) : List α := longestWith (fun v => patterns.contains v) u.tail

theorem begins_iff {w : List α} : begins patterns w = true ↔ w = [] ∨ ∃ p ∈ patterns, w <+: p := by
  simp only [begins, Bool.or_eq_true, List.isEmpty_iff, List.any_eq_true, List.isPrefixOf_iff_prefix]

theorem begins_of_mem {p : List α} (h : p ∈ patterns) : begins patterns p = true :=
  begins_iff.2 (.inr ⟨p, h, List.prefix_refl p⟩)

theorem begins_of_isPrefix {u w : List α} (hfront : u <+: w) (h : begins patterns w = true) : begins patterns u = true := by
  rcases begins_iff.1 h with rfl | ⟨p, hp, hw⟩
  · exact begins_iff.2 (.inl (List.prefix_nil.1 hfront))
  · exact begins_iff.2 (.inr ⟨p, hp, hfront.trans hw⟩)

theorem begins_longest (w : List α) : begins patterns (longest patterns w) = true := by
  rcases longestWith_test (begins patterns) w with hnil | htest
  · exact begins_iff.2 (.inl hnil)
  · exact htest

theorem longest_isSuffix (w : List α) : longest patterns w <:+ w := longestWith_isSuffix _ w

theorem isSuffix_longest {v w : List α} (hsuffix : v <:+ w) (hv : begins patterns v = true) : v <:+ longest patterns w := by
  by_cases hnil : v = []
  · rw [hnil]
    exact List.nil_suffix
  · exact isSuffix_longestWith hsuffix hnil hv

theorem longest_eq {w r : List α} (hsuffix : r <:+ w) (hr : begins patterns r = true)
    (hlongest : ∀ v, v <:+ w → begins patterns v = true → v <:+ r) : longest patterns w = r :=
  longestWith_eq hsuffix (.inr hr) fun v hv _ htest => hlongest v hv htest

theorem longest_of_begins {w : List α} (h : begins patterns w = true) : longest patterns w = w :=
  longest_eq (List.suffix_refl w) h fun _ hv _ => hv

-- What matters of the input for the next letter is its longest suffix that begins a pattern.
theorem longest_concat (w : List α) (b : α) : longest patterns (w ++ [b]) = longest patterns (longest patterns w ++ [b]) := by
  refine longest_eq ?_ (begins_longest _) ?_
  · exact (longest_isSuffix _).trans (concat_isSuffix (longest_isSuffix w) b)
  · intro v hv hbegins
    rcases List.eq_nil_or_concat v with rfl | ⟨front, c, rfl⟩
    · exact List.nil_suffix
    · rw [List.concat_eq_append] at hv hbegins ⊢
      obtain ⟨rest, hrest⟩ := hv
      rw [← List.append_assoc] at hrest
      obtain ⟨hfront, hlast⟩ := List.append_inj' hrest rfl
      obtain rfl := List.singleton_inj.1 hlast
      have hshort := isSuffix_longest ⟨rest, hfront⟩ (begins_of_isPrefix (List.prefix_append front [c]) hbegins)
      exact isSuffix_longest (concat_isSuffix hshort c) hbegins

-- A letter that does not go on from a word is read from its border.
theorem longest_of_fails {u : List α} {b : α} (hne : u ≠ []) (h : begins patterns (u ++ [b]) = false) :
    longest patterns (u ++ [b]) = longest patterns (border patterns u ++ [b]) := by
  obtain ⟨a, w, rfl⟩ := List.exists_cons_of_ne_nil hne
  rw [border, List.tail_cons, ← longest_concat, longest, List.cons_append, longestWith]
  rw [List.cons_append] at h
  rw [h]
  rfl

theorem longest_singleton_of_fails {b : α} (h : begins patterns [b] = false) : longest patterns [b] = [] := by
  rw [longest, longestWith, h]
  rfl

theorem length_border_lt {u : List α} (hne : u ≠ []) : (border patterns u).length < u.length := by
  have hle : (longest patterns u.tail).length ≤ u.tail.length := (longest_isSuffix u.tail).length_le
  have hpos := List.length_pos_iff.2 hne
  rw [List.length_tail] at hle
  unfold border
  omega

-- The border of a longer word is found where its last letter goes on from the border before it.
theorem border_concat {u : List α} (hne : u ≠ []) (b : α) :
    border patterns (u ++ [b]) = longest patterns (border patterns u ++ [b]) := by
  obtain ⟨a, w, rfl⟩ := List.exists_cons_of_ne_nil hne
  rw [border, List.cons_append, List.tail_cons, border, List.tail_cons, ← longest_concat]

theorem outLink_of_mem {u : List α} (h : border patterns u ∈ patterns) : outLink patterns u = border patterns u := by
  refine longestWith_eq (longest_isSuffix _) (.inr (List.contains_iff_mem.2 h)) ?_
  intro v hv _ hmem
  exact isSuffix_longest hv (begins_of_mem (List.contains_iff_mem.1 hmem))

-- A border that is no pattern hands its own link on.
theorem outLink_of_notMem {u : List α} (h : border patterns u = [] ∨ border patterns u ∉ patterns) :
    outLink patterns u = outLink patterns (border patterns u) := by
  refine longestWith_eq ?_ (longestWith_test _ _) ?_
  · exact (longestWith_isSuffix _ _).trans ((List.tail_suffix _).trans (longest_isSuffix _))
  · intro v hv hne hmem
    have hborder : v <:+ border patterns u := isSuffix_longest hv (begins_of_mem (List.contains_iff_mem.1 hmem))
    refine isSuffix_longestWith ?_ hne hmem
    cases hcase : border patterns u with
    | nil =>
        rw [hcase] at hborder
        exact absurd (List.suffix_nil.1 hborder) hne
    | cons a w =>
        rw [hcase] at hborder h
        rcases List.suffix_cons_iff.1 hborder with rfl | hrest
        · rcases h with h | h
          · cases h
          · exact absurd (List.contains_iff_mem.1 hmem) h
        · exact hrest

-- The patterns that end where the word ends, the longest first.
def ending (patterns : List (List α)) (w : List α) : List (List α) :=
  w.tails.filter fun p => !p.isEmpty && patterns.contains p

theorem mem_ending {w p : List α} : p ∈ ending patterns w ↔ p ∈ patterns ∧ p ≠ [] ∧ p <:+ w := by
  simp only [ending, List.mem_filter, List.mem_tails, Bool.and_eq_true, Bool.not_eq_true', List.isEmpty_eq_false_iff,
    List.contains_iff_mem]
  tauto

theorem ending_cons (a : α) (w : List α) :
    ending patterns (a :: w) = if a :: w ∈ patterns then (a :: w) :: ending patterns w else ending patterns w := by
  unfold ending
  rw [List.tails_cons, List.filter_cons]
  simp only [List.isEmpty_cons, Bool.not_false, Bool.true_and, List.contains_iff_mem]

-- A suffix that has all of them has the same.
theorem ending_eq_of_isSuffix {v w : List α} (hsuffix : v <:+ w)
    (h : ∀ p ∈ patterns, p ≠ [] → p <:+ w → p <:+ v) : ending patterns w = ending patterns v := by
  induction w with
  | nil => rw [List.suffix_nil.1 hsuffix]
  | cons a w ih =>
      rcases List.suffix_cons_iff.1 hsuffix with rfl | hrest
      · rfl
      · have hlonger : a :: w ∉ patterns := by
          intro hmem
          have hle := (h _ hmem (List.cons_ne_nil a w) (List.suffix_refl _)).length_le
          have hle' := hrest.length_le
          rw [List.length_cons] at hle
          omega
        rw [ending_cons, if_neg hlonger]
        exact ih hrest fun p hp hne hw => h p hp hne (hw.trans (List.suffix_cons a w))

theorem ending_longest (w : List α) : ending patterns w = ending patterns (longest patterns w) :=
  ending_eq_of_isSuffix (longest_isSuffix w) fun _ hp _ hw => isSuffix_longest hw (begins_of_mem hp)

theorem ending_outLink {u : List α} (hne : u ≠ []) :
    ending patterns u =
      if u ∈ patterns then u :: ending patterns (outLink patterns u) else ending patterns (outLink patterns u) := by
  obtain ⟨a, w, rfl⟩ := List.exists_cons_of_ne_nil hne
  have hrest : ending patterns w = ending patterns (outLink patterns (a :: w)) :=
    ending_eq_of_isSuffix (longestWith_isSuffix _ w) fun p hp hne hw =>
      isSuffix_longestWith hw hne (List.contains_iff_mem.2 hp)
  rw [ending_cons, hrest]

theorem ending_nodup (w : List α) : (ending patterns w).Nodup := by
  induction w with
  | nil => exact List.nodup_nil
  | cons a w ih =>
      rw [ending_cons]
      split
      · refine List.nodup_cons.2 ⟨fun hmem => ?_, ih⟩
        have hle := (mem_ending.1 hmem).2.2.length_le
        rw [List.length_cons] at hle
        omega
      · exact ih

theorem length_outLink_lt {u : List α} (hne : u ≠ []) : (outLink patterns u).length < u.length := by
  have hle : (outLink patterns u).length ≤ u.tail.length := (longestWith_isSuffix _ u.tail).length_le
  have hpos := List.length_pos_iff.2 hne
  rw [List.length_tail] at hle
  omega

end Borders

end AutoDeploy.Lib
