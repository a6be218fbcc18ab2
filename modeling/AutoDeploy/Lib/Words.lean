import Mathlib.Data.List.Basic

namespace AutoDeploy.Lib

-- The words of a text: what stands between blanks.
namespace Words

variable {α : Type*} {blank : α → Bool}

def words (blank : α → Bool) (text : List α) : List (List α) :=
  (text.splitOnP blank).filter fun word => !word.isEmpty

def IsWord (blank : α → Bool) (word : List α) : Prop := word ≠ [] ∧ ∀ c ∈ word, blank c = false

@[simp] theorem words_nil : words blank ([] : List α) = [] := by
  simp [words]

theorem words_word_cons {word : List α} (hword : IsWord blank word) {sep : α} (hsep : blank sep = true)
    (text : List α) : words blank (word ++ sep :: text) = word :: words blank text := by
  unfold words
  rw [List.splitOnP_append_cons_of_forall_mem hword.2 sep hsep, List.filter_cons_of_pos]
  simp [hword.1]

theorem words_word {word : List α} (hword : IsWord blank word) : words blank word = [word] := by
  unfold words
  rw [List.splitOnP_eq_singleton hword.2]
  simp [hword.1]

end Words

end AutoDeploy.Lib
