import AutoDeploy.Lib.Runes
import AutoDeploy.Store.Activation

namespace AutoDeploy.Store

open Lib Lib.Utf8

-- What sanitizeBoundedText has before it cuts.
def trimmedSummary (summary : Bytes) : List Char :=
  trimSpace ((toValid '?' summary).map fun c => if isControl c then ' ' else c)

theorem sanitizeBoundedText_eq (summary : Bytes) (maxBytes : Nat) :
    sanitizeBoundedText summary maxBytes = encode (fitting maxBytes (trimmedSummary summary)) :=
  truncateOnRuneBoundary_encode (trimmedSummary summary) maxBytes

def Printable (text : List Char) : Prop := ∀ c ∈ text, isControl c = false

def Trimmed (text : List Char) : Prop :=
  (∀ c ∈ text.head?, isSpace c = false) ∧ ∀ c ∈ text.getLast?, isSpace c = false

-- Valid text that a second pass has nothing to do on, within the limit.
def Sanitized (bytes : Bytes) (maxBytes : Nat) : Prop :=
  validString bytes = true ∧ Printable (toValid '?' bytes) ∧ Trimmed (toValid '?' bytes) ∧ bytes.length ≤ maxBytes

-- The longest beginning within the limit that ends between two characters.
def LongestWhole (s : Bytes) (maxBytes : Nat) (cut : Bytes) : Prop :=
  (cut <+: s ∧ cut.length ≤ maxBytes ∧ validString cut = true) ∧
    ∀ other, other <+: s → other.length ≤ maxBytes → validString other = true → other.length ≤ cut.length

-- The last character that fits is white space, and the next one does not fit.
def CutAfterSpace (text : List Char) (maxBytes : Nat) : Prop :=
  ∃ front c next rest, text = front ++ c :: next :: rest ∧ isSpace c = true ∧
    (encode (front ++ [c])).length ≤ maxBytes ∧ maxBytes < (encode (front ++ [c, next])).length

theorem head?_dropWhile_isSpace {text : List Char} {c : Char} (h : c ∈ (text.dropWhile isSpace).head?) :
    isSpace c = false := by
  have hhead := List.head?_dropWhile_not isSpace text
  rw [Option.mem_def.1 h] at hhead
  simpa using hhead

theorem trimSpace_trimmed (text : List Char) : Trimmed (trimSpace text) := by
  have hlast {c : Char} (h : c ∈ (trimSpace text).getLast?) : isSpace c = false := by
    rw [trimSpace, List.getLast?_reverse] at h
    exact head?_dropWhile_isSpace h
  refine ⟨?_, fun c h => hlast h⟩
  intro c h
  -- What is trimmed at the end is a beginning of what was trimmed at the start.
  have hbeginning : trimSpace text <+: text.dropWhile isSpace := by
    rw [trimSpace, ← List.reverse_suffix, List.reverse_reverse]
    exact List.dropWhile_suffix isSpace
  obtain ⟨rest, hrest⟩ := hbeginning
  have hfirst : (text.dropWhile isSpace).head? = some c := by
    rw [← hrest, List.head?_append, Option.mem_def.1 h]
    rfl
  exact head?_dropWhile_isSpace hfirst

theorem trimSpace_of_trimmed {text : List Char} (h : Trimmed text) : trimSpace text = text := by
  have hkeep {l : List Char} (hl : ∀ c ∈ l.head?, isSpace c = false) : l.dropWhile isSpace = l := by
    cases l with
    | nil => rfl
    | cons c l => rw [List.dropWhile_cons, hl c rfl]; rfl
  rw [trimSpace, hkeep h.1, hkeep ?_, List.reverse_reverse]
  rw [List.head?_reverse]
  exact h.2

theorem trimmedSummary_printable (summary : Bytes) : Printable (trimmedSummary summary) := by
  intro c hc
  have hmem : c ∈ (toValid '?' summary).map fun c => if isControl c then ' ' else c := by
    rw [trimmedSummary, trimSpace, List.mem_reverse] at hc
    have hmem := (List.dropWhile_sublist isSpace).subset hc
    exact (List.dropWhile_sublist isSpace).subset (List.mem_reverse.1 hmem)
  obtain ⟨d, -, rfl⟩ := List.mem_map.1 hmem
  split
  · decide
  · rename_i h
    exact Bool.eq_false_iff.2 h

-- A second pass keeps printable trimmed text that fits.
theorem sanitizeBoundedText_of_sanitized {text : List Char} {maxBytes : Nat} (hprintable : Printable text)
    (htrimmed : Trimmed text) (hfits : (encode text).length ≤ maxBytes) :
    sanitizeBoundedText (encode text) maxBytes = encode text := by
  have hmap : (text.map fun c => if isControl c then ' ' else c) = text := by
    rw [List.map_congr_left (g := id), List.map_id]
    intro c hc
    rw [hprintable c hc]
    rfl
  rw [sanitizeBoundedText_eq, trimmedSummary, toValid_encode, hmap, trimSpace_of_trimmed htrimmed,
    fitting_of_length_le hfits]

-- Where a cut falls, the next character is the first that does not fit.
theorem fitting_eq_iff {limit : Nat} {front rest : List Char} {next : Char} :
    fitting limit (front ++ next :: rest) = front ↔
      (encode front).length ≤ limit ∧ limit < (encode (front ++ [next])).length := by
  have hlonger : front ++ [next] <+: front ++ next :: rest := ⟨rest, by simp⟩
  constructor
  · intro h
    refine ⟨?_, ?_⟩
    · rw [← h]
      exact length_fitting limit _
    · by_contra hfits
      have hprefix := (prefix_fitting hlonger (by omega : (encode (front ++ [next])).length ≤ limit)).length_le
      rw [h, List.length_append, List.length_singleton] at hprefix
      omega
  · rintro ⟨hfits, hlong⟩
    obtain ⟨more, hmore⟩ := prefix_fitting (List.prefix_append front (next :: rest)) hfits
    cases more with
    | nil => rw [← hmore, List.append_nil]
    | cons d more =>
        have hprefix := fitting_isPrefix limit (front ++ next :: rest)
        rw [← hmore, List.prefix_append_right_inj] at hprefix
        obtain ⟨rfl, -⟩ := List.cons_prefix_cons.1 hprefix
        have hlength := length_fitting limit (front ++ d :: rest)
        rw [← hmore, show front ++ d :: more = (front ++ [d]) ++ more by simp, encode_append, List.length_append] at hlength
        omega

theorem not_trimmed_of_cut {text : List Char} {maxBytes : Nat} (h : CutAfterSpace text maxBytes) :
    ¬ Trimmed (fitting maxBytes text) := by
  obtain ⟨front, c, next, rest, rfl, hspace, hfits, hlong⟩ := h
  have hcut : fitting maxBytes ((front ++ [c]) ++ next :: rest) = front ++ [c] :=
    fitting_eq_iff.2 ⟨hfits, by simpa using hlong⟩
  rw [show front ++ c :: next :: rest = (front ++ [c]) ++ next :: rest by simp, hcut]
  intro htrimmed
  have hlast := htrimmed.2 c (by simp)
  rw [hspace] at hlast
  cases hlast

theorem fitting_trimmed {text : List Char} {maxBytes : Nat} (htrimmed : Trimmed text)
    (hcut : ¬ CutAfterSpace text maxBytes) : Trimmed (fitting maxBytes text) := by
  obtain ⟨rest, hrest⟩ := fitting_isPrefix maxBytes text
  refine ⟨?_, ?_⟩
  · intro c hc
    apply htrimmed.1 c
    rw [← hrest, List.head?_append, Option.mem_def.1 hc]
    rfl
  · intro c hc
    obtain ⟨front, hfront⟩ := List.getLast?_eq_some_iff.1 hc
    cases rest with
    | nil =>
        apply htrimmed.2 c
        rw [← hrest, List.append_nil]
        exact hc
    | cons next rest =>
        by_contra hspace
        rw [hfront] at hrest
        have hlong : (encode (front ++ [c])).length ≤ maxBytes ∧
            maxBytes < (encode (front ++ [c] ++ [next])).length :=
          fitting_eq_iff.1 (hrest ▸ hfront)
        refine hcut ⟨front, c, next, rest, ?_, Bool.eq_true_of_not_eq_false hspace, hlong.1, ?_⟩
        · rw [← hrest, List.append_assoc, List.singleton_append]
        · have hlimit := hlong.2
          rwa [List.append_assoc, List.singleton_append] at hlimit

-- Encodings continue each other as the texts do.
theorem isPrefix_of_encode {front text : List Char} (h : encode front <+: encode text) : front <+: text := by
  induction front generalizing text with
  | nil => exact List.nil_prefix
  | cons c front ih =>
      obtain ⟨rest, hrest⟩ := h
      rw [encode_cons, List.append_assoc] at hrest
      cases text with
      | nil =>
          have hlength := congrArg List.length hrest
          rw [List.length_append] at hlength
          have := encodeChar_pos c
          simp only [encode, List.flatMap_nil, List.length_nil] at hlength
          omega
      | cons d text =>
          have hdecode := decodeRune_encodeChar c (encode front ++ rest)
          rw [hrest, encode_cons, decodeRune_encodeChar] at hdecode
          obtain ⟨rfl, htail⟩ := Prod.mk.inj (Option.some.inj hdecode)
          exact (List.prefix_cons_inj d).2 (ih ⟨rest, htail.symm⟩)

theorem truncateOnRuneBoundary_longest {s : Bytes} (h : validString s = true) (maxBytes : Nat) :
    LongestWhole s maxBytes (truncateOnRuneBoundary s maxBytes) := by
  obtain ⟨text, rfl⟩ := (validString_iff_encode s).1 h
  rw [truncateOnRuneBoundary_encode]
  refine ⟨⟨?_, length_fitting maxBytes text, (validString_iff_encode _).2 ⟨_, rfl⟩⟩, ?_⟩
  · obtain ⟨rest, hrest⟩ := fitting_isPrefix maxBytes text
    refine ⟨encode rest, ?_⟩
    rw [← encode_append, hrest]
  · intro other hprefix hfits hvalid
    obtain ⟨front, rfl⟩ := (validString_iff_encode other).1 hvalid
    obtain ⟨rest, hrest⟩ := prefix_fitting (isPrefix_of_encode hprefix) hfits
    rw [← hrest, encode_append, List.length_append]
    omega

theorem sanitized_iff (summary : Bytes) (maxBytes : Nat) :
    Sanitized (sanitizeBoundedText summary maxBytes) maxBytes ↔ ¬ CutAfterSpace (trimmedSummary summary) maxBytes := by
  rw [sanitizeBoundedText_eq, Sanitized, toValid_encode]
  constructor
  · rintro ⟨-, -, htrimmed, -⟩ hcut
    exact not_trimmed_of_cut hcut htrimmed
  · intro hcut
    refine ⟨(validString_iff_encode _).2 ⟨_, rfl⟩, ?_, ?_, length_fitting maxBytes _⟩
    · intro c hc
      exact trimmedSummary_printable summary c ((fitting_isPrefix maxBytes _).subset hc)
    · exact fitting_trimmed (trimSpace_trimmed _) hcut

-- The text is trimmed before it is cut, so white space left of the cut stays.
theorem sanitized_unless_cut_after_space (summary : Bytes) (maxBytes : Nat) :
    (Sanitized (sanitizeBoundedText summary maxBytes) maxBytes ∧
        sanitizeBoundedText (sanitizeBoundedText summary maxBytes) maxBytes = sanitizeBoundedText summary maxBytes ↔
      ¬ CutAfterSpace (trimmedSummary summary) maxBytes) ∧
    (validString summary = true → LongestWhole summary maxBytes (truncateOnRuneBoundary summary maxBytes)) := by
  refine ⟨?_, fun hvalid => truncateOnRuneBoundary_longest hvalid maxBytes⟩
  rw [← sanitized_iff summary maxBytes]
  constructor
  · exact And.left
  · intro h
    refine ⟨h, ?_⟩
    rw [sanitizeBoundedText_eq summary] at h ⊢
    obtain ⟨-, hprintable, htrimmed, hfits⟩ := h
    rw [toValid_encode] at hprintable htrimmed
    exact sanitizeBoundedText_of_sanitized hprintable htrimmed hfits

-- Two bytes of "a b" end in the blank, and the second pass removes it.
theorem second_pass_trims :
    sanitizeBoundedText (Bytes.ofString "a b") 2 = Bytes.ofString "a " ∧
      ¬ Sanitized (sanitizeBoundedText (Bytes.ofString "a b") 2) 2 ∧
      sanitizeBoundedText (sanitizeBoundedText (Bytes.ofString "a b") 2) 2 = Bytes.ofString "a" := by
  refine ⟨by decide +kernel, ?_, by decide +kernel⟩
  rw [sanitized_iff, not_not]
  exact ⟨['a'], ' ', 'b', [], by decide +kernel, by decide, by decide, by decide⟩

end AutoDeploy.Store
