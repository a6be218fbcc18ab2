import AutoDeploy.Checkout.Runner
import AutoDeploy.Lib.Unicode
import AutoDeploy.Lib.Words
import Mathlib.Data.List.DropRight

namespace AutoDeploy.Checkout

open Lib

-- The output of a git command as its text. What unsafeTree compares with is ASCII, so it does not matter that a byte
-- that belongs to no character reads as U+FFFD, which is neither white space nor part of any of these words.
def outputText (output : Bytes) : String := String.ofList (Unicode.text output)

def gitmodules : List Char := ".gitmodules".toList

-- What git prints: one line for each entry.
inductive ObjectType where
  | blob
  | tree
  | commit
deriving DecidableEq, Repr

def ObjectType.name : ObjectType → List Char
  | .blob => "blob".toList
  | .tree => "tree".toList
  | .commit => "commit".toList

def lowerHex (c : Char) : Bool := ('0' ≤ c && c ≤ '9') || ('a' ≤ c && c ≤ 'f')

structure TreeEntry where
  mode : Nat
  kind : ObjectType
  object : List Char
  path : Bytes
  objectHex : object ≠ [] ∧ object.all lowerHex = true
  pathNamed : path ≠ [] ∧ 0 ∉ path

-- The mode in octal, with at least six digits.
def octal (mode : Nat) : List Char :=
  List.replicate (6 - (Nat.toDigits 8 mode).length) '0' ++ Nat.toDigits 8 mode

-- Bytes outside ASCII are quoted unless core.quotePath is off.
def mustQuote (quoteHigh : Bool) (b : UInt8) : Bool :=
  decide (b < 0x20) || b == 0x7f || b == 34 || b == 92 || (quoteHigh && decide (0x80 ≤ b))

def octalByte (b : UInt8) : Bytes :=
  [UInt8.ofNat (48 + b.toNat / 64), UInt8.ofNat (48 + b.toNat / 8 % 8), UInt8.ofNat (48 + b.toNat % 8)]

def escapeByte (quoteHigh : Bool) (b : UInt8) : Bytes :=
  if mustQuote quoteHigh b then
    match b with
    | 7 => [92, 97]
    | 8 => [92, 98]
    | 9 => [92, 116]
    | 10 => [92, 110]
    | 11 => [92, 118]
    | 12 => [92, 102]
    | 13 => [92, 114]
    | 34 => [92, 34]
    | 92 => [92, 92]
    | b => 92 :: octalByte b
  else [b]

def quotedPath (quoteHigh : Bool) (path : Bytes) : Bytes :=
  if path.any (mustQuote quoteHigh) then 34 :: (path.flatMap (escapeByte quoteHigh) ++ [34]) else path

def TreeEntry.columns (e : TreeEntry) : List Char := octal e.mode ++ ' ' :: (e.kind.name ++ ' ' :: e.object)

def TreeEntry.line (quoteHigh : Bool) (e : TreeEntry) : Bytes :=
  Utf8.encode (e.columns ++ ['\t']) ++ (quotedPath quoteHigh e.path ++ [10])

def lsTree (quoteHigh : Bool) (entries : List TreeEntry) : Bytes := entries.flatMap (TreeEntry.line quoteHigh)

def TreeEntry.plain (e : TreeEntry) : Prop :=
  e.kind = .blob ∧ (e.mode = 0o100644 ∨ e.mode = 0o100755) ∧ e.path ≠ Bytes.ofString ".gitmodules"

def trimEnd (text : List Char) : List Char := text.rdropWhile Utf8.isSpace

-- The path that is printed last is white space, or .gitmodules with white space after it.
def SpoiledByTrimming (quoteHigh : Bool) (entries : List TreeEntry) : Prop :=
  ∃ e ∈ entries.getLast?, trimEnd (Unicode.text (quotedPath quoteHigh e.path)) = [] ∨
    trimEnd (Unicode.text (quotedPath quoteHigh e.path)) = gitmodules

section

variable {quoteHigh : Bool}

theorem ofDigitChars_octal (mode : Nat) : Nat.ofDigitChars 8 (octal mode) 0 = mode := by
  have hpad (n : Nat) (digits : List Char) :
      Nat.ofDigitChars 8 (List.replicate n '0' ++ digits) 0 = Nat.ofDigitChars 8 digits 0 := by
    induction n with
    | zero => rfl
    | succ n ih =>
        rw [List.replicate_succ, List.cons_append, Nat.ofDigitChars_cons]
        exact ih
  rw [octal, hpad]
  exact Nat.ofDigitChars_toDigits (by decide) (by decide)

theorem octal_injective : Function.Injective octal := by
  intro mode other h
  rw [← ofDigitChars_octal mode, h, ofDigitChars_octal]

theorem isDigit_of_mem_octal {mode : Nat} {c : Char} (h : c ∈ octal mode) : c.isDigit = true := by
  rcases List.mem_append.1 h with h | h
  · rw [List.eq_of_mem_replicate h]
    decide
  · exact Nat.isDigit_of_mem_toDigits (by decide) (by decide) h

-- White space up to the largest letter: the blank and the characters before it.
theorem isSpace_of_printable {c : Char} (hlow : 0x20 < c.toNat) (hhigh : c.toNat < 0x7f) : Utf8.isSpace c = false := by
  unfold Utf8.isSpace
  simp only [Bool.or_eq_false_iff, Bool.and_eq_false_iff, decide_eq_false_iff_not, beq_eq_false_iff_ne]
  omega

theorem isSpace_digit {c : Char} (h : c.isDigit = true) : Utf8.isSpace c = false := by
  have hnat : 48 ≤ c.toNat ∧ c.toNat ≤ 57 := Char.isDigit_iff_toNat.1 h
  exact isSpace_of_printable (by omega) (by omega)

theorem isSpace_lowerHex {c : Char} (h : lowerHex c = true) : Utf8.isSpace c = false := by
  simp only [lowerHex, Bool.or_eq_true, Bool.and_eq_true, decide_eq_true_eq] at h
  have hnat : (48 ≤ c.toNat ∧ c.toNat ≤ 57) ∨ (97 ≤ c.toNat ∧ c.toNat ≤ 102) := h
  exact isSpace_of_printable (by omega) (by omega)

theorem octal_isWord (mode : Nat) : Words.IsWord Utf8.isSpace (octal mode) := by
  refine ⟨?_, fun c hc => isSpace_digit (isDigit_of_mem_octal hc)⟩
  exact List.append_ne_nil_of_right_ne_nil _ Nat.toDigits_ne_nil

theorem name_isWord (kind : ObjectType) : Words.IsWord Utf8.isSpace kind.name := by
  have hletters : kind.name.all (fun c => 0x20 < c.toNat && c.toNat < 0x7f) = true := by
    cases kind with
    | blob => rfl
    | tree => rfl
    | commit => rfl
  have hname : kind.name ≠ [] := by
    cases kind with
    | blob => exact List.cons_ne_nil _ _
    | tree => exact List.cons_ne_nil _ _
    | commit => exact List.cons_ne_nil _ _
  refine ⟨hname, fun c hc => ?_⟩
  have hc := List.all_eq_true.1 hletters c hc
  simp only [Bool.and_eq_true, decide_eq_true_eq] at hc
  exact isSpace_of_printable hc.1 hc.2

theorem object_isWord (e : TreeEntry) : Words.IsWord Utf8.isSpace e.object :=
  ⟨e.objectHex.1, fun c hc => isSpace_lowerHex (List.all_eq_true.1 e.objectHex.2 c hc)⟩

theorem fields_columns (e : TreeEntry) : fields e.columns = [octal e.mode, e.kind.name, e.object] := by
  have hblank : Utf8.isSpace ' ' = true := by decide
  have hwords : fields e.columns = Words.words Utf8.isSpace e.columns := by
    refine List.filter_congr fun word _ => ?_
    cases word with
    | nil => rfl
    | cons c word => rfl
  rw [hwords, TreeEntry.columns, Words.words_word_cons (octal_isWord _) hblank,
    Words.words_word_cons (name_isWord _) hblank, Words.words_word (object_isWord e)]

-- The columns have blanks, and no other white space.
theorem isSpace_of_mem_columns {e : TreeEntry} {c : Char} (h : c ∈ e.columns) : c = ' ' ∨ Utf8.isSpace c = false := by
  simp only [TreeEntry.columns, List.mem_append, List.mem_cons] at h
  rcases h with h | h | h | h | h
  · exact .inr ((octal_isWord e.mode).2 c h)
  · exact .inl h
  · exact .inr ((name_isWord e.kind).2 c h)
  · exact .inl h
  · exact .inr ((object_isWord e).2 c h)

theorem notMem_columns (e : TreeEntry) {c : Char} (hspace : Utf8.isSpace c = true) (hc : c ≠ ' ') : c ∉ e.columns := by
  intro h
  rcases isSpace_of_mem_columns h with rfl | h
  · exact hc rfl
  · rw [hspace] at h
    cases h

def TreeEntry.regular (e : TreeEntry) : Bool := e.kind == .blob && (e.mode == 0o100644 || e.mode == 0o100755)

-- A line with a tab is judged by its mode, its type and the path after the tab.
theorem unsafeEntry_line (e : TreeEntry) (path : List Char) :
    unsafeEntry (e.columns ++ '\t' :: path) = (path == gitmodules || !e.regular) := by
  have hmode (mode : Nat) (word : List Char) (h : octal mode = word) : (octal e.mode ≠ word) ↔ e.mode ≠ mode := by
    rw [← h]
    exact octal_injective.ne_iff
  have h644 := hmode 0o100644 "100644".toList (by decide)
  have h755 := hmode 0o100755 "100755".toList (by decide)
  have hkind : e.kind.name ≠ "blob".toList ↔ e.kind ≠ .blob := by
    cases e.kind with
    | blob => decide
    | tree => decide
    | commit => decide
  have hkeep : ∀ c ∈ e.columns, decide (c ≠ '\t') = true := by
    intro c hc
    refine decide_eq_true ?_
    rintro rfl
    exact notMem_columns e (by decide) (by decide) hc
  have hne : e.columns ++ '\t' :: path ≠ [] := List.append_ne_nil_of_right_ne_nil _ (List.cons_ne_nil _ _)
  have hdrop : (e.columns ++ '\t' :: path).dropWhile (· ≠ '\t') = '\t' :: path := by
    rw [List.dropWhile_append_of_pos hkeep]
    simp
  have htake : (e.columns ++ '\t' :: path).takeWhile (· ≠ '\t') = e.columns := by
    rw [List.takeWhile_append_of_pos hkeep]
    simp
  rw [unsafeEntry, if_neg hne, hdrop, htake, fields_columns]
  have hregular : (!e.regular) = (decide (e.mode ≠ 0o100644 ∧ e.mode ≠ 0o100755) || decide (e.kind ≠ .blob)) := by
    unfold TreeEntry.regular
    rw [Bool.eq_iff_iff]
    simp only [Bool.not_eq_true', Bool.and_eq_false_iff, Bool.or_eq_false_iff, beq_eq_false_iff_ne, Bool.or_eq_true,
      decide_eq_true_eq]
    exact or_comm
  have hpath : decide (path = ".gitmodules".toList) = (path == gitmodules) := by
    rw [Bool.eq_iff_iff, decide_eq_true_eq, beq_iff_eq]
    exact Iff.rfl
  simp only [hkind, h644, h755, hpath]
  rw [hregular, Bool.or_assoc]

theorem unsafeEntry_columns (e : TreeEntry) : unsafeEntry e.columns = true := by
  have hne : e.columns ≠ [] := List.append_ne_nil_of_right_ne_nil _ (List.cons_ne_nil _ _)
  have hdrop : e.columns.dropWhile (· ≠ '\t') = [] := by
    rw [List.dropWhile_eq_nil_iff]
    intro c hc
    refine decide_eq_true ?_
    rintro rfl
    exact notMem_columns e (by decide) (by decide) hc
  rw [unsafeEntry, if_neg hne, hdrop]

-- No line break is printed inside a path.
theorem notMem_quotedPath (path : Bytes) : 10 ∉ quotedPath quoteHigh path := by
  have hescape (b : UInt8) : 10 ∉ escapeByte quoteHigh b := by
    have hall : ∀ high : Bool, ∀ n : Fin 256, 10 ∉ escapeByte high (UInt8.ofNat n) := by decide +kernel
    have hb := hall quoteHigh ⟨b.toNat, b.toNat_lt⟩
    rwa [UInt8.ofNat_toNat] at hb
  unfold quotedPath
  split
  · simp only [List.mem_cons, List.mem_append, List.mem_flatMap, List.not_mem_nil, or_false, not_or, not_exists, not_and]
    exact ⟨by decide, fun b _ => hescape b, by decide⟩
  · rename_i hplain
    intro h
    refine hplain (List.any_eq_true.2 ⟨10, h, ?_⟩)
    rfl

def TreeEntry.shownPath (quoteHigh : Bool) (e : TreeEntry) : List Char := Unicode.text (quotedPath quoteHigh e.path)

theorem notMem_shownPath (e : TreeEntry) : '\n' ∉ e.shownPath quoteHigh := by
  intro h
  exact notMem_quotedPath e.path (Unicode.mem_of_mem_text h (by decide))

theorem eq_of_text_gitmodules {path : Bytes} (h : Unicode.text path = gitmodules) : path = Bytes.ofString ".gitmodules" := by
  have hascii : path.all Unicode.asciiByte = true := by
    rw [← Unicode.text_all_isAscii, h]
    decide
  rw [Unicode.text_of_ascii hascii] at h
  have hback : (path.map Unicode.byteChar).map (fun c => UInt8.ofNat c.toNat) = path := by
    rw [List.map_map]
    refine (List.map_congr_left fun b hb => ?_).trans (List.map_id path)
    have hlt : b.toNat < 0x80 := of_decide_eq_true (List.all_eq_true.1 hascii b hb)
    show UInt8.ofNat (Char.ofNat b.toNat).toNat = b
    rw [Utf8.toNat_ofNat (.inl (by omega)), UInt8.ofNat_toNat]
  rw [← hback, h]
  decide

-- A quoted path starts with its quote, so it is the name of no file.
theorem shownPath_eq_gitmodules_iff (e : TreeEntry) :
    e.shownPath quoteHigh = gitmodules ↔ e.path = Bytes.ofString ".gitmodules" := by
  unfold TreeEntry.shownPath
  constructor
  · intro h
    unfold quotedPath at h
    split at h
    · have hquote : Utf8.decodeRune (34 :: (e.path.flatMap (escapeByte quoteHigh) ++ [34])) = some ('"', _) := rfl
      rw [Unicode.text_of_decode hquote] at h
      exact absurd (List.cons.inj h).1 (by decide)
    · exact eq_of_text_gitmodules h
  · intro h
    rw [h]
    cases quoteHigh with
    | false => decide
    | true => decide

def TreeEntry.shownLine (quoteHigh : Bool) (e : TreeEntry) : List Char := e.columns ++ '\t' :: e.shownPath quoteHigh

theorem notMem_shownLine (e : TreeEntry) : '\n' ∉ e.shownLine quoteHigh := by
  intro h
  rcases List.mem_append.1 h with h | h
  · exact notMem_columns e (by decide) (by decide) h
  · rcases List.mem_cons.1 h with h | h
    · exact absurd h (by decide)
    · exact notMem_shownPath e h

theorem text_line (e : TreeEntry) (rest : Bytes) :
    Unicode.text (e.line quoteHigh ++ rest) = e.shownLine quoteHigh ++ '\n' :: Unicode.text rest := by
  have hbreak : Utf8.decodeRune (10 :: rest) = some ('\n', rest) := rfl
  rw [TreeEntry.line, List.append_assoc, List.append_assoc, List.singleton_append, Unicode.text_encode_append,
    Unicode.text_append_start _ (by decide), Unicode.text_of_decode hbreak, TreeEntry.shownLine, TreeEntry.shownPath]
  simp

theorem text_lsTree_append (entries : List TreeEntry) (rest : Bytes) :
    Unicode.text (lsTree quoteHigh entries ++ rest) =
      entries.flatMap (fun e => e.shownLine quoteHigh ++ ['\n']) ++ Unicode.text rest := by
  induction entries with
  | nil => rfl
  | cons e entries ih =>
      rw [lsTree, List.flatMap_cons, List.append_assoc, text_line, List.flatMap_cons]
      simp only [lsTree] at ih
      rw [ih]
      simp

theorem splitOn_lines (entries : List TreeEntry) {last : List Char} (hlast : '\n' ∉ last) :
    (entries.flatMap (fun e => e.shownLine quoteHigh ++ ['\n']) ++ last).splitOn '\n' =
      entries.map (TreeEntry.shownLine quoteHigh) ++ [last] := by
  induction entries with
  | nil => exact List.splitOn_eq_singleton hlast
  | cons e entries ih =>
      rw [List.flatMap_cons, List.append_assoc, List.append_assoc, List.singleton_append,
        List.splitOn_append_cons_self_of_not_mem (notMem_shownLine e), ih]
      rfl

-- Trimming takes a part away whole before it reaches what stands before it.
theorem trimEnd_append (front rest : List Char) :
    trimEnd (front ++ rest) = if trimEnd rest = [] then trimEnd front else front ++ trimEnd rest := by
  unfold trimEnd
  simp only [List.rdropWhile, List.reverse_append, List.dropWhile_append, List.isEmpty_iff, List.reverse_eq_nil_iff]
  split
  · rfl
  · rw [List.reverse_append, List.reverse_reverse]

theorem trimEnd_columns (e : TreeEntry) : trimEnd e.columns = e.columns := by
  refine List.rdropWhile_eq_self_iff.2 fun hne => ?_
  have hobject := e.objectHex.1
  have hlast : e.columns.getLast hne = e.object.getLast hobject := by
    simp only [TreeEntry.columns]
    rw [List.getLast_append_of_ne_nil _ (List.cons_ne_nil _ _), List.getLast_cons (by simp),
      List.getLast_append_of_ne_nil _ (List.cons_ne_nil _ _), List.getLast_cons hobject]
  rw [hlast, (object_isWord e).2 _ (List.getLast_mem hobject)]
  exact Bool.false_ne_true

-- The last line without the line break: when the path goes, its tab goes too.
def TreeEntry.trimmedLine (quoteHigh : Bool) (e : TreeEntry) : List Char :=
  if trimEnd (e.shownPath quoteHigh) = [] then e.columns else e.columns ++ '\t' :: trimEnd (e.shownPath quoteHigh)

theorem trimEnd_line (e : TreeEntry) : trimEnd (e.shownLine quoteHigh ++ ['\n']) = e.trimmedLine quoteHigh := by
  have hbreak : trimEnd ['\n'] = [] := by decide
  have htab : trimEnd ['\t'] = [] := by decide
  rw [trimEnd_append, if_pos hbreak, TreeEntry.shownLine, TreeEntry.trimmedLine, ← List.singleton_append,
    ← List.append_assoc, trimEnd_append, trimEnd_append, if_pos htab, trimEnd_columns]
  split
  · rfl
  · simp

theorem trimmedLine_ne_nil (e : TreeEntry) : e.trimmedLine quoteHigh ≠ [] := by
  have hcolumns : e.columns ≠ [] := List.append_ne_nil_of_right_ne_nil _ (List.cons_ne_nil _ _)
  unfold TreeEntry.trimmedLine
  split
  · exact hcolumns
  · exact List.append_ne_nil_of_left_ne_nil hcolumns _

theorem notMem_trimmedLine (e : TreeEntry) : '\n' ∉ e.trimmedLine quoteHigh := by
  intro h
  have hcolumns := notMem_columns e (c := '\n') (by decide) (by decide)
  unfold TreeEntry.trimmedLine at h
  split at h
  · exact hcolumns h
  · rcases List.mem_append.1 h with h | h
    · exact hcolumns h
    · rcases List.mem_cons.1 h with h | h
      · exact absurd h (by decide)
      · exact notMem_shownPath e ((List.rdropWhile_prefix Utf8.isSpace _).subset h)

-- The text of a tree starts with the digits of a mode, so only its end is trimmed.
theorem trimSpace_lsTree (init : List TreeEntry) (last : TreeEntry) :
    Utf8.trimSpace (Unicode.text (lsTree quoteHigh (init ++ [last]))) =
      init.flatMap (fun e => e.shownLine quoteHigh ++ ['\n']) ++ last.trimmedLine quoteHigh := by
  have htext : Unicode.text (lsTree quoteHigh (init ++ [last])) =
      init.flatMap (fun e => e.shownLine quoteHigh ++ ['\n']) ++ (last.shownLine quoteHigh ++ ['\n']) := by
    have h : Unicode.text (lsTree quoteHigh (init ++ [last]) ++ []) = _ := text_lsTree_append (init ++ [last]) []
    rw [List.append_nil, List.flatMap_append] at h
    rw [h]
    simp [Unicode.text, Unicode.textAux]
  have hfirst (e : TreeEntry) (rest : List Char) :
      (e.shownLine quoteHigh ++ rest).dropWhile Utf8.isSpace = e.shownLine quoteHigh ++ rest := by
    obtain ⟨c, digits, hdigits⟩ := List.exists_cons_of_ne_nil (octal_isWord e.mode).1
    have hc := (octal_isWord e.mode).2 c (by rw [hdigits]; exact List.mem_cons_self)
    rw [TreeEntry.shownLine, TreeEntry.columns, hdigits]
    simp only [List.cons_append, List.dropWhile_cons, hc, Bool.false_eq_true, if_false]
  have hstart : (Unicode.text (lsTree quoteHigh (init ++ [last]))).dropWhile Utf8.isSpace =
      Unicode.text (lsTree quoteHigh (init ++ [last])) := by
    rw [htext]
    cases init with
    | nil => exact hfirst last ['\n']
    | cons e init =>
        rw [List.flatMap_cons, List.append_assoc, List.append_assoc]
        exact hfirst e _
  show trimEnd _ = _
  rw [hstart, htext, trimEnd_append, trimEnd_line, if_neg (trimmedLine_ne_nil last)]

theorem unsafeEntry_shownLine (e : TreeEntry) :
    unsafeEntry (e.shownLine quoteHigh) = false ↔ e.plain := by
  rw [TreeEntry.shownLine, unsafeEntry_line, Bool.or_eq_false_iff, beq_eq_false_iff_ne, Ne, shownPath_eq_gitmodules_iff,
    Bool.not_eq_false', TreeEntry.regular, Bool.and_eq_true, Bool.or_eq_true, beq_iff_eq, beq_iff_eq, beq_iff_eq]
  exact ⟨fun h => ⟨h.2.1, h.2.2, h.1⟩, fun h => ⟨h.2.2, h.1, h.2.1⟩⟩

-- A trimmed line is refused when nothing is left of the path, or .gitmodules; a path that is .gitmodules is not trimmed.
theorem unsafeEntry_trimmedLine (e : TreeEntry) :
    unsafeEntry (e.trimmedLine quoteHigh) = false ↔ e.plain ∧
      ¬ (trimEnd (e.shownPath quoteHigh) = [] ∨ trimEnd (e.shownPath quoteHigh) = gitmodules) := by
  unfold TreeEntry.trimmedLine
  split
  · rename_i hnone
    rw [unsafeEntry_columns]
    exact ⟨fun h => (by cases h), fun h => absurd (.inl hnone) h.2⟩
  · rename_i hsome
    have hkept : trimEnd gitmodules = gitmodules := by decide
    have hplain : unsafeEntry (e.shownLine quoteHigh) = false ↔ e.plain := unsafeEntry_shownLine e
    rw [unsafeEntry_line, Bool.or_eq_false_iff, beq_eq_false_iff_ne, ← hplain, TreeEntry.shownLine, unsafeEntry_line,
      Bool.or_eq_false_iff, beq_eq_false_iff_ne]
    constructor
    · rintro ⟨hpath, hregular⟩
      refine ⟨⟨?_, hregular⟩, ?_⟩
      · intro hsame
        rw [hsame, hkept] at hpath
        exact hpath rfl
      · rintro (h | h)
        · exact hsome h
        · exact hpath h
    · rintro ⟨⟨-, hregular⟩, hpath⟩
      exact ⟨fun h => hpath (.inr h), hregular⟩

theorem unsafeTree_eq_false_iff (entries : List TreeEntry) :
    unsafeTree (outputText (lsTree quoteHigh entries)) = false ↔
      (∀ e ∈ entries, e.plain) ∧ ¬ SpoiledByTrimming quoteHigh entries := by
  rcases List.eq_nil_or_concat entries with rfl | ⟨init, last, rfl⟩
  · refine ⟨fun _ => ⟨fun e he => absurd he List.not_mem_nil, ?_⟩, fun _ => rfl⟩
    rintro ⟨e, he, -⟩
    cases he
  · have hspoiled : SpoiledByTrimming quoteHigh (init ++ [last]) ↔
        trimEnd (last.shownPath quoteHigh) = [] ∨ trimEnd (last.shownPath quoteHigh) = gitmodules := by
      simp [SpoiledByTrimming, TreeEntry.shownPath]
    rw [List.concat_eq_append, hspoiled, unsafeTree, outputText, String.toList_ofList, trimSpace_lsTree,
      splitOn_lines init (notMem_trimmedLine last), List.any_append, Bool.or_eq_false_iff, List.any_cons, List.any_nil,
      Bool.or_false, unsafeEntry_trimmedLine, List.any_map, List.any_eq_false]
    simp only [Function.comp, Bool.not_eq_true, unsafeEntry_shownLine, List.mem_append, List.mem_singleton]
    constructor
    · rintro ⟨hinit, hplain, hkept⟩
      refine ⟨?_, hkept⟩
      rintro e (he | rfl)
      · exact hinit e he
      · exact hplain
    · rintro ⟨hplain, hkept⟩
      exact ⟨fun e he => hplain e (.inl he), hplain last (.inr rfl), hkept⟩

-- The filter accepts exactly the plain trees, unless trimming the text spoils the last path of a plain tree.
theorem unsafeTree_exact_iff (quoteHigh : Bool) (entries : List TreeEntry) :
    (unsafeTree (outputText (lsTree quoteHigh entries)) = false ↔ ∀ e ∈ entries, e.plain) ↔
      ¬ ((∀ e ∈ entries, e.plain) ∧ SpoiledByTrimming quoteHigh entries) := by
  rw [unsafeTree_eq_false_iff]
  constructor
  · rintro h ⟨hplain, hspoiled⟩
    exact (h.2 hplain).2 hspoiled
  · intro h
    exact ⟨And.left, fun hplain => ⟨hplain, fun hspoiled => h ⟨hplain, hspoiled⟩⟩⟩

-- One regular file whose name is a blank.
theorem blank_name_refused :
    let entry : TreeEntry := ⟨0o100644, .blob, List.replicate 40 'a', [32], by decide, by decide⟩
    entry.plain ∧ unsafeTree (outputText (lsTree true [entry])) = true := by
  refine ⟨⟨rfl, .inl rfl, by decide⟩, by decide⟩

end

end AutoDeploy.Checkout
