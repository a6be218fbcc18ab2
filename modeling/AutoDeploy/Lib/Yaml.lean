import AutoDeploy.Lib.Utf8

namespace AutoDeploy.Lib

-- Block mappings and sequences of strings.
inductive Yaml where
  | text (value : Bytes)
  | sequence (items : List Yaml)
  | mapping (entries : List (Bytes × Yaml))
deriving BEq, Repr

namespace Yaml

def newline : UInt8 := 0x0a

def space : UInt8 := 0x20

def quote : UInt8 := 0x22

def backslash : UInt8 := 0x5c

def colon : UInt8 := 0x3a

def hyphen : UInt8 := 0x2d

def hash : UInt8 := 0x23

-- Double-quoted scalars.

-- The escapes of one letter, and the characters they stand for.
def letters : List (UInt8 × Nat) := [
  (0x30, 0x00), (0x61, 0x07), (0x62, 0x08), (0x74, 0x09), (0x09, 0x09), (0x6e, 0x0a), (0x76, 0x0b), (0x66, 0x0c),
  (0x72, 0x0d), (0x65, 0x1b), (0x20, 0x20), (0x22, 0x22), (0x2f, 0x2f), (0x5c, 0x5c), (0x4e, 0x85), (0x5f, 0xa0),
  (0x4c, 0x2028), (0x50, 0x2029)]

-- The escapes `\x`, `\u` and `\U`, by the number of hexadecimal digits.
def widths : List (UInt8 × Nat) := [(0x78, 2), (0x75, 4), (0x55, 8)]

def readHex : Nat → Nat → Bytes → Option (Nat × Bytes)
  | 0, value, rest => some (value, rest)
  | _ + 1, _, [] => none
  | k + 1, value, b :: rest =>
      match Bytes.hexValue (Char.ofNat b.toNat) with
      | some d => readHex k (16 * value + d) rest
      | none => none

def codePoint (n : Nat) : Option Bytes := if n.isValidChar then some (String.utf8EncodeChar (Char.ofNat n)) else none

-- What follows a backslash.
def escape : Bytes → Option (Bytes × Bytes)
  | [] => none
  | b :: rest =>
      match letters.lookup b, widths.lookup b with
      | some n, _ => (codePoint n).map fun bytes => (bytes, rest)
      | none, some k => do
          let (n, rest) ← readHex k 0 rest
          let bytes ← codePoint n
          pure (bytes, rest)
      | none, none => none

-- Up to the closing quote. A line break would be folded; here it is refused, like every control character but the tab.
def inside : Nat → Bytes → Option (Bytes × Bytes)
  | 0, _ => none
  | _ + 1, [] => none
  | fuel + 1, b :: rest =>
      if b = quote then some ([], rest)
      else if b = backslash then do
        let (bytes, rest) ← escape rest
        let (value, rest) ← inside fuel rest
        pure (bytes ++ value, rest)
      else if b = 0x09 ∨ 0x20 ≤ b then do
        let (value, rest) ← inside fuel rest
        pure (b :: value, rest)
      else none

def readQuoted : Bytes → Option (Bytes × Bytes)
  | [] => none
  | b :: rest => if b = quote then inside rest.length rest else none

-- The value of a text that is one double-quoted scalar.
def doubleQuoted (s : Bytes) : Option Bytes := do
  let (value, rest) ← readQuoted s
  if rest = [] then some value else none

-- Plain scalars: words that are not read as something else than a string.

def isLetter (b : UInt8) : Bool := (decide (0x41 ≤ b) && decide (b ≤ 0x5a)) || (decide (0x61 ≤ b) && decide (b ≤ 0x7a))

def lower (b : UInt8) : UInt8 := if 0x41 ≤ b ∧ b ≤ 0x5a then b + 0x20 else b

def reserved : List Bytes := ["null", "true", "false", "yes", "no", "on", "off", "y", "n"].map Bytes.ofString

def isWord (word : Bytes) : Bool := !word.isEmpty && word.all isLetter && !reserved.contains (word.map lower)

def readWord (s : Bytes) : Option (Bytes × Bytes) :=
  if isWord (s.takeWhile isLetter) = true then some (s.takeWhile isLetter, s.dropWhile isLetter) else none

def readScalar (s : Bytes) : Option (Bytes × Bytes) := if s.head? = some quote then readQuoted s else readWord s

-- Lines.

structure Line where
  indent : Nat
  content : Bytes
deriving DecidableEq, Repr

def blank (s : Bytes) : Bool := s.all (· == space)

def Line.of (s : Bytes) : Line := ⟨(s.takeWhile (· == space)).length, s.dropWhile (· == space)⟩

-- A line that is empty or a comment.
def Line.void (l : Line) : Bool := l.content.isEmpty || l.content.head? == some hash

def layout (doc : Bytes) : List Line := ((doc.splitOn newline).map Line.of).filter fun l => !l.void

-- A key is at most 1024 characters long.
def maxKey : Nat := 1024

-- A key, and the value when it is on the same line.
def readKey (s : Bytes) : Option (Bytes × Option Bytes) := do
  let (key, rest) ← readScalar s
  if rest.head? = some colon ∧ s.length ≤ maxKey + rest.length then
    if blank rest.tail = true then some (key, none)
    else if rest.tail.head? = some space then do
      let (value, after) ← readScalar (rest.tail.dropWhile (· == space))
      if blank after = true then some (key, some value) else none
    else none
  else none

def dashed (s : Bytes) : Bool := s.take 2 == [hyphen, space]

-- Block structure.

mutual

-- The node that starts at the first line.
def node : Nat → List Line → Option (Yaml × List Line)
  | 0, _ => none
  | _ + 1, [] => none
  | fuel + 1, l :: rest =>
      if dashed l.content = true then do
        let (items, after) ← items fuel l.indent (l :: rest)
        pure (.sequence items, after)
      else if (readKey l.content).isSome = true then do
        let (entries, after) ← entries fuel l.indent (l :: rest)
        if (entries.map Prod.fst).Nodup then pure (.mapping entries, after) else none
      else do
        let (value, after) ← readScalar l.content
        if blank after = true then pure (.text value, rest) else none

-- The entries of a mapping; a value that is not on the line of its key starts on the next line and further in.
def entries : Nat → Nat → List Line → Option (List (Bytes × Yaml) × List Line)
  | 0, _, _ => none
  | _ + 1, _, [] => some ([], [])
  | fuel + 1, indent, l :: rest =>
      if l.indent < indent then some ([], l :: rest)
      else if l.indent = indent then do
        match ← readKey l.content with
        | (key, some value) =>
            let (more, after) ← entries fuel indent rest
            pure ((key, .text value) :: more, after)
        | (key, none) =>
            if rest.head?.any (fun first => decide (indent < first.indent)) = true then
              let (value, after) ← node fuel rest
              let (more, after) ← entries fuel indent after
              pure ((key, value) :: more, after)
            else none
      else none

-- The items of a sequence; what follows a dash stands two columns further in.
def items : Nat → Nat → List Line → Option (List Yaml × List Line)
  | 0, _, _ => none
  | _ + 1, _, [] => some ([], [])
  | fuel + 1, indent, l :: rest =>
      if l.indent < indent then some ([], l :: rest)
      else if l.indent = indent ∧ dashed l.content = true then do
        let (value, after) ← node fuel (⟨indent + 2, l.content.drop 2⟩ :: rest)
        let (more, after) ← items fuel indent after
        pure (value :: more, after)
      else none

end

def allowed (b : UInt8) : Bool := b == newline || (decide (0x20 ≤ b) && decide (b ≤ 0x7e))

-- A document of this fragment, in printable one-byte characters and line breaks. What is outside of the fragment
-- is refused.
def parse (doc : Bytes) : Option Yaml :=
  if doc.all allowed = true then do
    let (tree, rest) ← node (4 * (layout doc).length) (layout doc)
    if rest = [] then some tree else none
  else none

theorem inside_quote (fuel : Nat) (rest : Bytes) : inside (fuel + 1) (quote :: rest) = some ([], rest) := by
  rw [inside, if_pos rfl]

theorem inside_plain {b : UInt8} (hquote : b ≠ quote) (hbackslash : b ≠ backslash) (hb : 0x20 ≤ b) {fuel : Nat}
    {rest value after : Bytes} (h : inside fuel rest = some (value, after)) :
    inside (fuel + 1) (b :: rest) = some (b :: value, after) := by
  rw [inside, if_neg hquote, if_neg hbackslash, if_pos (.inr hb), h]
  rfl

theorem inside_escape {text bytes rest : Bytes} (hescape : escape text = some (bytes, rest)) {fuel : Nat}
    {value after : Bytes} (h : inside fuel rest = some (value, after)) :
    inside (fuel + 1) (backslash :: text) = some (bytes ++ value, after) := by
  rw [inside, if_neg (by decide), if_pos rfl, hescape]
  simp only [Option.bind_eq_bind, Option.bind_some, h]
  rfl

theorem readWord_append {word rest : Bytes} (hword : isWord word = true) (hrest : ∀ b ∈ rest.head?, isLetter b = false) :
    readWord (word ++ rest) = some (word, rest) := by
  have hletters : ∀ b ∈ word, isLetter b = true := by
    simp only [isWord, Bool.and_eq_true, List.all_eq_true] at hword
    exact hword.1.2
  have htake : rest.takeWhile isLetter = [] := by
    cases rest with
    | nil => rfl
    | cons b rest => rw [List.takeWhile_cons_of_neg (by simp [hrest b rfl])]
  have hdrop : rest.dropWhile isLetter = rest := by
    cases rest with
    | nil => rfl
    | cons b rest => rw [List.dropWhile_cons_of_neg (by simp [hrest b rfl])]
  rw [readWord, List.takeWhile_append_of_pos hletters, List.dropWhile_append_of_pos hletters, htake, hdrop,
    List.append_nil, if_pos hword]

theorem readScalar_word {word rest : Bytes} (hword : isWord word = true) (hrest : ∀ b ∈ rest.head?, isLetter b = false) :
    readScalar (word ++ rest) = some (word, rest) := by
  have hhead : (word ++ rest).head? ≠ some quote := by
    cases word with
    | nil => exact absurd hword (by decide)
    | cons b word =>
        simp only [isWord, List.all_cons, Bool.and_eq_true] at hword
        intro h
        rw [List.cons_append, List.head?_cons, Option.some.injEq] at h
        rw [h] at hword
        exact absurd hword.1.2.1 (by decide)
  rw [readScalar, if_neg hhead, readWord_append hword hrest]

-- A word and a scalar on its line.
theorem readKey_text {word q value : Bytes} (hword : isWord word = true) (hlength : word.length ≤ maxKey)
    (hhead : q.head? = some quote) (hq : readQuoted q = some (value, [])) :
    readKey (word ++ colon :: space :: q) = some (word, some value) := by
  obtain ⟨b, rest, rfl⟩ : ∃ b rest, q = b :: rest := by
    cases q with
    | nil => cases hhead
    | cons b rest => exact ⟨b, rest, rfl⟩
  obtain rfl : b = quote := Option.some.inj hhead
  have hscalar : readScalar (quote :: rest) = some (value, []) := by rw [readScalar, if_pos hhead, hq]
  have hkey : readScalar (word ++ colon :: space :: quote :: rest) = some (word, colon :: space :: quote :: rest) :=
    readScalar_word hword (by simp; decide)
  have hblank : blank (space :: quote :: rest) = false := by simp [blank, quote, space]
  have hdrop : (space :: quote :: rest).dropWhile (· == space) = quote :: rest := by
    rw [List.dropWhile_cons_of_pos (by simp), List.dropWhile_cons_of_neg (by simp [quote, space])]
  simp only [readKey, hkey, Option.bind_eq_bind, Option.bind_some]
  rw [if_pos ⟨rfl, by simp; omega⟩, List.tail_cons, if_neg (by simp [hblank]), if_pos List.head?_cons, hdrop, hscalar]
  rfl

-- A quoted key alone on its line.
theorem readKey_quoted {q value : Bytes} (hhead : q.head? = some quote) (hlength : q.length ≤ maxKey)
    (hq : readQuoted (q ++ [colon]) = some (value, [colon])) : readKey (q ++ [colon]) = some (value, none) := by
  have hscalar : readScalar (q ++ [colon]) = some (value, [colon]) := by
    rw [readScalar, if_pos, hq]
    rw [List.head?_append, hhead]
    rfl
  simp only [readKey, hscalar, Option.bind_eq_bind, Option.bind_some]
  rw [if_pos ⟨rfl, by simp; omega⟩, List.tail_cons, if_pos (by decide)]

theorem Line.of_indented (n : Nat) {content : Bytes} (h : content.head? ≠ some space) :
    Line.of (List.replicate n space ++ content) = ⟨n, content⟩ := by
  have hspaces : ∀ b ∈ List.replicate n space, (b == space) = true := fun b hb => by
    rw [List.eq_of_mem_replicate hb]
    rfl
  have htake : content.takeWhile (· == space) = [] := by
    cases content with
    | nil => rfl
    | cons b rest => exact List.takeWhile_cons_of_neg (by simpa using h)
  have hdrop : content.dropWhile (· == space) = content := by
    cases content with
    | nil => rfl
    | cons b rest => exact List.dropWhile_cons_of_neg (by simpa using h)
  rw [Line.of, List.takeWhile_append_of_pos hspaces, List.dropWhile_append_of_pos hspaces, htake, hdrop, List.append_nil,
    List.length_replicate]

-- The first line of a document.
theorem layout_cons {l : Bytes} (hl : newline ∉ l) (rest : Bytes) :
    layout (l ++ newline :: rest) = if (Line.of l).void = true then layout rest else Line.of l :: layout rest := by
  rw [layout, List.splitOn_append_cons_self_of_not_mem hl, List.map_cons, List.filter_cons]
  cases (Line.of l).void with
  | true => rfl
  | false => rfl

-- A line as it is written.
def Line.write (l : Line) : Bytes := List.replicate l.indent space ++ l.content ++ [newline]

structure Line.Proper (l : Line) : Prop where
  head : l.content.head? ≠ some space
  void : l.void = false
  whole : newline ∉ l.content

theorem layout_write {ls : List Line} (h : ∀ l ∈ ls, l.Proper) : layout (ls.flatMap Line.write) = ls := by
  induction ls with
  | nil => rfl
  | cons l ls ih =>
      have hl := h l List.mem_cons_self
      have hwhole : newline ∉ List.replicate l.indent space ++ l.content := by
        rw [List.mem_append, not_or]
        exact ⟨fun hmem => absurd (List.eq_of_mem_replicate hmem) (by decide), hl.whole⟩
      rw [List.flatMap_cons, Line.write, List.append_assoc _ [newline], List.singleton_append, layout_cons hwhole,
        Line.of_indented _ hl.head, if_neg (by rw [hl.void]; decide), ih fun k hk => h k (List.mem_cons_of_mem _ hk)]

theorem layout_comment {text : Bytes} (h : newline ∉ text) (rest : Bytes) :
    layout (hash :: (text ++ newline :: rest)) = layout rest := by
  have hwhole : newline ∉ hash :: text := by
    rw [List.mem_cons, not_or]
    exact ⟨by decide, h⟩
  have hhash : (hash :: text).head? ≠ some space := by
    rw [List.head?_cons]
    decide
  have hline : Line.of (hash :: text) = ⟨0, hash :: text⟩ := Line.of_indented 0 hhash
  rw [← List.cons_append, layout_cons hwhole, hline]
  rfl

-- A character of one byte as an escape stands for it.
theorem codePoint_ascii {n : Nat} (h : n < 0x80) : codePoint n = some [UInt8.ofNat n] := by
  have hvalid : n.isValidChar := .inl (by omega)
  rw [codePoint, if_pos hvalid, Utf8.encodeChar_ascii (by rw [Utf8.toNat_ofNat hvalid]; exact h),
    Utf8.toNat_ofNat hvalid]

theorem escape_letter {b : UInt8} {n : Nat} (hletter : letters.lookup b = some n) (h : n < 0x80) (rest : Bytes) :
    escape (b :: rest) = some ([UInt8.ofNat n], rest) := by
  simp only [escape, hletter, codePoint_ascii h]
  rfl

theorem escape_hex {x y : UInt8} {high low : Nat} (hx : Bytes.hexValue (Char.ofNat x.toNat) = some high)
    (hy : Bytes.hexValue (Char.ofNat y.toNat) = some low) (h : 16 * high + low < 0x80) (rest : Bytes) :
    escape (0x78 :: x :: y :: rest) = some ([UInt8.ofNat (16 * high + low)], rest) := by
  have hhex : readHex 2 0 (x :: y :: rest) = some (16 * high + low, rest) := by
    simp only [readHex, hx, hy, Nat.mul_zero, Nat.zero_add]
  have hletter : letters.lookup 0x78 = none := by decide
  have hwidth : widths.lookup 0x78 = some 2 := by decide
  simp only [escape, hletter, hwidth, hhex, Option.bind_eq_bind, Option.bind_some, codePoint_ascii h]
  rfl

-- A quoted scalar alone is no key.
theorem readKey_scalar {q value : Bytes} (hhead : q.head? = some quote) (hq : readQuoted q = some (value, [])) :
    readKey q = none := by
  have hscalar : readScalar q = some (value, []) := by rw [readScalar, if_pos hhead, hq]
  simp [readKey, hscalar]

theorem dashed_of_head {b : UInt8} (hb : b ≠ hyphen) (s : Bytes) : dashed (b :: s) = false := by
  rw [dashed, List.take_succ_cons, beq_eq_false_iff_ne]
  exact fun h => hb (List.cons.inj h).1

-- A word alone on its line.
theorem readKey_word {word : Bytes} (hword : isWord word = true) (hlength : word.length ≤ maxKey) :
    readKey (word ++ [colon]) = some (word, none) := by
  have hkey : readScalar (word ++ [colon]) = some (word, [colon]) := readScalar_word hword (by simp; decide)
  simp only [readKey, hkey, Option.bind_eq_bind, Option.bind_some]
  rw [if_pos ⟨rfl, by simp; omega⟩, List.tail_cons, if_pos (by decide)]

-- How blocks are read, one line after the other.
section

variable {fuel indent : Nat} {l : Line} {rest middle after : List Line}

theorem entries_end (h : ∀ k ∈ rest.head?, k.indent < indent) : entries (fuel + 1) indent rest = some ([], rest) := by
  cases rest with
  | nil => rfl
  | cons l rest => rw [entries, if_pos (h l rfl)]

theorem items_end (h : ∀ k ∈ rest.head?, k.indent < indent) : items (fuel + 1) indent rest = some ([], rest) := by
  cases rest with
  | nil => rfl
  | cons l rest => rw [items, if_pos (h l rfl)]

theorem entries_text {key value : Bytes} {more : List (Bytes × Yaml)} (hkey : readKey l.content = some (key, some value))
    (hmore : entries fuel l.indent rest = some (more, after)) :
    entries (fuel + 1) l.indent (l :: rest) = some ((key, .text value) :: more, after) := by
  rw [entries, if_neg (Nat.lt_irrefl _), if_pos rfl, hkey]
  simp only [Option.bind_eq_bind, Option.bind_some, hmore]
  rfl

theorem entries_nested {key : Bytes} {value : Yaml} {more : List (Bytes × Yaml)}
    (hkey : readKey l.content = some (key, none)) (hdeeper : ∃ first ∈ rest.head?, l.indent < first.indent)
    (hvalue : node fuel rest = some (value, middle)) (hmore : entries fuel l.indent middle = some (more, after)) :
    entries (fuel + 1) l.indent (l :: rest) = some ((key, value) :: more, after) := by
  obtain ⟨first, hfirst, hdeeper⟩ := hdeeper
  rw [Option.mem_def] at hfirst
  rw [entries, if_neg (Nat.lt_irrefl _), if_pos rfl, hkey]
  simp only [Option.bind_eq_bind, Option.bind_some, hfirst, Option.any_some, hdeeper, decide_true, if_true, hvalue, hmore]
  rfl

theorem node_mapping {key : Bytes} {value : Option Bytes} {es : List (Bytes × Yaml)} (hdash : dashed l.content = false)
    (hkey : readKey l.content = some (key, value)) (h : entries fuel l.indent (l :: rest) = some (es, after))
    (hunique : (es.map Prod.fst).Nodup) : node (fuel + 1) (l :: rest) = some (.mapping es, after) := by
  rw [node, if_neg (by rw [hdash]; decide), if_pos (by rw [hkey]; rfl), h]
  simp only [Option.bind_eq_bind, Option.bind_some, hunique, if_true]
  rfl

-- A mapping of one entry that is nested.
theorem node_singleton {key : Bytes} {value : Yaml} (hdash : dashed l.content = false)
    (hkey : readKey l.content = some (key, none)) (hdeeper : ∃ first ∈ rest.head?, l.indent < first.indent)
    (hvalue : node (fuel + 1) rest = some (value, middle)) (hend : ∀ k ∈ middle.head?, k.indent < l.indent) :
    node (fuel + 3) (l :: rest) = some (.mapping [(key, value)], middle) :=
  node_mapping hdash hkey (entries_nested hkey hdeeper hvalue (entries_end hend)) (by simp)

-- A sequence of one item.
theorem node_item {value : Yaml} (hdash : dashed l.content = true)
    (hvalue : node (fuel + 1) (⟨l.indent + 2, l.content.drop 2⟩ :: rest) = some (value, middle))
    (hend : ∀ k ∈ middle.head?, k.indent < l.indent) :
    node (fuel + 3) (l :: rest) = some (.sequence [value], middle) := by
  have hitems : items (fuel + 2) l.indent (l :: rest) = some ([value], middle) := by
    rw [items, if_neg (Nat.lt_irrefl _), if_pos ⟨rfl, hdash⟩, hvalue]
    simp only [Option.bind_eq_bind, Option.bind_some, items_end hend]
    rfl
  rw [node, if_pos hdash, hitems]
  rfl

theorem node_text {value : Bytes} (hdash : dashed l.content = false) (hkey : readKey l.content = none)
    (h : readScalar l.content = some (value, [])) : node (fuel + 1) (l :: rest) = some (.text value, rest) := by
  rw [node, if_neg (by rw [hdash]; decide), if_neg (by rw [hkey]; decide), h]
  rfl

end

-- Text of printable one-byte characters.
def Printable (s : Bytes) : Prop := ∀ b ∈ s, 0x20 ≤ b ∧ b ≤ 0x7e

theorem Printable.of_all {s : Bytes} (h : s.all (fun b => decide (0x20 ≤ b ∧ b ≤ 0x7e)) = true) : Printable s :=
  fun b hb => of_decide_eq_true (List.all_eq_true.1 h b hb)

theorem Printable.append {s t : Bytes} (hs : Printable s) (ht : Printable t) : Printable (s ++ t) := by
  intro b hb
  rcases List.mem_append.1 hb with hb | hb
  · exact hs b hb
  · exact ht b hb

theorem Printable.cons {b : UInt8} {s : Bytes} (hb : 0x20 ≤ b ∧ b ≤ 0x7e) (hs : Printable s) : Printable (b :: s) :=
  List.forall_mem_cons.2 ⟨hb, hs⟩

theorem Printable.whole {s : Bytes} (h : Printable s) : newline ∉ s := fun hmem => absurd (h newline hmem).1 (by decide)

theorem Line.Proper.of_printable {l : Line} (h : Printable l.content)
    (hhead : ∃ b rest, l.content = b :: rest ∧ b ≠ space ∧ b ≠ hash) : l.Proper := by
  obtain ⟨b, rest, hcontent, hspace, hhash⟩ := hhead
  refine ⟨?_, ?_, h.whole⟩
  · rw [hcontent]
    exact fun hb => hspace (Option.some.inj hb)
  · simp [Line.void, hcontent, hhash]

theorem Printable.allowed {s : Bytes} (h : Printable s) : s.all allowed = true := by
  rw [List.all_eq_true]
  intro b hb
  obtain ⟨hlow, hhigh⟩ := h b hb
  simp [Yaml.allowed, hlow, hhigh]

-- Written lines of printable contents have no other characters.
theorem allowed_write {ls : List Line} (h : ∀ l ∈ ls, Printable l.content) : (ls.flatMap Line.write).all allowed = true := by
  rw [List.all_flatMap, List.all_eq_true]
  intro l hl
  have hspaces : Printable (List.replicate l.indent space) := fun b hb => by
    rw [List.eq_of_mem_replicate hb]
    decide
  simp only [Line.write, List.all_append, Bool.and_eq_true]
  exact ⟨⟨hspaces.allowed, (h l hl).allowed⟩, by decide⟩

end Yaml

end AutoDeploy.Lib
