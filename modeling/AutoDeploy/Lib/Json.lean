import AutoDeploy.Lib.Runes

namespace AutoDeploy.Lib

-- JSON texts as one encoder writes them, with its escapes for HTML, and as a decoder reads them. Numbers and booleans
-- are left out: a reader that has no use for them refuses them here.
inductive Json where
  | null
  | str (text : Bytes)
  | arr (items : List Json)
  | obj (fields : List (Bytes × Json))

namespace Json

open Utf8

def quotationMark : UInt8 := 0x22

def reverseSolidus : UInt8 := 0x5c

def comma : UInt8 := 0x2c

def colon : UInt8 := 0x3a

def hexByte (n : Nat) : UInt8 := if n < 10 then UInt8.ofNat (48 + n) else UInt8.ofNat (87 + n)

-- The letter of a short escape.
def shortEscape (b : UInt8) : Option UInt8 :=
  if b = quotationMark ∨ b = reverseSolidus then some b
  else if b = 0x08 then some 0x62
  else if b = 0x0c then some 0x66
  else if b = 0x0a then some 0x6e
  else if b = 0x0d then some 0x72
  else if b = 0x09 then some 0x74
  else none

-- Control characters, and `<`, `>` and `&`.
def longEscape (b : UInt8) : Bool := decide (b < 0x20) || b == 0x3c || b == 0x3e || b == 0x26

def escapeByte (b : UInt8) : Bytes :=
  match shortEscape b with
  | some letter => [reverseSolidus, letter]
  | none =>
      if longEscape b then [reverseSolidus, 0x75, 0x30, 0x30, hexByte (b.toNat / 16), hexByte (b.toNat % 16)]
      else [b]

-- U+2028 and U+2029, which end a line in JavaScript.
def lineSeparator : Bytes := [0xe2, 0x80, 0xa8]

def paragraphSeparator : Bytes := [0xe2, 0x80, 0xa9]

def escapeRune : Rune → Bytes
  | .invalid _ => [reverseSolidus, 0x75, 0x66, 0x66, 0x66, 0x64]
  | .encoded [b] => escapeByte b
  | .encoded p =>
      if p = lineSeparator then [reverseSolidus, 0x75, 0x32, 0x30, 0x32, 0x38]
      else if p = paragraphSeparator then [reverseSolidus, 0x75, 0x32, 0x30, 0x32, 0x39]
      else p

def escape (s : Bytes) : Bytes := (runes s).flatMap escapeRune

def quote (s : Bytes) : Bytes := quotationMark :: (escape s ++ [quotationMark])

mutual

def render : Json → Bytes
  | .null => Bytes.ofString "null"
  | .str text => quote text
  | .arr items => 0x5b :: renderItems items
  | .obj fields => 0x7b :: renderFields fields

def renderItems : List Json → Bytes
  | [] => [0x5d]
  | [item] => render item ++ [0x5d]
  | item :: items => render item ++ comma :: renderItems items

def renderFields : List (Bytes × Json) → Bytes
  | [] => [0x7d]
  | [(name, value)] => quote name ++ colon :: (render value ++ [0x7d])
  | (name, value) :: fields => quote name ++ colon :: (render value ++ comma :: renderFields fields)

end

def hexValue (b : UInt8) : Option Nat :=
  if 0x30 ≤ b ∧ b ≤ 0x39 then some (b.toNat - 48)
  else if 0x61 ≤ b ∧ b ≤ 0x66 then some (b.toNat - 87)
  else if 0x41 ≤ b ∧ b ≤ 0x46 then some (b.toNat - 55)
  else none

def readHex4 : Bytes → Option (Nat × Bytes)
  | a :: b :: c :: d :: rest => do
      let a ← hexValue a
      let b ← hexValue b
      let c ← hexValue c
      let d ← hexValue d
      some (((a * 16 + b) * 16 + c) * 16 + d, rest)
  | _ => none

def encodeRune (n : Nat) : Bytes := String.utf8EncodeChar (if n.isValidChar then Char.ofNat n else Char.ofNat 0xfffd)

-- After a backslash and `u`: four digits, and four more when these two are the halves of a surrogate pair. A half on
-- its own stands for U+FFFD.
def readUnicode (s : Bytes) : Option (Bytes × Bytes) := do
  let (n, rest) ← readHex4 s
  if 0xd800 ≤ n ∧ n < 0xe000 then
    match rest with
    | b :: u :: more =>
        match (if b = reverseSolidus ∧ u = 0x75 then readHex4 more else none) with
        | some (m, after) =>
            if n < 0xdc00 ∧ 0xdc00 ≤ m ∧ m < 0xe000 then
              some (encodeRune (0x10000 + (n - 0xd800) * 0x400 + (m - 0xdc00)), after)
            else some (replacement, rest)
        | none => some (replacement, rest)
    | _ => some (replacement, rest)
  else some (encodeRune n, rest)

-- The character of a short escape.
def shortValue (letter : UInt8) : Option UInt8 :=
  if letter = quotationMark ∨ letter = reverseSolidus ∨ letter = 0x2f then some letter
  else if letter = 0x62 then some 0x08
  else if letter = 0x66 then some 0x0c
  else if letter = 0x6e then some 0x0a
  else if letter = 0x72 then some 0x0d
  else if letter = 0x74 then some 0x09
  else none

def readEscape : Bytes → Option (Bytes × Bytes)
  | [] => none
  | letter :: rest =>
      if letter = 0x75 then readUnicode rest
      else (shortValue letter).map fun b => ([b], rest)

-- A string after its opening mark: its text, and what follows the closing mark. The fuel bounds the characters by the
-- bytes.
def readString : Nat → Bytes → Option (Bytes × Bytes)
  | 0, _ => none
  | _ + 1, [] => none
  | fuel + 1, b :: rest =>
      if b = quotationMark then some ([], rest)
      else if b = reverseSolidus then do
        let (text, rest) ← readEscape rest
        let (more, rest) ← readString fuel rest
        some (text ++ more, rest)
      else if b < 0x20 then none
      else do
        let (more, after) ← readString fuel (firstRune b rest).2
        some ((firstRune b rest).1.cleaned ++ more, after)

def isSpace (b : UInt8) : Bool := b == 0x20 || b == 0x09 || b == 0x0d || b == 0x0a

def skipSpace (s : Bytes) : Bytes := s.dropWhile isSpace

-- The byte after white space, when it is the one expected.
def expect (b : UInt8) (s : Bytes) : Option Bytes :=
  match skipSpace s with
  | [] => none
  | b' :: rest => if b' = b then some rest else none

mutual

-- The first value of a text, and what follows it.
def parse : Nat → Bytes → Option (Json × Bytes)
  | 0, _ => none
  | fuel + 1, s =>
      match skipSpace s with
      | [] => none
      | b :: rest =>
          if b = quotationMark then (readString rest.length rest).map fun read => (.str read.1, read.2)
          else if b = 0x5b then
            match expect 0x5d rest with
            | some after => some (.arr [], after)
            | none => (parseItems fuel rest).map fun read => (.arr read.1, read.2)
          else if b = 0x7b then
            match expect 0x7d rest with
            | some after => some (.obj [], after)
            | none => (parseFields fuel rest).map fun read => (.obj read.1, read.2)
          else if (Bytes.ofString "null").isPrefixOf (b :: rest) then some (.null, rest.drop 3)
          else none

def parseItems : Nat → Bytes → Option (List Json × Bytes)
  | 0, _ => none
  | fuel + 1, s => do
      let (item, rest) ← parse fuel s
      match expect comma rest with
      | some rest => do
          let (items, rest) ← parseItems fuel rest
          some (item :: items, rest)
      | none => do
          let rest ← expect 0x5d rest
          some ([item], rest)

def parseFields : Nat → Bytes → Option (List (Bytes × Json) × Bytes)
  | 0, _ => none
  | fuel + 1, s => do
      let rest ← expect quotationMark s
      let (name, rest) ← readString rest.length rest
      let rest ← expect colon rest
      let (value, rest) ← parse fuel rest
      match expect comma rest with
      | some rest => do
          let (fields, rest) ← parseFields fuel rest
          some ((name, value) :: fields, rest)
      | none => do
          let rest ← expect 0x7d rest
          some ([(name, value)], rest)

end

mutual

-- What a reader gets of a value: U+FFFD for each invalid byte.
def cleaned : Json → Json
  | .null => .null
  | .str text => .str (sanitize text)
  | .arr items => .arr (cleanedItems items)
  | .obj fields => .obj (cleanedFields fields)

def cleanedItems : List Json → List Json
  | [] => []
  | item :: items => cleaned item :: cleanedItems items

def cleanedFields : List (Bytes × Json) → List (Bytes × Json)
  | [] => []
  | (name, value) :: fields => (sanitize name, cleaned value) :: cleanedFields fields

end

theorem hexValue_hexByte {n : Nat} (h : n < 16) : hexValue (hexByte n) = some n := by
  interval_cases n <;> decide

-- Facts about single bytes, checked one by one.
theorem forall_byte {p : UInt8 → Prop} (h : ∀ n : Fin 256, p (UInt8.ofNat n)) : ∀ b, p b := by
  intro b
  have hb := h ⟨b.toNat, b.toNat_lt⟩
  rwa [UInt8.ofNat_toNat] at hb

theorem encodeRune_ascii : ∀ b : UInt8, b < 0x80 → encodeRune b.toNat = [b] := by
  apply forall_byte
  decide +kernel

theorem shortValue_of_shortEscape {b letter : UInt8} (h : shortEscape b = some letter) :
    letter ≠ 0x75 ∧ shortValue letter = some b := by
  have hall : ∀ b, (shortEscape b).all (fun letter => letter != 0x75 && shortValue letter == some b) = true := by
    apply forall_byte
    decide +kernel
  have hb := hall b
  rw [h] at hb
  simpa using hb

theorem plain_of_escapes : ∀ b, shortEscape b = none → longEscape b = false →
    b ≠ quotationMark ∧ b ≠ reverseSolidus ∧ ¬ b < 0x20 := by
  apply forall_byte
  decide +kernel

theorem readUnicode_of_hex {s rest : Bytes} {n : Nat} (h : readHex4 s = some (n, rest))
    (hplain : ¬ (0xd800 ≤ n ∧ n < 0xe000)) : readUnicode s = some (encodeRune n, rest) := by
  rw [readUnicode, h]
  simp only [Option.bind_eq_bind, Option.bind_some]
  rw [if_neg hplain]

theorem readUnicode_byte (b : UInt8) (hascii : b < 0x80) (s : Bytes) :
    readUnicode (0x30 :: 0x30 :: hexByte (b.toNat / 16) :: hexByte (b.toNat % 16) :: s) = some ([b], s) := by
  have hb := b.toNat_lt
  have hzero : hexValue 0x30 = some 0 := by decide
  have hvalue : ((0 * 16 + 0) * 16 + b.toNat / 16) * 16 + b.toNat % 16 = b.toNat := by omega
  have hread : readHex4 (0x30 :: 0x30 :: hexByte (b.toNat / 16) :: hexByte (b.toNat % 16) :: s) = some (b.toNat, s) := by
    simp only [readHex4, hzero, hexValue_hexByte (n := b.toNat / 16) (by omega),
      hexValue_hexByte (n := b.toNat % 16) (by omega), Option.bind_eq_bind, Option.bind_some, hvalue]
  rw [readUnicode_of_hex hread (by omega), encodeRune_ascii b hascii]

-- A reader takes one step for each character.
theorem readString_plain {b : UInt8} (hquote : b ≠ quotationMark) (hsolidus : b ≠ reverseSolidus) (hcontrol : ¬ b < 0x20)
    {q : Bytes} (hencoded : Encoded (b :: q)) (fuel : Nat) (s : Bytes) :
    readString (fuel + 1) (b :: q ++ s) = (readString fuel s).map fun read => (b :: q ++ read.1, read.2) := by
  rw [List.cons_append, readString, if_neg hquote, if_neg hsolidus, if_neg hcontrol, firstRune_of_encoded hencoded]
  cases readString fuel s with
  | none => rfl
  | some read => rfl

theorem readString_escaped {letter : UInt8} {tail text s : Bytes} (h : readEscape (letter :: tail ++ s) = some (text, s))
    (fuel : Nat) : readString (fuel + 1) (reverseSolidus :: letter :: tail ++ s) =
      (readString fuel s).map fun read => (text ++ read.1, read.2) := by
  have hne : reverseSolidus ≠ quotationMark := by decide
  rw [List.cons_append, readString, if_neg hne, if_pos rfl, h]
  simp only [Option.bind_eq_bind, Option.bind_some]
  cases readString fuel s with
  | none => rfl
  | some read => rfl

theorem readString_byte {b : UInt8} (hencoded : Encoded [b]) (fuel : Nat) (s : Bytes) :
    readString (fuel + 1) (escapeByte b ++ s) = (readString fuel s).map fun read => ([b] ++ read.1, read.2) := by
  cases hshort : shortEscape b with
  | some letter =>
      obtain ⟨hletter, hvalue⟩ := shortValue_of_shortEscape hshort
      have hread : readEscape (letter :: [] ++ s) = some ([b], s) := by
        rw [List.cons_append, readEscape, if_neg hletter, hvalue]
        rfl
      simp only [escapeByte, hshort]
      exact readString_escaped hread fuel
  | none =>
      cases hlong : longEscape b with
      | true =>
          have hread : readEscape (0x75 :: [0x30, 0x30, hexByte (b.toNat / 16), hexByte (b.toNat % 16)] ++ s) =
              some ([b], s) := by
            rw [List.cons_append, readEscape, if_pos rfl]
            exact readUnicode_byte b hencoded.ascii s
          simp only [escapeByte, hshort, hlong, if_true]
          exact readString_escaped hread fuel
      | false =>
          obtain ⟨hquote, hsolidus, hcontrol⟩ := plain_of_escapes b hshort hlong
          simp only [escapeByte, hshort, hlong, Bool.false_eq_true, if_false]
          exact readString_plain hquote hsolidus hcontrol hencoded fuel s

theorem readString_unicode {tail text : Bytes} {n : Nat} (hhex : ∀ s, readHex4 (tail ++ s) = some (n, s))
    (hplain : ¬ (0xd800 ≤ n ∧ n < 0xe000)) (htext : encodeRune n = text) (fuel : Nat) (s : Bytes) :
    readString (fuel + 1) (reverseSolidus :: 0x75 :: tail ++ s) =
      (readString fuel s).map fun read => (text ++ read.1, read.2) := by
  have hread : readEscape (0x75 :: tail ++ s) = some (text, s) := by
    rw [List.cons_append, readEscape, if_pos rfl, readUnicode_of_hex (hhex s) hplain, htext]
  exact readString_escaped hread fuel

theorem readString_rune {r : Rune} (hr : r.WellFormed) (fuel : Nat) (s : Bytes) :
    readString (fuel + 1) (escapeRune r ++ s) = (readString fuel s).map fun read => (r.cleaned ++ read.1, read.2) := by
  match r, hr with
  | .invalid b, _ =>
      rw [Rune.cleaned]
      exact readString_unicode (n := 0xfffd) (fun _ => rfl) (by decide) (by decide) fuel s
  | .encoded [b], hr => exact readString_byte hr.2 fuel s
  | .encoded (b :: b' :: q), hr =>
      have hhigh : ¬ b < 0x80 := fun hascii => by cases hr.2.tail_eq_nil hascii
      simp only [escapeRune]
      split
      · rename_i hline
        rw [Rune.cleaned, hline]
        exact readString_unicode (n := 0x2028) (fun _ => rfl) (by decide) (by decide) fuel s
      · split
        · rename_i hparagraph
          rw [Rune.cleaned, hparagraph]
          exact readString_unicode (n := 0x2029) (fun _ => rfl) (by decide) (by decide) fuel s
        · refine readString_plain ?_ ?_ ?_ hr.2 fuel s
          · rintro rfl
            exact hhigh (by decide)
          · rintro rfl
            exact hhigh (by decide)
          · intro hcontrol
            exact hhigh (UInt8.lt_trans hcontrol (by decide))

theorem readString_runes {rs : List Rune} (hrs : ∀ r ∈ rs, r.WellFormed) {fuel : Nat} (hfuel : rs.length < fuel)
    (s : Bytes) : readString fuel (rs.flatMap escapeRune ++ quotationMark :: s) = some (rs.flatMap Rune.cleaned, s) := by
  induction rs generalizing fuel with
  | nil =>
      obtain ⟨fuel, rfl⟩ : ∃ n, fuel = n + 1 := ⟨fuel - 1, by simp at hfuel; omega⟩
      rw [List.flatMap_nil, List.nil_append, readString, if_pos rfl]
      rfl
  | cons r rs ih =>
      rw [List.length_cons] at hfuel
      obtain ⟨fuel, rfl⟩ : ∃ n, fuel = n + 1 := ⟨fuel - 1, by omega⟩
      rw [List.flatMap_cons, List.append_assoc, readString_rune (hrs r List.mem_cons_self),
        ih (fun r hr => hrs r (List.mem_cons_of_mem _ hr)) (by omega)]
      rfl

theorem escapeByte_ne_nil (b : UInt8) : escapeByte b ≠ [] := by
  unfold escapeByte
  split
  · simp
  · split
    · simp
    · simp

theorem escapeRune_ne_nil {r : Rune} (hr : r.WellFormed) : escapeRune r ≠ [] := by
  match r, hr with
  | .invalid b, _ => simp [escapeRune]
  | .encoded [b], _ => exact escapeByte_ne_nil b
  | .encoded (b :: b' :: q), hr =>
      simp only [escapeRune]
      split
      · simp
      · split
        · simp
        · simp

theorem length_le_escaped {rs : List Rune} (hrs : ∀ r ∈ rs, r.WellFormed) :
    rs.length ≤ (rs.flatMap escapeRune).length := by
  induction rs with
  | nil => simp
  | cons r rs ih =>
      have hrest := ih fun r hr => hrs r (List.mem_cons_of_mem _ hr)
      have hpos := List.length_pos_of_ne_nil (escapeRune_ne_nil (hrs r List.mem_cons_self))
      rw [List.flatMap_cons, List.length_append, List.length_cons]
      omega

-- What is read back of a string, whatever its bytes were.
theorem readString_escape {text s rest : Bytes} (h : rest = escape text ++ quotationMark :: s) :
    readString rest.length rest = some (sanitize text, s) := by
  subst h
  refine readString_runes (fun r hr => runes_wellFormed hr) ?_ s
  have hlength : (runes text).length ≤ ((runes text).flatMap escapeRune).length :=
    length_le_escaped fun r hr => runes_wellFormed hr
  rw [escape, List.length_append, List.length_cons]
  omega

-- How long an escaped text is.
def escapedLength : Rune → Nat
  | .invalid _ => 6
  | .encoded [b] => if (shortEscape b).isSome then 2 else if longEscape b then 6 else 1
  | .encoded p => if p = lineSeparator ∨ p = paragraphSeparator then 6 else p.length

def escapedSize (s : Bytes) : Nat := ((runes s).map escapedLength).sum

theorem length_escapeRune (r : Rune) : (escapeRune r).length = escapedLength r := by
  match r with
  | .invalid b => rfl
  | .encoded [] => simp [escapeRune, escapedLength, lineSeparator, paragraphSeparator]
  | .encoded [b] =>
      simp only [escapeRune, escapedLength, escapeByte]
      cases shortEscape b with
      | some letter => rfl
      | none =>
          cases longEscape b with
          | true => rfl
          | false => rfl
  | .encoded (b :: b' :: q) =>
      simp only [escapeRune, escapedLength]
      by_cases hline : b :: b' :: q = lineSeparator
      · rw [if_pos hline, if_pos (.inl hline)]
        rfl
      by_cases hparagraph : b :: b' :: q = paragraphSeparator
      · rw [if_neg hline, if_pos hparagraph, if_pos (.inr hparagraph)]
        rfl
      · rw [if_neg hline, if_neg hparagraph, if_neg (not_or.2 ⟨hline, hparagraph⟩)]

theorem length_quote (s : Bytes) : (quote s).length = escapedSize s + 2 := by
  rw [quote, List.length_cons, List.length_append, escape, List.length_flatMap, escapedSize]
  simp only [length_escapeRune, List.length_cons, List.length_nil]

theorem expect_cons {b b' : UInt8} (hspace : isSpace b' = false) (s : Bytes) :
    expect b (b' :: s) = if b' = b then some s else none := by
  simp only [expect, skipSpace, List.dropWhile_cons, hspace, Bool.false_eq_true, if_false]

-- No value starts with white space or with a closing bracket.
theorem render_head (j : Json) : ∃ b s, render j = b :: s ∧ isSpace b = false ∧ b ≠ 0x5d := by
  cases j with
  | null => exact ⟨0x6e, [0x75, 0x6c, 0x6c], by decide, by decide, by decide⟩
  | str text => exact ⟨quotationMark, _, rfl, by decide, by decide⟩
  | arr items => exact ⟨0x5b, _, rfl, by decide, by decide⟩
  | obj fields => exact ⟨0x7b, _, rfl, by decide, by decide⟩

theorem renderItems_cons (item : Json) (items : List Json) :
    ∃ tail, renderItems (item :: items) = render item ++ tail ∧
      ((items = [] ∧ tail = [0x5d]) ∨ (items ≠ [] ∧ tail = comma :: renderItems items)) := by
  cases items with
  | nil => exact ⟨_, rfl, .inl ⟨rfl, rfl⟩⟩
  | cons next items => exact ⟨_, rfl, .inr ⟨by simp, rfl⟩⟩

theorem renderFields_cons (name : Bytes) (value : Json) (fields : List (Bytes × Json)) :
    ∃ tail, renderFields ((name, value) :: fields) = quote name ++ colon :: (render value ++ tail) ∧
      ((fields = [] ∧ tail = [0x7d]) ∨ (fields ≠ [] ∧ tail = comma :: renderFields fields)) := by
  cases fields with
  | nil => exact ⟨_, rfl, .inl ⟨rfl, rfl⟩⟩
  | cons next fields => exact ⟨_, rfl, .inr ⟨by simp, rfl⟩⟩

mutual

-- Every text the encoder writes is read back, whatever follows it, up to the bytes the encoder replaced.
theorem parse_render (j : Json) {fuel : Nat} (hfuel : (render j).length ≤ fuel) (s : Bytes) :
    parse fuel (render j ++ s) = some (cleaned j, s) := by
  obtain ⟨b, tail, hhead, hspace, -⟩ := render_head j
  obtain ⟨fuel, rfl⟩ : ∃ n, fuel = n + 1 := ⟨fuel - 1, by simp [hhead] at hfuel; omega⟩
  have hskip : skipSpace (render j ++ s) = render j ++ s := by
    simp only [hhead, List.cons_append, skipSpace, List.dropWhile_cons, hspace, Bool.false_eq_true, if_false]
  rw [parse, hskip]
  match j with
  | .null => rfl
  | .str text =>
      simp only [render, quote, List.cons_append, List.append_assoc, List.nil_append, if_true]
      rw [readString_escape rfl]
      rfl
  | .arr [] =>
      simp only [render, renderItems, List.cons_append, List.nil_append]
      rfl
  | .arr (item :: items) =>
      have hlength : (renderItems (item :: items)).length ≤ fuel := by simpa [render] using hfuel
      have hitems := parseItems_render item items hlength s
      have hopen : expect 0x5d (renderItems (item :: items) ++ s) = none := by
        obtain ⟨b, tail, hhead, hspace, hclosing⟩ := render_head item
        obtain ⟨rest, hrest, -⟩ := renderItems_cons item items
        rw [hrest, hhead, List.cons_append, List.cons_append, expect_cons hspace, if_neg hclosing]
      have hne : ¬ (0x5b : UInt8) = quotationMark := by decide
      simp only [render, List.cons_append, hne, if_false, if_true, hopen, hitems, Option.map_some, cleaned]
  | .obj [] =>
      simp only [render, renderFields, List.cons_append, List.nil_append]
      rfl
  | .obj ((name, value) :: fields) =>
      have hlength : (renderFields ((name, value) :: fields)).length ≤ fuel := by simpa [render] using hfuel
      have hfields := parseFields_render name value fields hlength s
      have hopen : expect 0x7d (renderFields ((name, value) :: fields) ++ s) = none := by
        obtain ⟨rest, hrest, -⟩ := renderFields_cons name value fields
        rw [hrest, quote]
        rfl
      have hne : ¬ (0x7b : UInt8) = quotationMark := by decide
      have hne' : ¬ (0x7b : UInt8) = 0x5b := by decide
      simp only [render, List.cons_append, hne, hne', if_false, if_true, hopen, hfields, Option.map_some, cleaned]
termination_by fuel

theorem parseItems_render (item : Json) (items : List Json) {fuel : Nat}
    (hfuel : (renderItems (item :: items)).length ≤ fuel) (s : Bytes) :
    parseItems fuel (renderItems (item :: items) ++ s) = some (cleanedItems (item :: items), s) := by
  obtain ⟨tail, htail, hcases⟩ := renderItems_cons item items
  rw [htail] at hfuel ⊢
  rw [List.length_append] at hfuel
  have hpos : 0 < tail.length := by
    obtain ⟨-, rfl⟩ | ⟨-, rfl⟩ := hcases
    · simp
    · simp
  obtain ⟨fuel, rfl⟩ : ∃ n, fuel = n + 1 := ⟨fuel - 1, by omega⟩
  rw [List.append_assoc, parseItems, parse_render item (by omega)]
  simp only [Option.bind_eq_bind, Option.bind_some]
  match items, hcases with
  | [], hcases =>
      obtain ⟨-, rfl⟩ | ⟨hne, -⟩ := hcases
      · rfl
      · exact absurd rfl hne
  | next :: items, hcases =>
      obtain ⟨hnil, -⟩ | ⟨-, rfl⟩ := hcases
      · cases hnil
      have hcomma : expect comma (comma :: renderItems (next :: items) ++ s) = some (renderItems (next :: items) ++ s) := by
        rw [List.cons_append, expect_cons (by decide), if_pos rfl]
      rw [List.length_cons] at hfuel
      simp only [hcomma, parseItems_render next items (show _ ≤ fuel by omega) s, Option.bind_some, cleanedItems]
termination_by fuel

theorem parseFields_render (name : Bytes) (value : Json) (fields : List (Bytes × Json)) {fuel : Nat}
    (hfuel : (renderFields ((name, value) :: fields)).length ≤ fuel) (s : Bytes) :
    parseFields fuel (renderFields ((name, value) :: fields) ++ s) =
      some (cleanedFields ((name, value) :: fields), s) := by
  obtain ⟨tail, htail, hcases⟩ := renderFields_cons name value fields
  rw [htail] at hfuel ⊢
  simp only [List.length_append, List.length_cons] at hfuel
  obtain ⟨fuel, rfl⟩ : ∃ n, fuel = n + 1 := ⟨fuel - 1, by omega⟩
  have hquote : quote name ++ colon :: (render value ++ tail) ++ s =
      quotationMark :: (escape name ++ quotationMark :: colon :: (render value ++ (tail ++ s))) := by
    simp [quote]
  rw [hquote, parseFields, expect_cons (by decide), if_pos rfl]
  simp only [Option.bind_eq_bind, Option.bind_some, readString_escape rfl]
  rw [expect_cons (by decide), if_pos rfl]
  simp only [Option.bind_some, parse_render value (show (render value).length ≤ fuel by omega)]
  match fields, hcases with
  | [], hcases =>
      obtain ⟨-, rfl⟩ | ⟨hne, -⟩ := hcases
      · rfl
      · exact absurd rfl hne
  | (name', value') :: fields, hcases =>
      obtain ⟨hnil, -⟩ | ⟨-, rfl⟩ := hcases
      · cases hnil
      have hcomma : expect comma (comma :: renderFields ((name', value') :: fields) ++ s) =
          some (renderFields ((name', value') :: fields) ++ s) := by
        rw [List.cons_append, expect_cons (by decide), if_pos rfl]
      rw [List.length_cons] at hfuel
      simp only [hcomma, parseFields_render name' value' fields (show _ ≤ fuel by omega) s, Option.bind_some,
        cleanedFields]
termination_by fuel

end

end Json

end AutoDeploy.Lib
