import AutoDeploy.Lib.Utf8

namespace AutoDeploy.Lib

namespace Utf8

-- A text taken apart: the encodings of its characters, and the bytes that belong to none.
inductive Rune where
  | encoded (bytes : Bytes)
  | invalid (b : UInt8)
deriving DecidableEq, Repr

namespace Rune

def bytes : Rune → Bytes
  | .encoded bytes => bytes
  | .invalid b => [b]

def valid : Rune → Bool
  | .encoded _ => true
  | .invalid _ => false

end Rune

-- The encoding of U+FFFD.
def replacement : Bytes := [0xef, 0xbf, 0xbd]

def Rune.cleaned : Rune → Bytes
  | .encoded bytes => bytes
  | .invalid _ => replacement

def firstRune (b : UInt8) (rest : Bytes) : Rune × Bytes :=
  match decodeRune (b :: rest) with
  | some (_, after) => (.encoded ((b :: rest).take (rest.length + 1 - after.length)), after)
  | none => (.invalid b, rest)

-- The fuel bounds the runes by the bytes.
def runesAux : Nat → Bytes → List Rune
  | _, [] => []
  | 0, _ :: _ => []
  | fuel + 1, b :: rest => (firstRune b rest).1 :: runesAux fuel (firstRune b rest).2

def runes (s : Bytes) : List Rune := runesAux s.length s

-- The text with U+FFFD in place of each invalid byte.
def sanitize (s : Bytes) : Bytes := (runes s).flatMap Rune.cleaned

-- The bytes are the encoding of one character, whatever follows them.
def Encoded (p : Bytes) : Prop := ∃ c, ∀ t, decodeRune (p ++ t) = some (c, t)

theorem continuation_ofNat {n : Nat} (hlow : 0x80 ≤ n) (hhigh : n ≤ 0xbf) : continuation (UInt8.ofNat n) = true := by
  simp only [continuation, UInt8.le_iff_toNat_le, UInt8.toNat_ofNat', UInt8.reduceToNat, Bool.and_eq_true,
    decide_eq_true_eq]
  omega

theorem lt_ofNat_iff {n k : Nat} (hn : n < 256) (hk : k < 256) : UInt8.ofNat n < UInt8.ofNat k ↔ n < k := by
  rw [UInt8.lt_iff_toNat_lt, UInt8.toNat_ofNat', UInt8.toNat_ofNat']
  omega

theorem le_ofNat_iff {n k : Nat} (hn : n < 256) (hk : k < 256) : UInt8.ofNat n ≤ UInt8.ofNat k ↔ n ≤ k := by
  rw [UInt8.le_iff_toNat_le, UInt8.toNat_ofNat', UInt8.toNat_ofNat']
  omega

theorem secondByteOk_ofNat {n k : Nat} (hn : n < 256) (hlow : 0x80 ≤ k) (hhigh : k ≤ 0xbf) (he0 : n = 0xe0 → 0xa0 ≤ k)
    (hf0 : n = 0xf0 → 0x90 ≤ k) (hed : n = 0xed → k ≤ 0x9f) (hf4 : n = 0xf4 → k ≤ 0x8f) :
    secondByteOk (UInt8.ofNat n) (UInt8.ofNat k) = true := by
  simp only [secondByteOk, ← UInt8.toNat_inj, UInt8.le_iff_toNat_le, UInt8.toNat_ofNat', UInt8.reduceToNat,
    Bool.and_eq_true, decide_eq_true_eq, apply_ite UInt8.toNat]
  constructor
  · split
    · omega
    · split
      · omega
      · omega
  · split
    · omega
    · split
      · omega
      · omega

theorem low_ofNat {n : Nat} (h : n < 256) : low (UInt8.ofNat n) = n % 64 := by
  rw [low, UInt8.toNat_ofNat', Nat.mod_eq_of_lt h]

theorem some_ofNat {c : Char} {n : Nat} {t : Bytes} (h : n = c.val.toNat) : some (Char.ofNat n, t) = some (c, t) := by
  rw [h, show Char.ofNat c.val.toNat = c from Char.ofNat_toNat c]

-- Every character is decoded again.
theorem decodeRune_encodeChar (c : Char) (t : Bytes) : decodeRune (String.utf8EncodeChar c ++ t) = some (c, t) := by
  have hvalid : c.val.toNat < 0xd800 ∨ 0xdfff < c.val.toNat ∧ c.val.toNat < 0x110000 := c.valid
  fun_cases String.utf8EncodeChar c with
  | case1 v h =>
      have h₀ : UInt8.ofNat v < 0x80 := (lt_ofNat_iff (k := 0x80) (by omega) (by decide)).2 (by omega)
      simp only [List.cons_append, List.nil_append, decodeRune, h₀, if_true]
      exact some_ofNat (by rw [UInt8.toNat_ofNat', Nat.mod_eq_of_lt (by omega)])
  | case2 v h h' =>
      have hn : v / 64 % 0x20 + 0xc0 < 256 := by omega
      have h₀ : ¬ UInt8.ofNat (v / 64 % 0x20 + 0xc0) < 0x80 := by
        rw [show (0x80 : UInt8) = UInt8.ofNat 0x80 from rfl, lt_ofNat_iff hn (by decide)]
        omega
      have h₁ : 0xc2 ≤ UInt8.ofNat (v / 64 % 0x20 + 0xc0) ∧ UInt8.ofNat (v / 64 % 0x20 + 0xc0) ≤ 0xdf :=
        ⟨(le_ofNat_iff (n := 0xc2) (by decide) hn).2 (by omega), (le_ofNat_iff (k := 0xdf) hn (by decide)).2 (by omega)⟩
      have hb : continuation (UInt8.ofNat (v % 0x40 + 0x80)) = true := continuation_ofNat (by omega) (by omega)
      simp only [List.cons_append, List.nil_append, decodeRune, h₀, h₁, hb, if_true, if_false, and_self]
      refine some_ofNat ?_
      rw [UInt8.toNat_ofNat', low_ofNat (by omega)]
      omega
  | case3 v h h' h'' =>
      have hn : v / 4096 % 0x10 + 0xe0 < 256 := by omega
      have h₀ : ¬ UInt8.ofNat (v / 4096 % 0x10 + 0xe0) < 0x80 := by
        rw [show (0x80 : UInt8) = UInt8.ofNat 0x80 from rfl, lt_ofNat_iff hn (by decide)]
        omega
      have h₁ : ¬ (0xc2 ≤ UInt8.ofNat (v / 4096 % 0x10 + 0xe0) ∧ UInt8.ofNat (v / 4096 % 0x10 + 0xe0) ≤ 0xdf) := by
        rw [show (0xdf : UInt8) = UInt8.ofNat 0xdf from rfl, le_ofNat_iff hn (by decide)]
        omega
      have h₂ : 0xe0 ≤ UInt8.ofNat (v / 4096 % 0x10 + 0xe0) ∧ UInt8.ofNat (v / 4096 % 0x10 + 0xe0) ≤ 0xef :=
        ⟨(le_ofNat_iff (n := 0xe0) (by decide) hn).2 (by omega), (le_ofNat_iff (k := 0xef) hn (by decide)).2 (by omega)⟩
      have hs : secondByteOk (UInt8.ofNat (v / 4096 % 0x10 + 0xe0)) (UInt8.ofNat (v / 64 % 0x40 + 0x80)) = true := by
        apply secondByteOk_ofNat hn
        all_goals omega
      have hb : continuation (UInt8.ofNat (v % 0x40 + 0x80)) = true := continuation_ofNat (by omega) (by omega)
      simp only [List.cons_append, List.nil_append, decodeRune, h₀, h₁, h₂, hs, hb, if_true, if_false, and_self,
        Bool.and_self]
      refine some_ofNat ?_
      rw [UInt8.toNat_ofNat', low_ofNat (by omega), low_ofNat (by omega)]
      omega
  | case4 v h h' h'' =>
      have hn : v / 262144 % 0x8 + 0xf0 < 256 := by omega
      have h₀ : ¬ UInt8.ofNat (v / 262144 % 0x8 + 0xf0) < 0x80 := by
        rw [show (0x80 : UInt8) = UInt8.ofNat 0x80 from rfl, lt_ofNat_iff hn (by decide)]
        omega
      have h₁ : ¬ (0xc2 ≤ UInt8.ofNat (v / 262144 % 0x8 + 0xf0) ∧ UInt8.ofNat (v / 262144 % 0x8 + 0xf0) ≤ 0xdf) := by
        rw [show (0xdf : UInt8) = UInt8.ofNat 0xdf from rfl, le_ofNat_iff hn (by decide)]
        omega
      have h₂ : ¬ (0xe0 ≤ UInt8.ofNat (v / 262144 % 0x8 + 0xf0) ∧ UInt8.ofNat (v / 262144 % 0x8 + 0xf0) ≤ 0xef) := by
        rw [show (0xef : UInt8) = UInt8.ofNat 0xef from rfl, le_ofNat_iff hn (by decide)]
        omega
      have h₃ : 0xf0 ≤ UInt8.ofNat (v / 262144 % 0x8 + 0xf0) ∧ UInt8.ofNat (v / 262144 % 0x8 + 0xf0) ≤ 0xf4 :=
        ⟨(le_ofNat_iff (n := 0xf0) (by decide) hn).2 (by omega), (le_ofNat_iff (k := 0xf4) hn (by decide)).2 (by omega)⟩
      have hs : secondByteOk (UInt8.ofNat (v / 262144 % 0x8 + 0xf0)) (UInt8.ofNat (v / 4096 % 0x40 + 0x80)) = true := by
        apply secondByteOk_ofNat hn
        all_goals omega
      have hb : continuation (UInt8.ofNat (v / 64 % 0x40 + 0x80)) = true := continuation_ofNat (by omega) (by omega)
      have hb' : continuation (UInt8.ofNat (v % 0x40 + 0x80)) = true := continuation_ofNat (by omega) (by omega)
      simp only [List.cons_append, List.nil_append, decodeRune, h₀, h₁, h₂, h₃, hs, hb, hb', if_true, if_false, and_self,
        Bool.and_self]
      refine some_ofNat ?_
      rw [UInt8.toNat_ofNat', low_ofNat (by omega), low_ofNat (by omega), low_ofNat (by omega)]
      omega

theorem encode_cons (c : Char) (text : List Char) : encode (c :: text) = String.utf8EncodeChar c ++ encode text :=
  List.flatMap_cons

theorem encodeChar_pos (c : Char) : 0 < (String.utf8EncodeChar c).length := by
  rw [String.length_utf8EncodeChar]
  exact Char.utf8Size_pos c

theorem decodeRune_split {s after : Bytes} {c : Char} (h : decodeRune s = some (c, after)) :
    ∃ p, p ≠ [] ∧ s = p ++ after ∧ Encoded p :=
  ⟨String.utf8EncodeChar c, List.ne_nil_of_length_pos (encodeChar_pos c), encodeChar_of_decodeRune h, c,
    decodeRune_encodeChar c⟩

theorem Encoded.tail_eq_nil {b : UInt8} {q : Bytes} (h : Encoded (b :: q)) (hascii : b < 0x80) : q = [] := by
  obtain ⟨c, h⟩ := h
  have hnil := h []
  simp only [List.append_nil, decodeRune, hascii, if_true] at hnil
  exact (Prod.mk.inj (Option.some.inj hnil)).2

theorem Encoded.ascii {b : UInt8} (h : Encoded [b]) : b < 0x80 := by
  obtain ⟨c, h⟩ := h
  have hnil := h []
  by_contra hascii
  simp only [List.append_nil, decodeRune, hascii, if_false] at hnil
  split at hnil
  · cases hnil
  · split at hnil
    · cases hnil
    · split at hnil
      · cases hnil
      · cases hnil

def Rune.WellFormed : Rune → Prop
  | .encoded p => p ≠ [] ∧ Encoded p
  | .invalid _ => True

theorem firstRune_of_encoded {b : UInt8} {q : Bytes} (h : Encoded (b :: q)) (t : Bytes) :
    firstRune b (q ++ t) = (.encoded (b :: q), t) := by
  obtain ⟨c, h⟩ := h
  have ht := h t
  rw [List.cons_append] at ht
  have hlength : (q ++ t).length + 1 - t.length = (b :: q).length := by
    simp only [List.length_append, List.length_cons]
    omega
  rw [firstRune, ht]
  dsimp only
  rw [hlength, ← List.cons_append, List.take_left]

theorem firstRune_split (b : UInt8) (rest : Bytes) :
    b :: rest = (firstRune b rest).1.bytes ++ (firstRune b rest).2 ∧ (firstRune b rest).1.WellFormed := by
  cases h : decodeRune (b :: rest) with
  | none =>
      rw [firstRune, h]
      exact ⟨rfl, trivial⟩
  | some result =>
      obtain ⟨c, after⟩ := result
      obtain ⟨p, hne, hsplit, hencoded⟩ := decodeRune_split h
      obtain ⟨b', q, rfl⟩ := List.exists_cons_of_ne_nil hne
      rw [List.cons_append, List.cons.injEq] at hsplit
      obtain ⟨rfl, rfl⟩ := hsplit
      rw [firstRune_of_encoded hencoded]
      exact ⟨rfl, hne, hencoded⟩

theorem Rune.WellFormed.length_pos {r : Rune} (h : r.WellFormed) : 0 < r.bytes.length := by
  cases r with
  | encoded p => exact List.length_pos_of_ne_nil h.1
  | invalid b => simp [Rune.bytes]

theorem firstRune_shorter (b : UInt8) (rest : Bytes) : (firstRune b rest).2.length ≤ rest.length := by
  obtain ⟨hsplit, hwell⟩ := firstRune_split b rest
  have hlength := congrArg List.length hsplit
  have hpos := hwell.length_pos
  simp only [List.length_cons, List.length_append] at hlength
  omega

theorem runesAux_bytes {fuel : Nat} {s : Bytes} (h : s.length ≤ fuel) :
    (runesAux fuel s).flatMap Rune.bytes = s ∧ ∀ r ∈ runesAux fuel s, r.WellFormed := by
  induction fuel generalizing s with
  | zero =>
      obtain rfl := List.length_eq_zero_iff.1 (Nat.le_zero.1 h)
      simp [runesAux]
  | succ fuel ih =>
      cases s with
      | nil => simp [runesAux]
      | cons b rest =>
          have hshorter := firstRune_shorter b rest
          rw [List.length_cons] at h
          obtain ⟨hsplit, hwell⟩ := firstRune_split b rest
          obtain ⟨hbytes, hall⟩ := ih (s := (firstRune b rest).2) (by omega)
          rw [runesAux, List.flatMap_cons, hbytes, ← hsplit]
          refine ⟨rfl, fun r hr => ?_⟩
          obtain rfl | hr := List.mem_cons.1 hr
          · exact hwell
          · exact hall r hr

theorem runes_bytes (s : Bytes) : (runes s).flatMap Rune.bytes = s := (runesAux_bytes (le_refl _)).1

theorem runes_wellFormed {s : Bytes} {r : Rune} (h : r ∈ runes s) : r.WellFormed := (runesAux_bytes (le_refl _)).2 r h

theorem validAux_iff {fuel : Nat} {s : Bytes} (h : s.length ≤ fuel) :
    validAux fuel s = true ↔ ∀ r ∈ runesAux fuel s, r.valid = true := by
  induction fuel generalizing s with
  | zero =>
      obtain rfl := List.length_eq_zero_iff.1 (Nat.le_zero.1 h)
      simp [validAux, runesAux]
  | succ fuel ih =>
      cases s with
      | nil => simp [validAux, runesAux]
      | cons b rest =>
          have hshorter := firstRune_shorter b rest
          rw [List.length_cons] at h
          have hrest := ih (s := (firstRune b rest).2) (by omega)
          rw [runesAux, List.forall_mem_cons, ← hrest, validAux, firstRune]
          cases decodeRune (b :: rest) with
          | none => simp [Rune.valid]
          | some result => simp [Rune.valid]

theorem validString_iff (s : Bytes) : validString s = true ↔ ∀ r ∈ runes s, r.valid = true := validAux_iff (le_refl _)

-- Every invalid byte makes the text longer.
theorem length_cleaned (rs : List Rune) :
    (rs.flatMap Rune.cleaned).length = (rs.flatMap Rune.bytes).length + 2 * (rs.filter fun r => !r.valid).length := by
  induction rs with
  | nil => rfl
  | cons r rs ih =>
      rw [List.flatMap_cons, List.flatMap_cons, List.length_append, List.length_append, ih, List.filter_cons]
      cases r with
      | encoded p =>
          simp only [Rune.cleaned, Rune.bytes, Rune.valid, Bool.not_true, Bool.false_eq_true, if_false]
          omega
      | invalid b =>
          simp only [Rune.cleaned, Rune.bytes, Rune.valid, Bool.not_false, if_true, replacement, List.length_cons,
            List.length_nil]
          omega

theorem flatMap_cleaned_of_valid {rs : List Rune} (h : ∀ r ∈ rs, r.valid = true) :
    rs.flatMap Rune.cleaned = rs.flatMap Rune.bytes := by
  refine List.flatMap_congr fun r hr => ?_
  cases r with
  | encoded p => rfl
  | invalid b => exact absurd (h _ hr) (by simp [Rune.valid])

-- A text survives exactly when there is nothing in it to replace.
theorem sanitize_eq_iff (s : Bytes) : sanitize s = s ↔ validString s = true := by
  rw [validString_iff]
  constructor
  · intro h r hr
    have hlength := length_cleaned (runes s)
    rw [runes_bytes, ← sanitize, h] at hlength
    have hnone : ((runes s).filter fun r => !r.valid) = [] := List.length_eq_zero_iff.1 (by omega)
    have hkept := List.filter_eq_nil_iff.1 hnone r hr
    simpa using hkept
  · intro h
    rw [sanitize, flatMap_cleaned_of_valid h, runes_bytes]

theorem validAux_encode (text : List Char) {fuel : Nat} (hfuel : (encode text).length ≤ fuel) :
    validAux fuel (encode text) = true := by
  induction text generalizing fuel with
  | nil =>
      cases fuel with
      | zero => rfl
      | succ fuel => rfl
  | cons c text ih =>
      have hdecode := decodeRune_encodeChar c (encode text)
      obtain ⟨b, q, hbytes⟩ := List.exists_cons_of_length_pos (encodeChar_pos c)
      rw [encode_cons, List.length_append, hbytes, List.length_cons] at hfuel
      obtain ⟨fuel, rfl⟩ : ∃ n, fuel = n + 1 := ⟨fuel - 1, by omega⟩
      rw [encode_cons]
      rw [hbytes, List.cons_append] at hdecode ⊢
      rw [validAux, hdecode]
      exact ih (by omega)

-- Text is valid.
theorem validString_ofString (s : String) : validString (Bytes.ofString s) = true := by
  rw [ofString_eq_encode]
  exact validAux_encode s.toList (le_refl _)

theorem encode_append (front rest : List Char) : encode (front ++ rest) = encode front ++ encode rest :=
  List.flatMap_append

theorem exists_encode_of_validAux {fuel : Nat} {s : Bytes} (h : validAux fuel s = true) : ∃ text, s = encode text := by
  induction fuel generalizing s with
  | zero =>
      cases s with
      | nil => exact ⟨[], rfl⟩
      | cons b rest => cases h
  | succ fuel ih =>
      cases s with
      | nil => exact ⟨[], rfl⟩
      | cons b rest =>
          rw [validAux] at h
          split at h
          · rename_i c after hdecode
            obtain ⟨text, htext⟩ := ih h
            refine ⟨c :: text, ?_⟩
            rw [encodeChar_of_decodeRune hdecode, encode_cons, htext]
          · cases h

theorem validString_iff_encode (s : Bytes) : validString s = true ↔ ∃ text, s = encode text := by
  constructor
  · exact exists_encode_of_validAux
  · rintro ⟨text, rfl⟩
    exact validAux_encode text (le_refl _)

theorem toValidAux_encode (replacement : Char) (replaced : Bool) (text : List Char) {fuel : Nat}
    (hfuel : (encode text).length ≤ fuel) : toValidAux replacement fuel replaced (encode text) = text := by
  induction text generalizing fuel replaced with
  | nil =>
      cases fuel with
      | zero => rfl
      | succ fuel => rfl
  | cons c text ih =>
      have hdecode := decodeRune_encodeChar c (encode text)
      obtain ⟨b, q, hbytes⟩ := List.exists_cons_of_length_pos (encodeChar_pos c)
      rw [encode_cons, List.length_append, hbytes, List.length_cons] at hfuel
      obtain ⟨fuel, rfl⟩ : ∃ n, fuel = n + 1 := ⟨fuel - 1, by omega⟩
      rw [encode_cons]
      rw [hbytes, List.cons_append] at hdecode ⊢
      rw [toValidAux, hdecode]
      exact congrArg (c :: ·) (ih false (by omega))

-- Valid text is read back as it is.
theorem toValid_encode (replacement : Char) (text : List Char) : toValid replacement (encode text) = text :=
  toValidAux_encode replacement false text (le_refl _)

private theorem runeStart_ofNat {n : Nat} (hlow : 0x80 ≤ n) (hhigh : n ≤ 0xbf) : runeStart (UInt8.ofNat n) = false := by
  have hall : ∀ k : Fin 64, runeStart (UInt8.ofNat (k + 0x80)) = false := by decide +kernel
  obtain ⟨k, rfl⟩ : ∃ k, n = k + 0x80 := ⟨n - 0x80, by omega⟩
  exact hall ⟨k, by omega⟩

-- Inside an encoding no rune starts.
theorem runeStart_inside (c : Char) {n : Nat} (hpos : 0 < n) (hlt : n < (String.utf8EncodeChar c).length) (rest : Bytes) :
    runeStart ((String.utf8EncodeChar c ++ rest).getD n 0) = false := by
  rw [List.getD_eq_getElem?_getD, List.getElem?_append_left hlt, List.getElem?_eq_getElem hlt, Option.getD_some]
  revert hlt
  fun_cases String.utf8EncodeChar c with
  | case1 v h =>
      intro hlt
      simp only [List.length_cons, List.length_nil] at hlt
      omega
  | case2 v h h' =>
      intro hlt
      simp only [List.length_cons, List.length_nil] at hlt
      obtain rfl : n = 1 := by omega
      exact runeStart_ofNat (by omega) (by omega)
  | case3 v h h' h'' =>
      intro hlt
      simp only [List.length_cons, List.length_nil] at hlt
      obtain rfl | rfl : n = 1 ∨ n = 2 := by omega
      · exact runeStart_ofNat (by omega) (by omega)
      · exact runeStart_ofNat (by omega) (by omega)
  | case4 v h h' h'' =>
      intro hlt
      simp only [List.length_cons, List.length_nil] at hlt
      obtain rfl | rfl | rfl : n = 1 ∨ n = 2 ∨ n = 3 := by omega
      · exact runeStart_ofNat (by omega) (by omega)
      · exact runeStart_ofNat (by omega) (by omega)
      · exact runeStart_ofNat (by omega) (by omega)

-- The longest run of whole characters that fits.
def fitting : Nat → List Char → List Char
  | _, [] => []
  | limit, c :: text =>
      if (String.utf8EncodeChar c).length ≤ limit then c :: fitting (limit - (String.utf8EncodeChar c).length) text
      else []

theorem runeCut_inside (c : Char) (rest : Bytes) {n : Nat} (hlt : n < (String.utf8EncodeChar c).length) :
    runeCut (String.utf8EncodeChar c ++ rest) n = 0 := by
  induction n with
  | zero => rfl
  | succ n ih =>
      rw [runeCut, runeStart_inside c (by omega) hlt rest]
      exact ih (by omega)

-- Past a whole character the cut is found in what follows.
theorem runeCut_append (front : Bytes) {s : Bytes} (hstart : runeStart (s.getD 0 0) = true) (n : Nat) :
    runeCut (front ++ s) (front.length + n) = front.length + runeCut s n := by
  have hget (k : Nat) : (front ++ s).getD (front.length + k) 0 = s.getD k 0 := by
    rw [List.getD_eq_getElem?_getD, List.getElem?_append_right (by omega), Nat.add_sub_cancel_left,
      ← List.getD_eq_getElem?_getD]
  induction n with
  | zero =>
      rcases Nat.eq_zero_or_pos front.length with hzero | hpos
      · rw [hzero]
        rfl
      · have hfirst : runeStart ((front ++ s).getD front.length 0) = true := by
          rw [← hstart]
          exact congrArg runeStart (hget 0)
        obtain ⟨k, hk⟩ : ∃ k, front.length = k + 1 := ⟨front.length - 1, by omega⟩
        rw [hk] at hfirst
        show runeCut (front ++ s) front.length = front.length
        rw [hk, runeCut, if_pos hfirst]
  | succ n ih =>
      rw [← Nat.add_assoc, runeCut, runeCut, Nat.add_assoc, hget, ih]
      split
      · rfl
      · rfl

-- Stepping back from a cut inside the text drops the character that does not fit and nothing else.
theorem runeCut_encode (text : List Char) {n : Nat} (hlt : n < (encode text).length) :
    runeCut (encode text) n = (encode (fitting n text)).length := by
  induction text generalizing n with
  | nil => exact absurd hlt (Nat.not_lt_zero n)
  | cons c text ih =>
      rw [encode_cons, List.length_append] at hlt
      rw [encode_cons, fitting]
      split
      · rename_i hfits
        obtain ⟨m, rfl⟩ : ∃ m, n = (String.utf8EncodeChar c).length + m := ⟨n - (String.utf8EncodeChar c).length, by omega⟩
        have hstart : runeStart ((encode text).getD 0 0) = true := by
          cases text with
          | nil => exact absurd hlt (by simp [encode])
          | cons d rest =>
              rw [encode_cons]
              exact runeStart_head d (encode rest)
        rw [runeCut_append _ hstart, ih (by omega), Nat.add_sub_cancel_left, encode_cons, List.length_append]
      · rename_i hfits
        exact runeCut_inside c (encode text) (by omega)

theorem fitting_isPrefix (limit : Nat) (text : List Char) : fitting limit text <+: text := by
  induction text generalizing limit with
  | nil => exact List.prefix_refl _
  | cons c text ih =>
      rw [fitting]
      split
      · exact (List.prefix_cons_inj c).2 (ih _)
      · exact List.nil_prefix

theorem length_fitting (limit : Nat) (text : List Char) : (encode (fitting limit text)).length ≤ limit := by
  induction text generalizing limit with
  | nil => exact Nat.zero_le _
  | cons c text ih =>
      rw [fitting]
      split
      · have := ih (limit - (String.utf8EncodeChar c).length)
        rw [encode_cons, List.length_append]
        omega
      · exact Nat.zero_le _

-- Nothing longer fits.
theorem prefix_fitting {limit : Nat} {front text : List Char} (h : front <+: text) (hfits : (encode front).length ≤ limit) :
    front <+: fitting limit text := by
  induction text generalizing limit front with
  | nil =>
      rw [List.prefix_nil.1 h]
      exact List.nil_prefix
  | cons c text ih =>
      cases front with
      | nil => exact List.nil_prefix
      | cons d front =>
          obtain ⟨rfl, hrest⟩ := List.cons_prefix_cons.1 h
          rw [encode_cons, List.length_append] at hfits
          rw [fitting, if_pos (by omega)]
          exact (List.prefix_cons_inj d).2 (ih hrest (by omega))

theorem fitting_of_length_le {limit : Nat} {text : List Char} (h : (encode text).length ≤ limit) :
    fitting limit text = text :=
  (fitting_isPrefix limit text).eq_of_length_le (prefix_fitting (List.prefix_refl _) h).length_le

theorem truncateOnRuneBoundary_encode (text : List Char) (maxBytes : Nat) :
    truncateOnRuneBoundary (encode text) maxBytes = encode (fitting maxBytes text) := by
  unfold truncateOnRuneBoundary
  split
  · rename_i hzero
    have := length_fitting maxBytes text
    exact (List.length_eq_zero_iff.1 (by omega)).symm
  · split
    · rename_i hfits
      rw [fitting_of_length_le hfits]
    · rename_i hlong
      rw [runeCut_encode text (by omega)]
      obtain ⟨rest, hrest⟩ := fitting_isPrefix maxBytes text
      conv_lhs => rw [← hrest, encode_append]
      rw [hrest, List.take_left]

end Utf8

end AutoDeploy.Lib
