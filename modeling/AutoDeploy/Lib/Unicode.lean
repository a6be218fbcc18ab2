import AutoDeploy.Lib.Runes

namespace AutoDeploy.Lib

-- Lower-casing of text as Unicode has it: ASCII by its own rule, the rest by a table of ranges.
namespace Unicode

def isAscii (c : Char) : Bool := decide (c.toNat < 0x80)

def asciiLower (c : Char) : Char := if 'A' ≤ c ∧ c ≤ 'Z' then Char.ofNat (c.toNat + 32) else c

-- Every stride-th character from low to high has the one that is delta further as its lower case.
structure CaseRange where
  low : Nat
  high : Nat
  stride : Nat
  delta : Int

namespace CaseRange

def covers (r : CaseRange) (c : Char) : Bool :=
  decide (r.low ≤ c.toNat) && decide (c.toNat ≤ r.high) && (c.toNat - r.low) % r.stride == 0

end CaseRange

-- The lower-case mappings of the Unicode Character Database outside ASCII. Later versions of it add
-- ranges of new characters and change none of these.
def caseRanges : List CaseRange :=
  [⟨0xc0, 0xd6, 1, 32⟩, ⟨0xd8, 0xde, 1, 32⟩, ⟨0x100, 0x12e, 2, 1⟩, ⟨0x130, 0x130, 1, -199⟩,
   ⟨0x132, 0x136, 2, 1⟩, ⟨0x139, 0x147, 2, 1⟩, ⟨0x14a, 0x176, 2, 1⟩, ⟨0x178, 0x178, 1, -121⟩,
   ⟨0x179, 0x17d, 2, 1⟩, ⟨0x181, 0x181, 1, 210⟩, ⟨0x182, 0x184, 2, 1⟩, ⟨0x186, 0x186, 1, 206⟩,
   ⟨0x187, 0x187, 1, 1⟩, ⟨0x189, 0x18a, 1, 205⟩, ⟨0x18b, 0x18b, 1, 1⟩, ⟨0x18e, 0x18e, 1, 79⟩,
   ⟨0x18f, 0x18f, 1, 202⟩, ⟨0x190, 0x190, 1, 203⟩, ⟨0x191, 0x191, 1, 1⟩, ⟨0x193, 0x193, 1, 205⟩,
   ⟨0x194, 0x194, 1, 207⟩, ⟨0x196, 0x196, 1, 211⟩, ⟨0x197, 0x197, 1, 209⟩, ⟨0x198, 0x198, 1, 1⟩,
   ⟨0x19c, 0x19c, 1, 211⟩, ⟨0x19d, 0x19d, 1, 213⟩, ⟨0x19f, 0x19f, 1, 214⟩, ⟨0x1a0, 0x1a4, 2, 1⟩,
   ⟨0x1a6, 0x1a6, 1, 218⟩, ⟨0x1a7, 0x1a7, 1, 1⟩, ⟨0x1a9, 0x1a9, 1, 218⟩, ⟨0x1ac, 0x1ac, 1, 1⟩,
   ⟨0x1ae, 0x1ae, 1, 218⟩, ⟨0x1af, 0x1af, 1, 1⟩, ⟨0x1b1, 0x1b2, 1, 217⟩, ⟨0x1b3, 0x1b5, 2, 1⟩,
   ⟨0x1b7, 0x1b7, 1, 219⟩, ⟨0x1b8, 0x1b8, 1, 1⟩, ⟨0x1bc, 0x1bc, 1, 1⟩, ⟨0x1c4, 0x1c4, 1, 2⟩,
   ⟨0x1c5, 0x1c5, 1, 1⟩, ⟨0x1c7, 0x1c7, 1, 2⟩, ⟨0x1c8, 0x1c8, 1, 1⟩, ⟨0x1ca, 0x1ca, 1, 2⟩, ⟨0x1cb, 0x1db, 2, 1⟩,
   ⟨0x1de, 0x1ee, 2, 1⟩, ⟨0x1f1, 0x1f1, 1, 2⟩, ⟨0x1f2, 0x1f4, 2, 1⟩, ⟨0x1f6, 0x1f6, 1, -97⟩,
   ⟨0x1f7, 0x1f7, 1, -56⟩, ⟨0x1f8, 0x21e, 2, 1⟩, ⟨0x220, 0x220, 1, -130⟩, ⟨0x222, 0x232, 2, 1⟩,
   ⟨0x23a, 0x23a, 1, 10795⟩, ⟨0x23b, 0x23b, 1, 1⟩, ⟨0x23d, 0x23d, 1, -163⟩, ⟨0x23e, 0x23e, 1, 10792⟩,
   ⟨0x241, 0x241, 1, 1⟩, ⟨0x243, 0x243, 1, -195⟩, ⟨0x244, 0x244, 1, 69⟩, ⟨0x245, 0x245, 1, 71⟩,
   ⟨0x246, 0x24e, 2, 1⟩, ⟨0x370, 0x372, 2, 1⟩, ⟨0x376, 0x376, 1, 1⟩, ⟨0x37f, 0x37f, 1, 116⟩,
   ⟨0x386, 0x386, 1, 38⟩, ⟨0x388, 0x38a, 1, 37⟩, ⟨0x38c, 0x38c, 1, 64⟩, ⟨0x38e, 0x38f, 1, 63⟩,
   ⟨0x391, 0x3a1, 1, 32⟩, ⟨0x3a3, 0x3ab, 1, 32⟩, ⟨0x3cf, 0x3cf, 1, 8⟩, ⟨0x3d8, 0x3ee, 2, 1⟩,
   ⟨0x3f4, 0x3f4, 1, -60⟩, ⟨0x3f7, 0x3f7, 1, 1⟩, ⟨0x3f9, 0x3f9, 1, -7⟩, ⟨0x3fa, 0x3fa, 1, 1⟩,
   ⟨0x3fd, 0x3ff, 1, -130⟩, ⟨0x400, 0x40f, 1, 80⟩, ⟨0x410, 0x42f, 1, 32⟩, ⟨0x460, 0x480, 2, 1⟩,
   ⟨0x48a, 0x4be, 2, 1⟩, ⟨0x4c0, 0x4c0, 1, 15⟩, ⟨0x4c1, 0x4cd, 2, 1⟩, ⟨0x4d0, 0x52e, 2, 1⟩,
   ⟨0x531, 0x556, 1, 48⟩, ⟨0x10a0, 0x10c5, 1, 7264⟩, ⟨0x10c7, 0x10c7, 1, 7264⟩, ⟨0x10cd, 0x10cd, 1, 7264⟩,
   ⟨0x13a0, 0x13ef, 1, 38864⟩, ⟨0x13f0, 0x13f5, 1, 8⟩, ⟨0x1c90, 0x1cba, 1, -3008⟩, ⟨0x1cbd, 0x1cbf, 1, -3008⟩,
   ⟨0x1e00, 0x1e94, 2, 1⟩, ⟨0x1e9e, 0x1e9e, 1, -7615⟩, ⟨0x1ea0, 0x1efe, 2, 1⟩, ⟨0x1f08, 0x1f0f, 1, -8⟩,
   ⟨0x1f18, 0x1f1d, 1, -8⟩, ⟨0x1f28, 0x1f2f, 1, -8⟩, ⟨0x1f38, 0x1f3f, 1, -8⟩, ⟨0x1f48, 0x1f4d, 1, -8⟩,
   ⟨0x1f59, 0x1f5f, 2, -8⟩, ⟨0x1f68, 0x1f6f, 1, -8⟩, ⟨0x1f88, 0x1f8f, 1, -8⟩, ⟨0x1f98, 0x1f9f, 1, -8⟩,
   ⟨0x1fa8, 0x1faf, 1, -8⟩, ⟨0x1fb8, 0x1fb9, 1, -8⟩, ⟨0x1fba, 0x1fbb, 1, -74⟩, ⟨0x1fbc, 0x1fbc, 1, -9⟩,
   ⟨0x1fc8, 0x1fcb, 1, -86⟩, ⟨0x1fcc, 0x1fcc, 1, -9⟩, ⟨0x1fd8, 0x1fd9, 1, -8⟩, ⟨0x1fda, 0x1fdb, 1, -100⟩,
   ⟨0x1fe8, 0x1fe9, 1, -8⟩, ⟨0x1fea, 0x1feb, 1, -112⟩, ⟨0x1fec, 0x1fec, 1, -7⟩, ⟨0x1ff8, 0x1ff9, 1, -128⟩,
   ⟨0x1ffa, 0x1ffb, 1, -126⟩, ⟨0x1ffc, 0x1ffc, 1, -9⟩, ⟨0x2126, 0x2126, 1, -7517⟩, ⟨0x212a, 0x212a, 1, -8383⟩,
   ⟨0x212b, 0x212b, 1, -8262⟩, ⟨0x2132, 0x2132, 1, 28⟩, ⟨0x2160, 0x216f, 1, 16⟩, ⟨0x2183, 0x2183, 1, 1⟩,
   ⟨0x24b6, 0x24cf, 1, 26⟩, ⟨0x2c00, 0x2c2f, 1, 48⟩, ⟨0x2c60, 0x2c60, 1, 1⟩, ⟨0x2c62, 0x2c62, 1, -10743⟩,
   ⟨0x2c63, 0x2c63, 1, -3814⟩, ⟨0x2c64, 0x2c64, 1, -10727⟩, ⟨0x2c67, 0x2c6b, 2, 1⟩, ⟨0x2c6d, 0x2c6d, 1, -10780⟩,
   ⟨0x2c6e, 0x2c6e, 1, -10749⟩, ⟨0x2c6f, 0x2c6f, 1, -10783⟩, ⟨0x2c70, 0x2c70, 1, -10782⟩,
   ⟨0x2c72, 0x2c72, 1, 1⟩, ⟨0x2c75, 0x2c75, 1, 1⟩, ⟨0x2c7e, 0x2c7f, 1, -10815⟩, ⟨0x2c80, 0x2ce2, 2, 1⟩,
   ⟨0x2ceb, 0x2ced, 2, 1⟩, ⟨0x2cf2, 0x2cf2, 1, 1⟩, ⟨0xa640, 0xa66c, 2, 1⟩, ⟨0xa680, 0xa69a, 2, 1⟩,
   ⟨0xa722, 0xa72e, 2, 1⟩, ⟨0xa732, 0xa76e, 2, 1⟩, ⟨0xa779, 0xa77b, 2, 1⟩, ⟨0xa77d, 0xa77d, 1, -35332⟩,
   ⟨0xa77e, 0xa786, 2, 1⟩, ⟨0xa78b, 0xa78b, 1, 1⟩, ⟨0xa78d, 0xa78d, 1, -42280⟩, ⟨0xa790, 0xa792, 2, 1⟩,
   ⟨0xa796, 0xa7a8, 2, 1⟩, ⟨0xa7aa, 0xa7aa, 1, -42308⟩, ⟨0xa7ab, 0xa7ab, 1, -42319⟩,
   ⟨0xa7ac, 0xa7ac, 1, -42315⟩, ⟨0xa7ad, 0xa7ad, 1, -42305⟩, ⟨0xa7ae, 0xa7ae, 1, -42308⟩,
   ⟨0xa7b0, 0xa7b0, 1, -42258⟩, ⟨0xa7b1, 0xa7b1, 1, -42282⟩, ⟨0xa7b2, 0xa7b2, 1, -42261⟩,
   ⟨0xa7b3, 0xa7b3, 1, 928⟩, ⟨0xa7b4, 0xa7c2, 2, 1⟩, ⟨0xa7c4, 0xa7c4, 1, -48⟩, ⟨0xa7c5, 0xa7c5, 1, -42307⟩,
   ⟨0xa7c6, 0xa7c6, 1, -35384⟩, ⟨0xa7c7, 0xa7c9, 2, 1⟩, ⟨0xa7d0, 0xa7d0, 1, 1⟩, ⟨0xa7d6, 0xa7d8, 2, 1⟩,
   ⟨0xa7f5, 0xa7f5, 1, 1⟩, ⟨0xff21, 0xff3a, 1, 32⟩, ⟨0x10400, 0x10427, 1, 40⟩, ⟨0x104b0, 0x104d3, 1, 40⟩,
   ⟨0x10570, 0x1057a, 1, 39⟩, ⟨0x1057c, 0x1058a, 1, 39⟩, ⟨0x1058c, 0x10592, 1, 39⟩, ⟨0x10594, 0x10595, 1, 39⟩,
   ⟨0x10c80, 0x10cb2, 1, 64⟩, ⟨0x118a0, 0x118bf, 1, 32⟩, ⟨0x16e40, 0x16e5f, 1, 32⟩, ⟨0x1e900, 0x1e921, 1, 34⟩]

def toLower (c : Char) : Char :=
  if isAscii c then asciiLower c
  else
    match caseRanges.find? (fun r => r.covers c) with
    | some r => Char.ofNat (c.toNat + r.delta).toNat
    | none => c

-- The two characters outside ASCII whose lower case is an ASCII letter: the capital I with a dot and
-- the Kelvin sign.
def lookalike (c : Char) : Bool := c == '\u0130' || c == '\u212a'

-- The letter that a lookalike becomes; other characters stay.
def plainLetter (c : Char) : Char := if c = '\u0130' then 'i' else if c = '\u212a' then 'k' else c

theorem lookalike_iff {c : Char} : lookalike c = true ↔ c = '\u0130' ∨ c = '\u212a' := by
  simp only [lookalike, Bool.or_eq_true, beq_iff_eq]

theorem toLower_ascii {c : Char} (h : isAscii c = true) : toLower c = asciiLower c := by
  rw [toLower, if_pos h]

theorem isAscii_asciiLower {c : Char} (h : isAscii c = true) : isAscii (asciiLower c) = true := by
  unfold asciiLower
  split
  · rename_i hupper
    have hz : c.toNat ≤ 'Z'.toNat := hupper.2
    have hlow : c.toNat + 32 < 0x80 := by
      have : 'Z'.toNat = 90 := rfl
      omega
    have hvalid : (c.toNat + 32).isValidChar := .inl (by omega)
    simp only [isAscii, Utf8.toNat_ofNat hvalid, hlow, decide_true]
  · exact h

theorem toLower_lookalike {c : Char} (h : lookalike c = true) : toLower c = plainLetter c := by
  rcases lookalike_iff.1 h with rfl | rfl
  · decide
  · decide

-- Every range but those of the two lookalikes leads to characters outside ASCII.
def CaseRange.outside (r : CaseRange) : Bool :=
  decide (0x80 ≤ r.low + r.delta ∧ r.high + r.delta < 0xd800) ||
    decide (0xe000 ≤ r.low + r.delta ∧ r.high + r.delta < 0x110000)

def CaseRange.single (r : CaseRange) (n : Nat) : Bool := r.low == n && r.high == n

theorem caseRanges_outside :
    caseRanges.all (fun r => r.single 0x130 || r.single 0x212a || r.outside) = true := by decide

theorem isAscii_ofNat_outside {r : CaseRange} {c : Char} (hcovers : r.covers c = true) (h : r.outside = true) :
    isAscii (Char.ofNat (c.toNat + r.delta).toNat) = false := by
  simp only [CaseRange.covers, Bool.and_eq_true, decide_eq_true_eq] at hcovers
  obtain ⟨⟨hlow, hhigh⟩, -⟩ := hcovers
  simp only [CaseRange.outside, Bool.or_eq_true, decide_eq_true_eq] at h
  have hvalid : (c.toNat + r.delta).toNat.isValidChar := by
    rcases h with h | h
    · exact .inl (by omega)
    · exact .inr ⟨by omega, by omega⟩
  have hnot : ¬ (c.toNat + r.delta).toNat < 0x80 := by omega
  simp only [isAscii, Utf8.toNat_ofNat hvalid, hnot, decide_false]

theorem CaseRange.eq_of_single {r : CaseRange} {c : Char} {n : Nat} (hcovers : r.covers c = true)
    (h : r.single n = true) : c.toNat = n := by
  simp only [CaseRange.covers, Bool.and_eq_true, decide_eq_true_eq] at hcovers
  obtain ⟨⟨hlow, hhigh⟩, -⟩ := hcovers
  simp only [CaseRange.single, Bool.and_eq_true, beq_iff_eq] at h
  omega

theorem eq_of_toNat_eq {c d : Char} (h : c.toNat = d.toNat) : c = d := Char.ext (UInt32.toNat_inj.1 h)

-- Lower-casing leads into ASCII from ASCII and from the two lookalikes only.
theorem isAscii_toLower {c : Char} : isAscii (toLower c) = true ↔ isAscii c = true ∨ lookalike c = true := by
  constructor
  · intro h
    by_cases hascii : isAscii c = true
    · exact .inl hascii
    rw [toLower, if_neg hascii] at h
    split at h
    · rename_i r hfound
      have hcovers : r.covers c = true := List.find?_some (p := fun r : CaseRange => r.covers c) hfound
      have hrow := List.all_eq_true.1 caseRanges_outside r (List.mem_of_find?_eq_some hfound)
      simp only [Bool.or_eq_true] at hrow
      rcases hrow with (hrow | hrow) | hrow
      · exact .inr (lookalike_iff.2 (.inl (eq_of_toNat_eq (CaseRange.eq_of_single hcovers hrow))))
      · exact .inr (lookalike_iff.2 (.inr (eq_of_toNat_eq (CaseRange.eq_of_single hcovers hrow))))
      · rw [isAscii_ofNat_outside hcovers hrow] at h
        cases h
    · exact absurd h hascii
  · intro h
    rcases h with h | h
    · rw [toLower_ascii h]
      exact isAscii_asciiLower h
    · rw [toLower_lookalike h]
      rcases lookalike_iff.1 h with rfl | rfl
      · decide
      · decide

-- The characters that a reader of the bytes sees: U+FFFD stands for each byte that belongs to none. The
-- fuel bounds them by the bytes.
def textAux : Nat → Bytes → List Char
  | _, [] => []
  | 0, _ :: _ => []
  | fuel + 1, b :: rest =>
      match Utf8.decodeRune (b :: rest) with
      | some (c, after) => c :: textAux fuel after
      | none => '\ufffd' :: textAux fuel rest

def text (s : Bytes) : List Char := textAux s.length s

def lowerBytes (s : Bytes) : Bytes := Utf8.encode ((text s).map toLower)

def asciiByte (b : UInt8) : Bool := decide (b < 0x80)

def byteChar (b : UInt8) : Char := Char.ofNat b.toNat

theorem isAscii_byteChar {b : UInt8} (h : b < 0x80) : isAscii (byteChar b) = true := by
  have hnat : b.toNat < 0x80 := h
  rw [isAscii, byteChar, Utf8.toNat_ofNat (.inl (by omega)), decide_eq_true_eq]
  exact hnat

-- Text of ASCII characters only comes from ASCII bytes only, one by one.
theorem textAux_ascii {fuel : Nat} {s : Bytes} (hfuel : s.length ≤ fuel) :
    (textAux fuel s).all isAscii = s.all asciiByte ∧ (s.all asciiByte = true → textAux fuel s = s.map byteChar) := by
  induction fuel generalizing s with
  | zero =>
      cases s with
      | nil => exact ⟨rfl, fun _ => rfl⟩
      | cons b rest => simp at hfuel
  | succ fuel ih =>
      cases s with
      | nil => exact ⟨rfl, fun _ => rfl⟩
      | cons b rest =>
          by_cases hb : b < 0x80
          · have hdecode : Utf8.decodeRune (b :: rest) = some (byteChar b, rest) := by
              simp only [Utf8.decodeRune, if_pos hb, byteChar]
            obtain ⟨hall, htext⟩ := ih (s := rest) (by simpa using hfuel)
            simp only [textAux, hdecode, List.all_cons, isAscii_byteChar hb, hall, asciiByte, hb, decide_true,
              Bool.true_and, List.map_cons, true_and]
            intro hrest
            rw [htext hrest]
          · have hbyte : asciiByte b = false := by simp only [asciiByte, hb, decide_false]
            have hfirst : (textAux (fuel + 1) (b :: rest)).all isAscii = false := by
              simp only [textAux]
              split
              · rename_i c after hdecode
                have hc : isAscii c = false := by
                  by_contra hc
                  simp only [Bool.not_eq_false, isAscii, decide_eq_true_eq] at hc
                  exact hb (Utf8.decodeRune_ascii hdecode hc)
                simp only [List.all_cons, hc, Bool.false_and]
              · simp only [List.all_cons, show isAscii '\ufffd' = false from rfl, Bool.false_and]
            simp only [hfirst, List.all_cons, hbyte, Bool.false_and, Bool.false_eq_true, false_implies, and_self]

theorem text_all_isAscii (s : Bytes) : (text s).all isAscii = s.all asciiByte := (textAux_ascii (le_refl _)).1

theorem text_of_ascii {s : Bytes} (h : s.all asciiByte = true) : text s = s.map byteChar :=
  (textAux_ascii (le_refl _)).2 h

-- A class of ASCII characters can be looked for byte by byte.
theorem text_all_of_ascii {s : Bytes} {p : Char → Bool} (hp : ∀ c, p c = true → isAscii c = true)
    (h : (text s).all p = true) : ∀ b ∈ s, b < 0x80 ∧ p (byteChar b) = true := by
  have hascii : s.all asciiByte = true := by
    rw [← text_all_isAscii, List.all_eq_true]
    exact fun c hc => hp c (List.all_eq_true.1 h c hc)
  rw [text_of_ascii hascii, List.all_map, List.all_eq_true] at h
  exact fun b hb => ⟨of_decide_eq_true (List.all_eq_true.1 hascii b hb), h b hb⟩

section

open Utf8

theorem textAux_eq {fuel : Nat} {s : Bytes} (hfuel : s.length ≤ fuel) : textAux fuel s = text s := by
  have hsame {more less : Nat} {s : Bytes} (hless : s.length ≤ less) (hle : less ≤ more) :
      textAux more s = textAux less s := by
    induction less generalizing more s with
    | zero =>
        cases s with
        | nil => cases more with
          | zero => rfl
          | succ more => rfl
        | cons b rest => cases hless
    | succ less ih =>
        obtain ⟨more, rfl⟩ : ∃ n, more = n + 1 := ⟨more - 1, by omega⟩
        cases s with
        | nil => rfl
        | cons b rest =>
            rw [List.length_cons] at hless
            simp only [textAux]
            split
            · rename_i c after hdecode
              have hbytes := congrArg List.length (encodeChar_of_decodeRune hdecode)
              rw [List.length_append, List.length_cons] at hbytes
              have hpos := encodeChar_pos c
              rw [ih (by omega) (by omega)]
            · rw [ih (by omega) (by omega)]
  exact hsame (le_refl _) hfuel

theorem text_of_decode {s after : Bytes} {c : Char} (h : decodeRune s = some (c, after)) : text s = c :: text after := by
  have hbytes := congrArg List.length (encodeChar_of_decodeRune h)
  have hpos := encodeChar_pos c
  rw [List.length_append] at hbytes
  cases s with
  | nil => cases h
  | cons b rest =>
      rw [List.length_cons] at hbytes
      rw [text, List.length_cons, textAux, h]
      exact congrArg (c :: ·) (textAux_eq (by omega))

theorem text_of_invalid {b : UInt8} {rest : Bytes} (h : decodeRune (b :: rest) = none) :
    text (b :: rest) = '\ufffd' :: text rest := by
  rw [text, List.length_cons, textAux, h]
  rfl

-- Encoded characters are read back, whatever follows them.
theorem text_encode_append (front : List Char) (rest : Bytes) : text (encode front ++ rest) = front ++ text rest := by
  induction front with
  | nil => rfl
  | cons c front ih =>
      rw [encode_cons, List.append_assoc, text_of_decode (decodeRune_encodeChar c _), ih]
      rfl

theorem decodeRune_append {s after : Bytes} {c : Char} (h : decodeRune s = some (c, after)) (t : Bytes) :
    decodeRune (s ++ t) = some (c, after ++ t) := by
  rw [encodeChar_of_decodeRune h, List.append_assoc]
  exact decodeRune_encodeChar c (after ++ t)

-- A byte that starts a rune does not complete what was invalid before it.
theorem decodeRune_append_none {s : Bytes} {b : UInt8} (hne : s ≠ []) (h : decodeRune s = none) (hstart : runeStart b = true)
    (t : Bytes) : decodeRune (s ++ b :: t) = none := by
  cases hdecode : decodeRune (s ++ b :: t) with
  | none => rfl
  | some found =>
      obtain ⟨c, after⟩ := found
      have hbytes := encodeChar_of_decodeRune hdecode
      by_cases hlong : s.length < (String.utf8EncodeChar c).length
      · have hinside := runeStart_inside c (List.length_pos_iff.2 hne) hlong after
        rw [← hbytes, List.getD_eq_getElem?_getD, List.getElem?_append_right (le_refl _), Nat.sub_self] at hinside
        rw [show runeStart b = false from hinside] at hstart
        cases hstart
      · -- The encoding ends within the first part.
        have hprefix : String.utf8EncodeChar c <+: s := by
          refine List.prefix_of_prefix_length_le ⟨after, hbytes.symm⟩ (List.prefix_append s (b :: t)) (by omega)
        obtain ⟨more, rfl⟩ := hprefix
        rw [decodeRune_encodeChar] at h
        cases h

theorem text_append_start (s : Bytes) {b : UInt8} (hstart : runeStart b = true) (t : Bytes) :
    text (s ++ b :: t) = text s ++ text (b :: t) := by
  induction hlength : s.length using Nat.strongRecOn generalizing s with
  | _ n ih =>
      subst hlength
      cases s with
      | nil => rfl
      | cons d rest =>
          cases hdecode : decodeRune (d :: rest) with
          | none =>
              have hnone := decodeRune_append_none (List.cons_ne_nil d rest) hdecode hstart t
              rw [text_of_invalid hdecode, List.cons_append, List.cons_append, ← ih rest.length (by simp) rest rfl]
              exact text_of_invalid hnone
          | some found =>
              obtain ⟨c, after⟩ := found
              have hbytes := congrArg List.length (encodeChar_of_decodeRune hdecode)
              have hpos := encodeChar_pos c
              rw [List.length_append] at hbytes
              rw [text_of_decode hdecode, text_of_decode (decodeRune_append hdecode (b :: t)), ih after.length (by omega) after rfl]
              rfl

-- An ASCII character of the text is one of its bytes.
theorem mem_of_mem_text {s : Bytes} {c : Char} (hc : c ∈ text s) (hascii : c.toNat < 0x80) : UInt8.ofNat c.toNat ∈ s := by
  induction hlength : s.length using Nat.strongRecOn generalizing s with
  | _ n ih =>
      subst hlength
      cases s with
      | nil => cases hc
      | cons b rest =>
          cases hdecode : decodeRune (b :: rest) with
          | none =>
              rw [text_of_invalid hdecode] at hc
              rcases List.mem_cons.1 hc with rfl | hc
              · exact absurd hascii (by decide)
              · exact List.mem_cons_of_mem b (ih rest.length (by simp) hc rfl)
          | some found =>
              obtain ⟨d, after⟩ := found
              have hbytes := encodeChar_of_decodeRune hdecode
              have hlength := congrArg List.length hbytes
              have hpos := encodeChar_pos d
              rw [List.length_append] at hlength
              rw [text_of_decode hdecode] at hc
              rw [hbytes]
              rcases List.mem_cons.1 hc with rfl | hc
              · rw [encodeChar_ascii hascii]
                exact List.mem_append_left _ List.mem_cons_self
              · exact List.mem_append_right _ (ih after.length (by omega) hc rfl)

end

-- The zero byte stands for the zero character only.
theorem eq_zero_of_zero_mem_encodeChar {c : Char} (h : 0 ∈ String.utf8EncodeChar c) : c.toNat = 0 := by
  have hzero {n : Nat} (hn : n < 256) (h : (0 : UInt8) = UInt8.ofNat n) : n = 0 := by
    have hnat := congrArg UInt8.toNat h
    rw [UInt8.toNat_ofNat', Nat.mod_eq_of_lt hn] at hnat
    exact hnat.symm
  revert h
  fun_cases String.utf8EncodeChar c with
  | case1 v hv =>
      intro h
      have hn : v = 0 := hzero (by omega) (List.mem_singleton.1 h)
      exact hn
  | case2 v hv hv' =>
      intro h
      simp only [List.mem_cons, List.not_mem_nil, or_false] at h
      rcases h with h | h
      · have := hzero (by omega) h
        omega
      · have := hzero (by omega) h
        omega
  | case3 v hv hv' hv'' =>
      intro h
      simp only [List.mem_cons, List.not_mem_nil, or_false] at h
      rcases h with h | h | h
      · have := hzero (by omega) h
        omega
      · have := hzero (by omega) h
        omega
      · have := hzero (by omega) h
        omega
  | case4 v hv hv' hv'' =>
      intro h
      simp only [List.mem_cons, List.not_mem_nil, or_false] at h
      rcases h with h | h | h | h
      · have := hzero (by omega) h
        omega
      · have := hzero (by omega) h
        omega
      · have := hzero (by omega) h
        omega
      · have := hzero (by omega) h
        omega

theorem toNat_eq_zero_of_toLower {c : Char} (h : (toLower c).toNat = 0) : c.toNat = 0 := by
  have hascii : isAscii (toLower c) = true := by simp only [isAscii, h, decide_eq_true_eq, Nat.ofNat_pos]
  rcases isAscii_toLower.1 hascii with hc | hc
  · rw [toLower_ascii hc, asciiLower] at h
    split at h
    · rename_i hupper
      have hz : c.toNat ≤ 'Z'.toNat := hupper.2
      have hnat : 'Z'.toNat = 90 := rfl
      rw [Utf8.toNat_ofNat (.inl (by omega))] at h
      omega
    · exact h
  · rw [toLower_lookalike hc] at h
    rcases lookalike_iff.1 hc with rfl | rfl
    · cases h
    · cases h

theorem zero_notMem_lowerBytes {s : Bytes} (h : 0 ∉ s) : 0 ∉ lowerBytes s := by
  intro hmem
  obtain ⟨d, hd, hbyte⟩ := List.mem_flatMap.1 hmem
  obtain ⟨c, hc, rfl⟩ := List.mem_map.1 hd
  have hzero : c.toNat = 0 := toNat_eq_zero_of_toLower (eq_zero_of_zero_mem_encodeChar hbyte)
  have hbyte := mem_of_mem_text hc (by omega)
  rw [hzero] at hbyte
  exact h hbyte

end Unicode

end AutoDeploy.Lib
