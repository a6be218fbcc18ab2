import AutoDeploy.Lib.Bytes

namespace AutoDeploy.Lib

-- UTF-8 text as byte strings: decoding with one replacement for each run of invalid bytes, white
-- space, and cuts that never split an encoded character.
namespace Utf8

def continuation (b : UInt8) : Bool := decide (0x80 ≤ b) && decide (b ≤ 0xbf)

def low (b : UInt8) : Nat := b.toNat % 64

-- The bounds on the second byte exclude overlong forms, surrogates and values past U+10FFFF.
def secondByteOk (first second : UInt8) : Bool :=
  let lower : UInt8 := if first = 0xe0 then 0xa0 else if first = 0xf0 then 0x90 else 0x80
  let upper : UInt8 := if first = 0xed then 0x9f else if first = 0xf4 then 0x8f else 0xbf
  decide (lower ≤ second) && decide (second ≤ upper)

-- The first character, when the bytes start with a well-formed encoding.
def decodeRune : Bytes → Option (Char × Bytes)
  | [] => none
  | b0 :: rest =>
      if b0 < 0x80 then some (Char.ofNat b0.toNat, rest)
      else if 0xc2 ≤ b0 ∧ b0 ≤ 0xdf then
        match rest with
        | b1 :: rest =>
            if continuation b1 then some (Char.ofNat ((b0.toNat % 32) * 64 + low b1), rest) else none
        | _ => none
      else if 0xe0 ≤ b0 ∧ b0 ≤ 0xef then
        match rest with
        | b1 :: b2 :: rest =>
            if secondByteOk b0 b1 && continuation b2 then
              some (Char.ofNat (((b0.toNat % 16) * 64 + low b1) * 64 + low b2), rest)
            else none
        | _ => none
      else if 0xf0 ≤ b0 ∧ b0 ≤ 0xf4 then
        match rest with
        | b1 :: b2 :: b3 :: rest =>
            if secondByteOk b0 b1 && continuation b2 && continuation b3 then
              some (Char.ofNat ((((b0.toNat % 8) * 64 + low b1) * 64 + low b2) * 64 + low b3), rest)
            else none
        | _ => none
      else none

-- Whether the bytes are well-formed UTF-8 throughout. The fuel bounds the characters by the bytes.
def validAux : Nat → Bytes → Bool
  | _, [] => true
  | 0, _ :: _ => false
  | fuel + 1, b :: rest =>
      match decodeRune (b :: rest) with
      | some (_, rest) => validAux fuel rest
      | none => false

def validString (s : Bytes) : Bool := validAux s.length s

def encode (text : List Char) : Bytes := text.flatMap String.utf8EncodeChar

theorem ofString_eq_encode (s : String) : Bytes.ofString s = encode s.toList := by
  rw [Bytes.ofString, String.toUTF8, ← String.utf8Encode_toList, List.utf8Encode]
  simp [encode]

theorem encodeChar_ascii {c : Char} (h : c.toNat < 0x80) : String.utf8EncodeChar c = [UInt8.ofNat c.toNat] := by
  have hv : c.val.toNat < 0x80 := h
  fun_cases String.utf8EncodeChar c with
  | case1 v hle => rfl
  | case2 v hle => omega
  | case3 v hle => omega
  | case4 v hle => omega

-- A one-byte character is written as its own number.
theorem encode_ascii {text : List Char} (h : ∀ c ∈ text, c.toNat < 0x80) :
    encode text = text.map fun c => UInt8.ofNat c.toNat := by
  induction text with
  | nil => rfl
  | cons c text ih =>
      have hrest := ih fun d hd => h d (List.mem_cons_of_mem _ hd)
      rw [encode, List.flatMap_cons, encodeChar_ascii (h c List.mem_cons_self), List.map_cons, ← hrest]
      rfl

theorem mem_ofString_ascii {s : String} (h : ∀ c ∈ s.toList, c.toNat < 0x80) {b : UInt8} (hb : b ∈ Bytes.ofString s) :
    ∃ c ∈ s.toList, c.toNat = b.toNat := by
  rw [ofString_eq_encode, encode_ascii h] at hb
  obtain ⟨c, hc, rfl⟩ := List.mem_map.1 hb
  refine ⟨c, hc, ?_⟩
  have hlt := h c hc
  rw [UInt8.toNat_ofNat', Nat.mod_eq_of_lt (by omega)]

-- The fuel bounds the characters left to decode by the bytes left.
def toValidAux (replacement : Char) : Nat → Bool → Bytes → List Char
  | 0, _, _ => []
  | _ + 1, _, [] => []
  | fuel + 1, replaced, b :: rest =>
      match decodeRune (b :: rest) with
      | some (c, rest) => c :: toValidAux replacement fuel false rest
      | none =>
          if replaced then toValidAux replacement fuel true rest
          else replacement :: toValidAux replacement fuel true rest

def toValid (replacement : Char) (s : Bytes) : List Char := toValidAux replacement s.length false s

def isControl (c : Char) : Bool :=
  decide (c.toNat < 0x20) || (decide (0x7f ≤ c.toNat) && decide (c.toNat < 0xa0))

def isSpace (c : Char) : Bool :=
  (decide (0x09 ≤ c.toNat) && decide (c.toNat ≤ 0x0d)) || c.toNat == 0x20 || c.toNat == 0x85 ||
    c.toNat == 0xa0 || c.toNat == 0x1680 || (decide (0x2000 ≤ c.toNat) && decide (c.toNat ≤ 0x200a)) ||
    c.toNat == 0x2028 || c.toNat == 0x2029 || c.toNat == 0x202f || c.toNat == 0x205f || c.toNat == 0x3000

def trimSpace (text : List Char) : List Char :=
  ((text.dropWhile isSpace).reverse.dropWhile isSpace).reverse

def runeStart (b : UInt8) : Bool := b &&& 0xc0 != 0x80

-- Step back from a cut position to the start of a character.
def runeCut (s : Bytes) : Nat → Nat
  | 0 => 0
  | n + 1 => if runeStart (s.getD (n + 1) 0) then n + 1 else runeCut s n

def truncateOnRuneBoundary (s : Bytes) (maxBytes : Nat) : Bytes :=
  if maxBytes = 0 then []
  else if s.length ≤ maxBytes then s
  else s.take (runeCut s maxBytes)

def contains : Bytes → Bytes → Bool
  | [], sub => sub.isEmpty
  | b :: rest, sub => sub.isPrefixOf (b :: rest) || contains rest sub

private theorem runeStart_of_first (b : UInt8) (h : b.IsUTF8FirstByte) : runeStart b = true := by
  have hall : ∀ n : Fin 256, (UInt8.ofNat n).IsUTF8FirstByte → runeStart (UInt8.ofNat n) = true := by
    decide +kernel
  have hb : UInt8.ofNat b.toNat = b := UInt8.ofNat_toNat
  rw [← hb]
  exact hall ⟨b.toNat, b.toNat_lt⟩ (by rw [hb]; exact h)

-- An encoded character starts a rune.
theorem runeStart_head (c : Char) (rest : Bytes) : runeStart ((String.utf8EncodeChar c ++ rest).getD 0 0) = true := by
  have hlen : 0 < (String.utf8EncodeChar c).length := by
    simp [Char.utf8Size_pos]
  have hfirst : ((String.utf8EncodeChar c)[0]).IsUTF8FirstByte := by simp
  refine runeStart_of_first _ ?_
  rw [List.getD_eq_getElem?_getD, List.getElem?_append_left hlen, List.getElem?_eq_getElem hlen]
  exact hfirst

theorem runeCut_pos (s : Bytes) (n : Nat) (h : runeStart (s.getD 1 0) = true) : 0 < runeCut s (n + 1) := by
  induction n with
  | zero =>
      unfold runeCut
      rw [if_pos h]
      omega
  | succ n ih =>
      unfold runeCut
      split
      · omega
      · exact ih

-- A text that starts with a one-byte character keeps it through every cut.
theorem truncate_ne_nil {b : UInt8} {text : List Char} {maxBytes : Nat} (hmax : 0 < maxBytes) :
    truncateOnRuneBoundary (b :: encode text) maxBytes ≠ [] := by
  obtain ⟨n, rfl⟩ : ∃ n, maxBytes = n + 1 := ⟨maxBytes - 1, by omega⟩
  unfold truncateOnRuneBoundary
  rw [if_neg (by omega)]
  split
  · simp
  · rename_i hlong
    cases text with
    | nil => simp [encode] at hlong
    | cons c rest =>
        have hpos := runeCut_pos (b :: encode (c :: rest)) n (runeStart_head c (encode rest))
        rw [Ne, List.take_eq_nil_iff]
        simp
        omega

-- Trimming keeps what starts with a visible character.
theorem trimSpace_cons {c : Char} (hc : isSpace c = false) (text : List Char) :
    ∃ rest, trimSpace (c :: text) = c :: rest := by
  have hfront : (c :: text).dropWhile isSpace = c :: text := by simp [hc]
  rw [trimSpace, hfront, List.reverse_cons, List.dropWhile_append]
  split
  · exact ⟨[], by simp [hc]⟩
  · exact ⟨(text.reverse.dropWhile isSpace).reverse, by simp⟩

theorem toValid_ascii (replacement : Char) {b : UInt8} (hascii : b < 0x80) (rest : Bytes) :
    ∃ text, toValid replacement (b :: rest) = Char.ofNat b.toNat :: text := by
  simp only [toValid, List.length_cons, toValidAux, decodeRune, hascii, if_true]
  exact ⟨_, rfl⟩

theorem toNat_ofNat {n : Nat} (h : n.isValidChar) : (Char.ofNat n).toNat = n := by
  rw [Char.ofNat, dif_pos h]
  rfl

theorem secondByteOk_bounds {b0 b1 : UInt8} (h : secondByteOk b0 b1 = true) :
    0x80 ≤ b1.toNat ∧ b1.toNat ≤ 0xbf ∧ (b0.toNat = 0xe0 → 0xa0 ≤ b1.toNat) ∧ (b0.toNat = 0xf0 → 0x90 ≤ b1.toNat) ∧
      (b0.toNat = 0xed → b1.toNat ≤ 0x9f) ∧ (b0.toNat = 0xf4 → b1.toNat ≤ 0x8f) := by
  have heq (k : UInt8) : b0 = k ↔ b0.toNat = k.toNat := UInt8.toNat_inj.symm
  simp only [secondByteOk, Bool.and_eq_true, decide_eq_true_eq, UInt8.le_iff_toNat_le, heq] at h
  obtain ⟨hlower, hupper⟩ := h
  split_ifs at hlower hupper <;> simp only [UInt8.reduceToNat] at * <;> omega

theorem ofNat_eq_of_toNat {n : Nat} {b : UInt8} (h : n = b.toNat) : UInt8.ofNat n = b := by
  rw [h, UInt8.ofNat_toNat]

theorem continuation_bounds {b : UInt8} (h : continuation b = true) : 0x80 ≤ b.toNat ∧ b.toNat ≤ 0xbf := by
  simpa only [continuation, Bool.and_eq_true, decide_eq_true_eq, UInt8.le_iff_toNat_le, UInt8.reduceToNat] using h

theorem encodeChar_two {n : Nat} (hlow : 0x80 ≤ n) (hhigh : n < 0x800) :
    String.utf8EncodeChar (Char.ofNat n) = [UInt8.ofNat (n / 64 + 0xc0), UInt8.ofNat (n % 64 + 0x80)] := by
  have hv : (Char.ofNat n).val.toNat = n := toNat_ofNat (Or.inl (by omega))
  simp only [String.utf8EncodeChar, hv]
  rw [if_neg (by omega), if_pos (by omega), Nat.mod_eq_of_lt (by omega)]

theorem encodeChar_three {n : Nat} (hvalid : n.isValidChar) (hlow : 0x800 ≤ n) (hhigh : n < 0x10000) :
    String.utf8EncodeChar (Char.ofNat n) =
      [UInt8.ofNat (n / 4096 + 0xe0), UInt8.ofNat (n / 64 % 64 + 0x80), UInt8.ofNat (n % 64 + 0x80)] := by
  have hv : (Char.ofNat n).val.toNat = n := toNat_ofNat hvalid
  simp only [String.utf8EncodeChar, hv]
  rw [if_neg (by omega), if_neg (by omega), if_pos (by omega), Nat.mod_eq_of_lt (by omega)]

theorem encodeChar_four {n : Nat} (hvalid : n.isValidChar) (hlow : 0x10000 ≤ n) :
    String.utf8EncodeChar (Char.ofNat n) = [UInt8.ofNat (n / 262144 + 0xf0), UInt8.ofNat (n / 4096 % 64 + 0x80),
      UInt8.ofNat (n / 64 % 64 + 0x80), UInt8.ofNat (n % 64 + 0x80)] := by
  have hv : (Char.ofNat n).val.toNat = n := toNat_ofNat hvalid
  have hhigh : n < 0x110000 := by
    unfold Nat.isValidChar at hvalid
    omega
  simp only [String.utf8EncodeChar, hv]
  rw [if_neg (by omega), if_neg (by omega), if_neg (by omega), Nat.mod_eq_of_lt (by omega)]

-- What decodes is the encoding of the character it decodes to.
theorem encodeChar_of_decodeRune {s after : Bytes} {c : Char} (h : decodeRune s = some (c, after)) :
    s = String.utf8EncodeChar c ++ after := by
  cases s with
  | nil => cases h
  | cons b rest =>
      rw [decodeRune.eq_def] at h
      dsimp only at h
      split at h
      · rename_i h₀
        simp only [UInt8.lt_iff_toNat_lt, UInt8.reduceToNat] at h₀
        obtain ⟨rfl, rfl⟩ := Prod.mk.inj (Option.some.inj h)
        have hv : (Char.ofNat b.toNat).toNat = b.toNat := toNat_ofNat (Or.inl (by omega))
        rw [encodeChar_ascii (by omega), hv, UInt8.ofNat_toNat]
        rfl
      split at h
      · rename_i h₁
        simp only [UInt8.le_iff_toNat_le, UInt8.reduceToNat] at h₁
        split at h
        · split at h
          · rename_i b1 _ hnext
            have hsecond := continuation_bounds hnext
            obtain ⟨rfl, rfl⟩ := Prod.mk.inj (Option.some.inj h)
            unfold low
            rw [encodeChar_two (by omega) (by omega), ofNat_eq_of_toNat (b := b) (by omega),
              ofNat_eq_of_toNat (b := b1) (by omega)]
            rfl
          · cases h
        · cases h
      split at h
      · rename_i h₂
        simp only [UInt8.le_iff_toNat_le, UInt8.reduceToNat] at h₂
        split at h
        · split at h
          · rename_i b1 b2 _ hnext
            simp only [Bool.and_eq_true] at hnext
            have hsecond := secondByteOk_bounds hnext.1
            have hthird := continuation_bounds hnext.2
            obtain ⟨rfl, rfl⟩ := Prod.mk.inj (Option.some.inj h)
            unfold low
            have hvalid : ((b.toNat % 16 * 64 + b1.toNat % 64) * 64 + b2.toNat % 64).isValidChar := by
              unfold Nat.isValidChar
              omega
            rw [encodeChar_three hvalid (by omega) (by omega), ofNat_eq_of_toNat (b := b) (by omega),
              ofNat_eq_of_toNat (b := b1) (by omega), ofNat_eq_of_toNat (b := b2) (by omega)]
            rfl
          · cases h
        · cases h
      split at h
      · rename_i h₃
        simp only [UInt8.le_iff_toNat_le, UInt8.reduceToNat] at h₃
        split at h
        · split at h
          · rename_i b1 b2 b3 _ hnext
            simp only [Bool.and_eq_true] at hnext
            have hsecond := secondByteOk_bounds hnext.1.1
            have hthird := continuation_bounds hnext.1.2
            have hfourth := continuation_bounds hnext.2
            obtain ⟨rfl, rfl⟩ := Prod.mk.inj (Option.some.inj h)
            unfold low
            have hvalid : (((b.toNat % 8 * 64 + b1.toNat % 64) * 64 + b2.toNat % 64) * 64 + b3.toNat % 64).isValidChar := by
              unfold Nat.isValidChar
              omega
            rw [encodeChar_four hvalid (by omega), ofNat_eq_of_toNat (b := b) (by omega),
              ofNat_eq_of_toNat (b := b1) (by omega), ofNat_eq_of_toNat (b := b2) (by omega),
              ofNat_eq_of_toNat (b := b3) (by omega)]
            rfl
          · cases h
        · cases h
      · cases h

-- A character of more than one byte is outside ASCII.
theorem decodeRune_ascii {b : UInt8} {rest after : Bytes} {c : Char}
    (h : decodeRune (b :: rest) = some (c, after)) (hc : c.toNat < 0x80) : b < 0x80 := by
  have hbytes := encodeChar_of_decodeRune h
  rw [encodeChar_ascii hc] at hbytes
  obtain ⟨rfl, -⟩ := List.cons.inj hbytes
  rw [UInt8.lt_iff_toNat_lt, UInt8.toNat_ofNat', Nat.mod_eq_of_lt (by omega)]
  exact hc

end Utf8

end AutoDeploy.Lib
