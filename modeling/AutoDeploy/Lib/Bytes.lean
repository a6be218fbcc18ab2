import Mathlib.Data.List.Basic
import Mathlib.Tactic.IntervalCases

namespace AutoDeploy.Lib

-- Byte strings, as the wire and the database see text.
abbrev Bytes := List UInt8

namespace Bytes

-- The UTF-8 encoding of a string.
def ofString (s : String) : Bytes := s.toUTF8.data.toList

theorem ofString_append (s t : String) : ofString (s ++ t) = ofString s ++ ofString t := by
  simp [ofString, String.toUTF8, String.toByteArray_append]

theorem ofString_injective : Function.Injective ofString := by
  intro s t h
  refine String.toByteArray_inj.1 (ByteArray.ext ?_)
  exact Array.toList_inj.1 h

theorem ofString_ne_nil {s : String} (h : s ≠ "") : ofString s ≠ [] := by
  have hlength : (ofString s).length = s.utf8ByteSize := by simp [ofString, String.toUTF8]
  intro hnil
  refine h (String.utf8ByteSize_eq_zero_iff.1 ?_)
  rw [← hlength, hnil]
  rfl

def hexDigit (n : Nat) : Char :=
  if n < 10 then Char.ofNat (48 + n) else Char.ofNat (87 + n)

-- Lower-case hexadecimal, two digits for each byte.
def toHex : Bytes → List Char
  | [] => []
  | b :: rest => hexDigit (b.toNat / 16) :: hexDigit (b.toNat % 16) :: toHex rest

def hexValue (c : Char) : Option Nat :=
  if '0' ≤ c ∧ c ≤ '9' then some (c.toNat - 48)
  else if 'a' ≤ c ∧ c ≤ 'f' then some (c.toNat - 87)
  else if 'A' ≤ c ∧ c ≤ 'F' then some (c.toNat - 55)
  else none

def ofHex : List Char → Option Bytes
  | [] => some []
  | [_] => none
  | hi :: lo :: rest =>
      match hexValue hi, hexValue lo, ofHex rest with
      | some h, some l, some bytes => some (UInt8.ofNat (16 * h + l) :: bytes)
      | _, _, _ => none

private theorem hexValue_hexDigit (n : Nat) (hn : n < 16) : hexValue (hexDigit n) = some n := by
  interval_cases n <;> decide

private theorem ofNat_nibbles (b : UInt8) : UInt8.ofNat (16 * (b.toNat / 16) + b.toNat % 16) = b := by
  rw [Nat.div_add_mod, UInt8.ofNat_toNat]

theorem mem_toHex {bytes : Bytes} {c : Char} (h : c ∈ toHex bytes) : ∃ n < 16, c = hexDigit n := by
  induction bytes with
  | nil => exact absurd h List.not_mem_nil
  | cons b rest ih =>
      have hb := b.toNat_lt
      rcases List.mem_cons.1 h with rfl | h
      · exact ⟨b.toNat / 16, by omega, rfl⟩
      · rcases List.mem_cons.1 h with rfl | h
        · exact ⟨b.toNat % 16, by omega, rfl⟩
        · exact ih h

@[simp] theorem ofHex_toHex (bytes : Bytes) : ofHex (toHex bytes) = some bytes := by
  induction bytes with
  | nil => rfl
  | cons b rest ih =>
      have hhi : b.toNat / 16 < 16 := by
        have := b.toNat_lt
        omega
      have hlo : b.toNat % 16 < 16 := Nat.mod_lt _ (by decide)
      simp only [toHex, ofHex, hexValue_hexDigit _ hhi, hexValue_hexDigit _ hlo, ih, ofNat_nibbles]

-- Big-endian encoding of a number in a fixed number of bytes.
def bigEndian (n : Nat) : Nat → Bytes
  | 0 => []
  | k + 1 => bigEndian (n / 256) k ++ [UInt8.ofNat n]

@[simp] theorem length_bigEndian (n k : Nat) : (bigEndian n k).length = k := by
  induction k generalizing n with
  | zero => rfl
  | succ k ih => simp [bigEndian, ih]

end Bytes

end AutoDeploy.Lib
