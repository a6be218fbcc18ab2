import AutoDeploy.Lib.Forms
import AutoDeploy.Lib.Utf8

namespace AutoDeploy.Lib.Bytes

-- Numbers that fit into the width are told apart by their bytes.
theorem bigEndian_injective {k n m : Nat} (hn : n < 256 ^ k) (hm : m < 256 ^ k) (h : bigEndian n k = bigEndian m k) :
    n = m := by
  induction k generalizing n m with
  | zero =>
      simp only [pow_zero] at hn hm
      omega
  | succ k ih =>
      rw [pow_succ] at hn hm
      obtain ⟨hhigh, hlow⟩ := List.append_inj h (by simp)
      have hdiv : n / 256 = m / 256 := ih (by omega) (by omega) hhigh
      have hmod : n % 256 = m % 256 := by
        have := congrArg UInt8.toNat (List.singleton_inj.1 hlow)
        simpa using this
      omega

-- Fields one after the other, each behind its own length in a fixed number of bytes.
def prefixed (width : Nat) (fields : List Bytes) : Bytes :=
  fields.flatMap fun field => bigEndian field.length width ++ field

theorem prefixed_cons (width : Nat) (field : Bytes) (rest : List Bytes) :
    prefixed width (field :: rest) = bigEndian field.length width ++ (field ++ prefixed width rest) := by
  simp [prefixed]

-- The encoding determines the fields and how many there are, whatever bytes they hold.
theorem prefixed_injective {width : Nat} (hwidth : 0 < width) {xs ys : List Bytes}
    (hxs : ∀ field ∈ xs, field.length < 256 ^ width) (hys : ∀ field ∈ ys, field.length < 256 ^ width)
    (h : prefixed width xs = prefixed width ys) : xs = ys := by
  have hlong (field : Bytes) (rest : List Bytes) : prefixed width (field :: rest) ≠ [] := by
    intro hnil
    have hlength := congrArg List.length hnil
    simp only [prefixed_cons, List.length_append, length_bigEndian, List.length_nil] at hlength
    omega
  induction xs generalizing ys with
  | nil =>
      cases ys with
      | nil => rfl
      | cons y ys => exact absurd h.symm (hlong y ys)
  | cons x xs ih =>
      cases ys with
      | nil => exact absurd h (hlong x xs)
      | cons y ys =>
          simp only [List.mem_cons, forall_eq_or_imp] at hxs hys
          rw [prefixed_cons, prefixed_cons] at h
          obtain ⟨hsize, hrest⟩ := List.append_inj h (by simp)
          -- the lengths agree first, and they say where the field ends
          have hlength : x.length = y.length := bigEndian_injective hxs.1 hys.1 hsize
          obtain ⟨hfield, htail⟩ := List.append_inj hrest hlength
          rw [hfield, ih hxs.2 hys.2 htail]

-- The decimal digits of a number.
def decimal (n : Nat) : Bytes := ofString (toString n)

theorem decimal_injective {n m : Nat} (h : decimal n = decimal m) : n = m := by
  have htext := congrArg String.toList (ofString_injective h)
  rw [Nat.toString_eq_repr, Nat.toString_eq_repr, Nat.toList_repr, Nat.toList_repr] at htext
  have hvalue := congrArg (Nat.ofDigitChars 10 · 0) htext
  simpa [Nat.ofDigitChars_toDigits] using hvalue

-- A digit's encoding is the digit's own byte.
theorem encodeChar_of_isDigit {c : Char} (h : c.isDigit = true) {b : UInt8} (hb : b ∈ String.utf8EncodeChar c) :
    48 ≤ b ∧ b ≤ 57 := by
  simp only [Char.isDigit, Bool.and_eq_true, decide_eq_true_eq] at h
  have hlow : 48 ≤ c.val.toNat := h.1
  have hhigh : c.val.toNat ≤ 57 := h.2
  revert hb
  fun_cases String.utf8EncodeChar c with
  | case1 v hv =>
      intro hb
      rw [List.mem_singleton.1 hb, UInt8.le_iff_toNat_le, UInt8.le_iff_toNat_le, UInt8.toNat_ofNat',
        Nat.mod_eq_of_lt (show c.val.toNat < 2 ^ 8 by omega)]
      exact ⟨hlow, hhigh⟩
  | case2 v hv => omega
  | case3 v hv => omega
  | case4 v hv => omega

theorem mem_decimal {n : Nat} {b : UInt8} (h : b ∈ decimal n) : 48 ≤ b ∧ b ≤ 57 := by
  rw [decimal, Utf8.ofString_eq_encode, Nat.toString_eq_repr, Nat.toList_repr] at h
  obtain ⟨c, hc, hb⟩ := List.mem_flatMap.1 h
  exact encodeChar_of_isDigit (Nat.isDigit_of_mem_toDigits (by decide) (by decide) hc) hb

-- A whole number in digits, behind a sign when it is negative.
def integer (n : Int) : Bytes := ofString (toString n)

theorem integer_negSucc (n : Nat) : integer (Int.negSucc n) = 45 :: decimal (n + 1) := by
  have htext : toString (Int.negSucc n) = "-" ++ toString (n + 1) := rfl
  rw [integer, htext, ofString_append]
  rfl

theorem integer_injective {n m : Int} (h : integer n = integer m) : n = m := by
  have hsign (k : Nat) : 45 ∉ decimal k := fun hmem => absurd (mem_decimal hmem).1 (by decide)
  cases n with
  | ofNat n =>
      cases m with
      | ofNat m => exact congrArg Int.ofNat (decimal_injective h)
      | negSucc m =>
          rw [integer_negSucc] at h
          have hdigits : decimal n = 45 :: decimal (m + 1) := h
          have hmem : 45 ∈ decimal n := hdigits ▸ List.mem_cons_self
          exact absurd hmem (hsign n)
  | negSucc n =>
      cases m with
      | ofNat m =>
          rw [integer_negSucc] at h
          have hdigits : decimal m = 45 :: decimal (n + 1) := h.symm
          have hmem : 45 ∈ decimal m := hdigits ▸ List.mem_cons_self
          exact absurd hmem (hsign m)
      | negSucc m =>
          rw [integer_negSucc, integer_negSucc] at h
          have hsucc := decimal_injective (List.cons.inj h).2
          rw [Nat.succ.inj hsucc]

-- Fields one after the other, each behind its length in digits and a colon.
def netstrings (fields : List Bytes) : Bytes := fields.flatMap fun field => decimal field.length ++ 58 :: field

theorem netstrings_cons (field : Bytes) (rest : List Bytes) :
    netstrings (field :: rest) = decimal field.length ++ 58 :: (field ++ netstrings rest) := by
  simp [netstrings]

theorem netstrings_injective {xs ys : List Bytes} (h : netstrings xs = netstrings ys) : xs = ys := by
  have hcolon (n : Nat) : 58 ∉ decimal n := fun hmem => absurd (mem_decimal hmem).2 (by decide)
  induction xs generalizing ys with
  | nil =>
      cases ys with
      | nil => rfl
      | cons y ys => simp [netstrings] at h
  | cons x xs ih =>
      cases ys with
      | nil => simp [netstrings] at h
      | cons y ys =>
          rw [netstrings_cons, netstrings_cons] at h
          -- the digits end at the colon, and they say where the field ends
          obtain ⟨hdigits, hrest⟩ := Form.cut_unique (hcolon _) (hcolon _) h
          obtain ⟨hfield, htail⟩ := List.append_inj hrest (decimal_injective hdigits)
          rw [hfield, ih htail]

end AutoDeploy.Lib.Bytes
