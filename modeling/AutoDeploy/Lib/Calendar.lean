import AutoDeploy.Lib.Bytes
import AutoDeploy.Lib.Forms

namespace AutoDeploy.Lib

-- Times as their calendar shows them in a zone, and their text.
structure TimeFields where
  year : Int
  month : Nat
  day : Nat
  hour : Nat
  minute : Nat
  second : Nat
  nanosecond : Nat
  -- Minutes east of UTC.
  offset : Int
deriving DecidableEq

namespace TimeFields

def leap (year : Int) : Bool := decide (year % 4 = 0 ∧ (year % 100 ≠ 0 ∨ year % 400 = 0))

def daysIn (month : Nat) (year : Int) : Nat :=
  if month = 2 then if leap year then 29 else 28
  else if month = 4 ∨ month = 6 ∨ month = 9 ∨ month = 11 then 30
  else 31

def Valid (t : TimeFields) : Prop :=
  (1 ≤ t.month ∧ t.month ≤ 12) ∧ (1 ≤ t.day ∧ t.day ≤ daysIn t.month t.year) ∧ t.hour < 24 ∧ t.minute < 60 ∧
    t.second < 60 ∧ t.nanosecond < 10 ^ 9 ∧ t.offset.natAbs < 24 * 60

instance (t : TimeFields) : Decidable t.Valid := inferInstanceAs (Decidable (_ ∧ _))

-- Days since January 1, year 1.
def dayNumber (t : TimeFields) : Int :=
  let y : Int := t.year - 1
  365 * y + y / 4 - y / 100 + y / 400 + (((List.range (t.month - 1)).map fun m => daysIn (m + 1) t.year).sum : Nat) + t.day - 1

-- Nanoseconds since January 1, year 1, 00:00:00 UTC.
def instant (t : TimeFields) : Int :=
  (((t.dayNumber * 24 + t.hour) * 60 + t.minute - t.offset) * 60 + t.second) * 10 ^ 9 + t.nanosecond

end TimeFields

structure CalendarTime where
  fields : TimeFields
  valid : fields.Valid
deriving DecidableEq

namespace CalendarTime

open TimeFields

def check (t : TimeFields) : Option CalendarTime := if h : t.Valid then some ⟨t, h⟩ else none

-- January 1, year 1, 00:00:00 UTC.
def zero : CalendarTime := ⟨⟨1, 1, 1, 0, 0, 0, 0, 0⟩, by decide⟩

def instant (t : CalendarTime) : Int := t.fields.instant

def isZero (t : CalendarTime) : Bool := t.instant == 0

def before (t u : CalendarTime) : Bool := decide (t.instant < u.instant)

example : instant ⟨⟨1970, 1, 1, 0, 0, 0, 0, 0⟩, by decide⟩ = 62135596800 * 10 ^ 9 := by decide +kernel

-- Digits to a fixed width.
def fixed : Nat → Nat → Bytes
  | 0, _ => []
  | width + 1, n => fixed width (n / 10) ++ [UInt8.ofNat (48 + n % 10)]

-- How many digits a number has.
def digitCount : Nat → Nat → Nat
  | 0, _ => 0
  | fuel + 1, n => if n = 0 then 0 else digitCount fuel (n / 10) + 1

-- The width that a year's digits are padded to.
def yearWidth (year : Int) : Nat := max 4 (digitCount year.natAbs year.natAbs)

-- At least four digits, behind a sign before the year 0.
def yearText (year : Int) : Bytes := (if year < 0 then [0x2d] else []) ++ fixed (yearWidth year) year.natAbs

-- The digits of a number of nanoseconds after the point, without the zeros at the end.
def fraction (nanosecond : Nat) : Bytes :=
  if nanosecond = 0 then [] else 0x2e :: ((fixed 9 nanosecond).reverse.dropWhile fun b => b = 0x30).reverse

def zone (offset : Int) : Bytes :=
  if offset = 0 then [0x5a]
  else (if offset < 0 then 0x2d else 0x2b) :: (fixed 2 (offset.natAbs / 60) ++ 0x3a :: fixed 2 (offset.natAbs % 60))

def format (t : CalendarTime) : Bytes :=
  yearText t.fields.year ++ 0x2d :: (fixed 2 t.fields.month ++ 0x2d :: (fixed 2 t.fields.day ++
    0x54 :: (fixed 2 t.fields.hour ++ 0x3a :: (fixed 2 t.fields.minute ++ 0x3a :: (fixed 2 t.fields.second ++
      (fraction t.fields.nanosecond ++ zone t.fields.offset))))))

@[simp] theorem length_fixed (width n : Nat) : (fixed width n).length = width := by
  induction width generalizing n with
  | zero => rfl
  | succ width ih => rw [fixed, List.length_append, ih]; rfl

theorem fixed_injective {width n m : Nat} (hn : n < 10 ^ width) (hm : m < 10 ^ width)
    (h : fixed width n = fixed width m) : n = m := by
  induction width generalizing n m with
  | zero =>
      simp only [pow_zero] at hn hm
      omega
  | succ width ih =>
      rw [pow_succ] at hn hm
      obtain ⟨hhigh, hlow⟩ := List.append_inj h (by simp)
      have hdiv : n / 10 = m / 10 := ih (by omega) (by omega) hhigh
      have hmod := congrArg UInt8.toNat (List.singleton_inj.1 hlow)
      simp only [UInt8.toNat_ofNat'] at hmod
      omega

theorem mem_fixed {width n : Nat} {b : UInt8} (h : b ∈ fixed width n) : 48 ≤ b ∧ b ≤ 57 := by
  induction width generalizing n with
  | zero => exact absurd h List.not_mem_nil
  | succ width ih =>
      rcases List.mem_append.1 h with h | h
      · exact ih h
      · rw [List.mem_singleton.1 h, UInt8.le_iff_toNat_le, UInt8.le_iff_toNat_le, UInt8.toNat_ofNat',
          Nat.mod_eq_of_lt (by omega)]
        simp only [UInt8.reduceToNat]
        omega

theorem lt_pow_digitCount {fuel n : Nat} (h : n ≤ fuel) : n < 10 ^ digitCount fuel n := by
  induction fuel generalizing n with
  | zero =>
      have hn : n = 0 := by omega
      simp [hn, digitCount]
  | succ fuel ih =>
      rw [digitCount]
      split
      · rename_i hn
        simp [hn]
      · have hrest := ih (n := n / 10) (by omega)
        rw [pow_succ]
        omega

theorem natAbs_of_digits {year year' : Int}
    (h : fixed (yearWidth year) year.natAbs = fixed (yearWidth year') year'.natAbs) : year.natAbs = year'.natAbs := by
  have hbound (year : Int) : year.natAbs < 10 ^ yearWidth year :=
    Nat.lt_of_lt_of_le (lt_pow_digitCount (le_refl _)) (Nat.pow_le_pow_right (by decide) (le_max_right _ _))
  have hwidth := congrArg List.length h
  rw [length_fixed, length_fixed] at hwidth
  have hyear := hbound year
  rw [hwidth] at h hyear
  exact fixed_injective hyear (hbound year') h

theorem digits_no_sign (width n : Nat) : (0x2d : UInt8) ∉ fixed width n :=
  fun hmem => absurd (mem_fixed hmem).1 (by decide)

theorem yearText_of_neg {year : Int} (h : year < 0) : yearText year = 0x2d :: fixed (yearWidth year) year.natAbs := by
  rw [yearText, if_pos h]
  rfl

theorem yearText_of_nonneg {year : Int} (h : ¬ year < 0) : yearText year = fixed (yearWidth year) year.natAbs := by
  rw [yearText, if_neg h]
  rfl

-- Digits do not start with a sign.
theorem digits_ne_sign {year : Int} {s t : Bytes} : fixed (yearWidth year) year.natAbs ++ s ≠ 0x2d :: t := by
  intro h
  cases hdigits : fixed (yearWidth year) year.natAbs with
  | nil =>
      have hlength := congrArg List.length hdigits
      rw [length_fixed, List.length_nil, yearWidth] at hlength
      omega
  | cons b rest =>
      rw [hdigits, List.cons_append] at h
      have hmem : b ∈ fixed (yearWidth year) year.natAbs := hdigits ▸ List.mem_cons_self
      rw [(List.cons.inj h).1] at hmem
      exact digits_no_sign _ _ hmem

-- The year ends at the first hyphen behind its sign.
theorem yearText_cut {year year' : Int} {s t : Bytes} (h : yearText year ++ 0x2d :: s = yearText year' ++ 0x2d :: t) :
    year = year' ∧ s = t := by
  by_cases hneg : year < 0
  · by_cases hneg' : year' < 0
    · rw [yearText_of_neg hneg, yearText_of_neg hneg'] at h
      obtain ⟨hdigits, hrest⟩ := Form.cut_unique (digits_no_sign _ _) (digits_no_sign _ _) (List.cons.inj h).2
      have := natAbs_of_digits hdigits
      exact ⟨by omega, hrest⟩
    · rw [yearText_of_neg hneg, yearText_of_nonneg hneg'] at h
      exact absurd h.symm digits_ne_sign
  · by_cases hneg' : year' < 0
    · rw [yearText_of_nonneg hneg, yearText_of_neg hneg'] at h
      exact absurd h digits_ne_sign
    · rw [yearText_of_nonneg hneg, yearText_of_nonneg hneg'] at h
      obtain ⟨hdigits, hrest⟩ := Form.cut_unique (digits_no_sign _ _) (digits_no_sign _ _) h
      have := natAbs_of_digits hdigits
      exact ⟨by omega, hrest⟩

-- The zeros that were left out come back.
theorem trim_pad (digits : Bytes) :
    (digits.reverse.dropWhile fun b => b = 0x30).reverse ++
      List.replicate (digits.length - (digits.reverse.dropWhile fun b => b = 0x30).reverse.length) 0x30 = digits := by
  have hsplit := List.takeWhile_append_dropWhile (p := fun b : UInt8 => decide (b = 0x30)) (l := digits.reverse)
  have hlength := congrArg List.length hsplit
  rw [List.length_append, List.length_reverse] at hlength
  have hzeros : digits.reverse.takeWhile (fun b => decide (b = 0x30)) =
      List.replicate (digits.length - (digits.reverse.dropWhile fun b => b = 0x30).reverse.length) 0x30 := by
    rw [List.eq_replicate_iff]
    refine ⟨by rw [List.length_reverse]; omega, fun b hb => ?_⟩
    simpa using List.all_eq_true.1 List.all_takeWhile b hb
  have hreverse := congrArg List.reverse hsplit
  rw [List.reverse_append, List.reverse_reverse, hzeros, List.reverse_replicate] at hreverse
  exact hreverse


theorem fraction_injective {n m : Nat} (hn : n < 10 ^ 9) (hm : m < 10 ^ 9) (h : fraction n = fraction m) : n = m := by
  unfold fraction at h
  by_cases hn₀ : n = 0
  · by_cases hm₀ : m = 0
    · omega
    · rw [if_pos hn₀, if_neg hm₀] at h
      cases h
  · by_cases hm₀ : m = 0
    · rw [if_neg hn₀, if_pos hm₀] at h
      cases h
    · rw [if_neg hn₀, if_neg hm₀] at h
      have hkept := (List.cons.inj h).2
      have hpad := trim_pad (fixed 9 n)
      rw [hkept, length_fixed] at hpad
      have hpad' := trim_pad (fixed 9 m)
      rw [length_fixed] at hpad'
      exact fixed_injective hn hm (hpad.symm.trans hpad')

theorem daysIn_le (month : Nat) (year : Int) : daysIn month year ≤ 31 := by
  unfold daysIn
  split
  · split <;> omega
  · split <;> omega

-- Two digits and what follows them.
theorem fixed_two_cut {n m : Nat} {s t : Bytes} (h : fixed 2 n ++ s = fixed 2 m ++ t) (hn : n < 100) (hm : m < 100) :
    n = m ∧ s = t := by
  obtain ⟨hdigits, hrest⟩ := List.append_inj h (by simp)
  exact ⟨fixed_injective hn hm hdigits, hrest⟩

-- The text of a time in UTC determines it.
theorem format_injective {t u : CalendarTime} (ht : t.fields.offset = 0) (hu : u.fields.offset = 0)
    (h : format t = format u) : t = u := by
  obtain ⟨⟨year, month, day, hour, minute, second, nanosecond, offset⟩, hvalid⟩ := t
  obtain ⟨⟨year', month', day', hour', minute', second', nanosecond', offset'⟩, hvalid'⟩ := u
  obtain ⟨⟨-, hmonth⟩, ⟨-, hday⟩, hhour, hminute, hsecond, hnano, -⟩ := id hvalid
  obtain ⟨⟨-, hmonth'⟩, ⟨-, hday'⟩, hhour', hminute', hsecond', hnano', -⟩ := id hvalid'
  have hdays := daysIn_le month year
  have hdays' := daysIn_le month' year'
  simp only at ht hu hmonth hday hhour hminute hsecond hnano hmonth' hday' hhour' hminute' hsecond' hnano'
  subst ht hu
  simp only [format] at h
  obtain ⟨rfl, h₁⟩ := yearText_cut h
  obtain ⟨rfl, h₂⟩ := fixed_two_cut h₁ (by omega) (by omega)
  obtain ⟨rfl, h₃⟩ := fixed_two_cut (List.cons.inj h₂).2 (by omega) (by omega)
  obtain ⟨rfl, h₄⟩ := fixed_two_cut (List.cons.inj h₃).2 (by omega) (by omega)
  obtain ⟨rfl, h₅⟩ := fixed_two_cut (List.cons.inj h₄).2 (by omega) (by omega)
  obtain ⟨rfl, h₆⟩ := fixed_two_cut (List.cons.inj h₅).2 (by omega) (by omega)
  obtain rfl := fraction_injective hnano hnano' (List.append_cancel_right h₆)
  rfl

end CalendarTime

end AutoDeploy.Lib
