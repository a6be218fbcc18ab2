import Mathlib.Algebra.Group.Nat.Defs
import Mathlib.Data.Int.Order.Basic

namespace AutoDeploy.Lib

-- An instant with the location it is shown in and, if it was read from the running clock, a monotonic reading.
-- Nanoseconds are counted from January 1, year 1, 00:00:00 UTC, the zero instant; no location is UTC.
structure Instant where
  nanoseconds : Int
  location : Option String
  monotonic : Option Int
deriving DecidableEq, Repr

namespace Instant

def isZero (t : Instant) : Bool := t.nanoseconds == 0

-- Two readings of the running clock are compared by it.
def before (t u : Instant) : Bool :=
  match t.monotonic, u.monotonic with
  | some a, some b => decide (a < b)
  | _, _ => decide (t.nanoseconds < u.nanoseconds)

def equal (t u : Instant) : Bool :=
  match t.monotonic, u.monotonic with
  | some a, some b => a == b
  | _, _ => t.nanoseconds == u.nanoseconds

def utc (t : Instant) : Instant := { t with location := none }

-- Rounds down to a multiple since the zero instant and drops the monotonic reading.
def truncate (t : Instant) (d : Int) : Instant :=
  { t with nanoseconds := t.nanoseconds - t.nanoseconds % d, monotonic := none }

-- Seconds since January 1, 1970, as a signed number of 64 bits.
def unix (t : Instant) : Int := (t.nanoseconds / 1000000000 - 62135596800).bmod (2 ^ 64)

def ofUnix (seconds : Int) : Instant := ⟨(seconds + 62135596800).bmod (2 ^ 64) * 1000000000, none, none⟩

def canonicalTime (t : Instant) : Instant := t.utc.truncate 1000

-- What normalisation leaves alone: whole microseconds in UTC.
def Canonical (t : Instant) : Prop := canonicalTime t = t

variable {t u : Instant}

theorem canonical_iff : t.Canonical ↔ t.nanoseconds % 1000 = 0 ∧ t.location = none ∧ t.monotonic = none := by
  obtain ⟨n, location, monotonic⟩ := t
  simp only [Canonical, canonicalTime, utc, truncate, Instant.mk.injEq]
  constructor
  · rintro ⟨hn, rfl, rfl⟩
    exact ⟨by omega, rfl, rfl⟩
  · rintro ⟨hn, rfl, rfl⟩
    exact ⟨by omega, rfl, rfl⟩

theorem canonical_canonicalTime (t : Instant) : (canonicalTime t).Canonical := by
  refine canonical_iff.2 ⟨?_, rfl, rfl⟩
  simp only [canonicalTime, utc, truncate]
  omega

theorem Canonical.eq_of_equal (ht : t.Canonical) (hu : u.Canonical) (h : t.equal u = true) : t = u := by
  obtain ⟨-, hlocation, hmonotonic⟩ := canonical_iff.1 ht
  obtain ⟨-, hlocation', hmonotonic'⟩ := canonical_iff.1 hu
  obtain ⟨n, location, monotonic⟩ := t
  obtain ⟨n', location', monotonic'⟩ := u
  simp only at hlocation hmonotonic hlocation' hmonotonic'
  subst hlocation hmonotonic hlocation' hmonotonic'
  simpa [equal] using h

@[simp] theorem equal_self (t : Instant) : t.equal t = true := by
  unfold equal
  split <;> simp_all

theorem Canonical.before_eq (ht : t.Canonical) : t.before u = decide (t.nanoseconds < u.nanoseconds) := by
  simp [before, (canonical_iff.1 ht).2.2]

@[simp] theorem before_self (t : Instant) : t.before t = false := by
  unfold before
  split <;> simp_all

end Instant

end AutoDeploy.Lib
