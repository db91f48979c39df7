/-
# Numbers of a database

A floating-point column of PostgreSQL holds numbers, the two infinities and `NaN`; `NaN` is above
everything in the order, so `greatest` keeps it and `least` does not.  A number is rounded to a
double after each operation.  Whatever is clamped to an interval is a number of the interval
(`clamp_mem`).
-/

import LaneBroker.Basis.Rounding
import Mathlib.Data.Rat.Defs
import Mathlib.Order.Lattice
import Mathlib.Algebra.Order.Ring.Rat

namespace LaneBroker
namespace Basis

/-- **A value of `double precision`.** -/
inductive PgFloat
  | num (q : ℚ)
  | infinity
  | negInfinity
  | nan
  deriving DecidableEq, Repr

namespace PgFloat

/-- `a < b`. -/
def lt : PgFloat → PgFloat → Bool
  | _, negInfinity => false
  | negInfinity, _ => true
  | nan, _ => false
  | _, nan => true
  | infinity, _ => false
  | num _, infinity => true
  | num a, num b => a < b

/-- `greatest(a, b)`. -/
def greatest (a b : PgFloat) : PgFloat := if lt a b then b else a

/-- `least(a, b)`. -/
def least (a b : PgFloat) : PgFloat := if lt b a then b else a

/-- `-a`. -/
def neg : PgFloat → PgFloat
  | num a => num (-a)
  | infinity => negInfinity
  | negInfinity => infinity
  | nan => nan

/-- `a + b`. -/
def add : PgFloat → PgFloat → PgFloat
  | num a, num b => num (double.round (a + b))
  | nan, _ | _, nan | infinity, negInfinity | negInfinity, infinity => nan
  | infinity, _ | _, infinity => infinity
  | negInfinity, _ | _, negInfinity => negInfinity

/-- `a - b`. -/
def sub (a b : PgFloat) : PgFloat := add a (neg b)

/-- `c * a`, for a positive constant. -/
def scale (c : ℚ) : PgFloat → PgFloat
  | num a => num (double.round (c * a))
  | infinity => infinity
  | negInfinity => negInfinity
  | nan => nan

/-- `a / b`, for a divisor that is above 0. -/
def div : PgFloat → PgFloat → PgFloat
  | num a, num b => num (double.round (a / b))
  | num _, infinity => num 0
  | infinity, num _ => infinity
  | negInfinity, num _ => negInfinity
  | _, _ => nan

/-- **`least(high, greatest(low, x))`** is a number of the interval, for every `x`. -/
def clamp (low high : ℚ) (x : PgFloat) : ℚ :=
  match least (num high) (greatest (num low) x) with
  | num q => q
  | _ => high

theorem least_greatest_eq_clamp (low high : ℚ) (x : PgFloat) :
    least (num high) (greatest (num low) x) = num (clamp low high x) := by
  unfold clamp
  cases x with
  | num q =>
    by_cases hlow : low < q
    · by_cases hhigh : q < high <;> simp [least, greatest, lt, hlow, hhigh]
    · by_cases hhigh : low < high <;> simp [least, greatest, lt, hlow, hhigh]
  | infinity => simp [least, greatest, lt]
  | negInfinity => by_cases hhigh : low < high <;> simp [least, greatest, lt, hhigh]
  | nan => simp [least, greatest, lt]

theorem clamp_num (low high q : ℚ) : clamp low high (num q) = min high (max low q) := by
  have h := least_greatest_eq_clamp low high (num q)
  unfold least greatest at h
  by_cases hlow : low < q
  · by_cases hhigh : q < high
    · simp only [lt, hlow, hhigh, decide_true, if_true, num.injEq] at h
      rw [← h, max_eq_right hlow.le, min_eq_right hhigh.le]
    · simp only [lt, hlow, hhigh, decide_true, decide_false, if_true, Bool.false_eq_true, if_false,
        num.injEq] at h
      rw [← h, max_eq_right hlow.le, min_eq_left (not_lt.1 hhigh)]
  · by_cases hhigh : low < high
    · simp only [lt, hlow, hhigh, decide_true, decide_false, if_true, Bool.false_eq_true, if_false,
        num.injEq] at h
      rw [← h, max_eq_left (not_lt.1 hlow), min_eq_right hhigh.le]
    · simp only [lt, hlow, hhigh, decide_false, Bool.false_eq_true, if_false, num.injEq] at h
      rw [← h, max_eq_left (not_lt.1 hlow), min_eq_left (not_lt.1 hhigh)]

/-- **What is clamped is in the interval.** -/
theorem clamp_mem {low high : ℚ} (hle : low ≤ high) (x : PgFloat) :
    low ≤ clamp low high x ∧ clamp low high x ≤ high := by
  cases x with
  | num q =>
    rw [clamp_num]
    exact ⟨le_min hle (le_max_left _ _), min_le_left _ _⟩
  | infinity => exact ⟨hle, le_rfl⟩
  | negInfinity =>
    rcases hle.lt_or_eq with hlt | rfl
    · simp [clamp, least, greatest, lt, hlt, hle]
    · simp [clamp, least, greatest, lt]
  | nan => exact ⟨hle, le_rfl⟩

end PgFloat

end Basis
end LaneBroker
