import Mathlib.Data.Rat.Floor

/-!
# Arithmetic with a rounding

A floating-point operation gives the exact result, rounded.  A computation that takes
the rounding as a parameter has its exact meaning with `exact`, and the one of a binary
format with `nearestEven`, and what is proved for every rounding holds of both.
-/

namespace QuicOnNs3.FloatingPoint

/-- How a result is rounded.  Zero is a value of every format. -/
structure Rounding where
  round : ℚ → ℚ
  round_zero : round 0 = 0

namespace Rounding

/-- A product, rounded. -/
def mul (R : Rounding) (x y : ℚ) : ℚ := R.round (x * y)

theorem mul_round_zero (R : Rounding) (x : ℚ) : R.mul x (R.round 0) = 0 := by
  rw [mul, R.round_zero, mul_zero, R.round_zero]

end Rounding

/-- No rounding. -/
def exact : Rounding where
  round x := x
  round_zero := rfl

/-! ## Binary formats -/

/-- The `e` with `2 ^ e ≤ |x| < 2 ^ (e + 1)`, for an `x` that is not 0. -/
def exponent (x : ℚ) : ℤ :=
  let e : ℤ := x.num.natAbs.log2 - x.den.log2
  if |x| < 2 ^ e then e - 1 else e

/-- The nearest integer, and the even one of two. -/
def roundHalfEven (x : ℚ) : ℤ :=
  let n := x.floor
  let rest := 2 * (x - n)
  if rest < 1 ∨ (rest = 1 ∧ n % 2 = 0) then n else n + 1

/-- The rounding to `p` significant bits, to the nearest and ties to even, of a format
whose exponents are not exceeded. -/
def nearestEven (p : ℕ) : Rounding where
  round x :=
    let ulp : ℚ := 2 ^ (exponent x + 1 - p)
    roundHalfEven (x / ulp) * ulp
  round_zero := by
    have hzero : roundHalfEven (0 / 2 ^ (exponent 0 + 1 - p)) = 0 := by
      rw [zero_div]
      decide +kernel
    simp only [hzero, Int.cast_zero, zero_mul]

/-- `double`. -/
def double : Rounding := nearestEven 53

/-- `float`. -/
def single : Rounding := nearestEven 24

/-! ## Conversion to an integer -/

/-- The integer part. -/
def truncate (x : ℚ) : ℤ := x.num.tdiv x.den

theorem truncate_natCast_div (a b : ℕ) : truncate ((a : ℚ) / b) = (a / b : ℕ) := by
  have hnonneg : 0 ≤ ((a : ℚ) / b).num := Rat.num_nonneg.2 (by positivity)
  rw [truncate, Int.tdiv_eq_ediv_of_nonneg hnonneg, ← Rat.floor_def']
  exact Rat.floor_natCast_div_natCast a b

end QuicOnNs3.FloatingPoint
