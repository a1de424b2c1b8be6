import Mathlib.Algebra.Group.Basic
import Mathlib.Algebra.Group.Nat.Even

/-!
# Binary exponentiation

The invariant of square-and-multiply in a monoid: the accumulated result times the base to the remaining exponent does not
change when the lowest bit of the exponent is consumed.
-/

namespace SquareMultiply

/-- Consuming the lowest bit of the exponent keeps `r * b ^ e`. -/
theorem step {M : Type*} [Monoid M] (r b : M) (e : ℕ) :
    (if e % 2 = 1 then r * b else r) * (b * b) ^ (e / 2) = r * b ^ e := by
  have hsplit : b ^ e = b ^ (e % 2) * (b * b) ^ (e / 2) := by
    conv_lhs => rw [← Nat.mod_add_div e 2]
    rw [pow_add, pow_mul, pow_two]
  rw [hsplit, ← mul_assoc]
  rcases Nat.mod_two_eq_zero_or_one e with h | h <;> simp [h]

end SquareMultiply
