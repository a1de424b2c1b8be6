import Mathlib.Algebra.Ring.Int.Defs
import Mathlib.Data.List.Range

/-!
# The number functions of the simulation

`sever.py` and `User_simple.py` hold the same text of these functions: the extended Euclidean algorithm, the Chebyshev
polynomial by its recurrence, and the Chebyshev polynomial by square-and-multiply on the transfer matrix. Integers are
Python's, so `Int`; a modulus is a positive number in every call, and `%` by a positive number is `Int.emod`.
-/

namespace AuthVideo

/-! ## The inverse -/

/-- `extended_gcd`: the gcd of `a` and `b` and the coefficients of Bézout's identity. The depth of its calls is left to the
interpreter, which by default admits about a thousand. -/
def extendedGcd (a b : Nat) : Nat × Int × Int :=
  if _h : a = 0 then (b, 0, 1)
  else
    let (g, x1, y1) := extendedGcd (b % a) a
    (g, y1 - (b / a : Nat) * x1, x1)
termination_by a
decreasing_by exact Nat.mod_lt _ (Nat.pos_of_ne_zero _h)

/-- `mod_inverse`: the inverse of `a` modulo `m`, `none` where Python returns `None`. -/
def modInverse (a m : Nat) : Option Int :=
  let (g, x, _) := extendedGcd a m
  if g ≠ 1 then none else some (x % m)

/-! ## The polynomial by its recurrence -/

/-- `chebyshev_polynomial`: the loop of the recurrence carries the last two values. -/
def chebyshevPolynomial (n : Nat) (x : Int) (p : Nat) : Int :=
  if n = 0 then 1 % p
  else if n = 1 then x % p
  else
    let body := fun (t : Int × Int) (_ : Nat) => (t.2, (2 * (x % p) * t.2 - t.1) % p)
    ((List.range' 2 (n - 1)).foldl body (1 % p, x % p)).2

/-! ## The polynomial by powers of the transfer matrix -/

/-- A matrix as the source has it, a list of rows. -/
abbrev Rows := List (List Int)

/-- `zip(*B)`: the columns of `B`, as long as every row has one. -/
def zipStar : Rows → Rows
  | [] => []
  | [r] => r.map fun x => [x]
  | r :: s :: rs => List.zipWith List.cons r (zipStar (s :: rs))

/-- `sum(a * b for a, b in zip(row, col))`. -/
def dot (row col : List Int) : Int := (List.zipWith (· * ·) row col).sum

/-- `matrix_mod`. -/
def matrixMod (matrix : Rows) (p : Nat) : Rows := matrix.map fun row => row.map fun element => element % p

/-- `matrix_multiply`. -/
def matrixMultiply (A B : Rows) (p : Nat) : Rows := A.map fun row => (zipStar B).map fun col => dot row col % p

/-- The loop of `matrix_power`. -/
def matrixPowerLoop (result base : Rows) (power p : Nat) : Rows :=
  if _h : 0 < power then
    matrixPowerLoop (if power % 2 = 1 then matrixMultiply result base p else result) (matrixMultiply base base p)
      (power / 2) p
  else result
termination_by power
decreasing_by exact Nat.div_lt_self _h (by decide)

/-- `matrix_power`. The loop runs while the power is positive, so a power that is not leaves the identity. -/
def matrixPower (matrix : Rows) (power : Int) (p : Nat) : Rows :=
  let identity := (List.range matrix.length).map fun i => (List.range matrix.length).map fun j => if i = j then 1 else 0
  matrixPowerLoop identity (matrixMod matrix p) power.toNat p

/-- `chebyshev_matrix`. -/
def chebyshevMatrix (n x : Int) (p : Nat) : Int :=
  if n = 0 then 1 % p
  else if n = 1 then x % p
  else
    let transferMatrix := [[2 * x, -1], [1, 0]]
    let poweredMatrix := matrixPower transferMatrix (n - 1) p
    let finalVector := poweredMatrix.map fun row => dot row [x, 1] % p
    finalVector.headD 0

end AuthVideo
