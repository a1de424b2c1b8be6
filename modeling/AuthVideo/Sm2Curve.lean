import Mathlib.Algebra.Ring.Int.Defs
import Mathlib.Data.Int.GCD

/-!
# The curve arithmetic of the SM2 comparison

`compare_2_SM2.py`: the modular inverse, fractions modulo `p`, and the addition, doubling and multiplication of points. A point is a
pair of integers, and the point at infinity is the number 0, here `none`.
-/

namespace AuthVideo

namespace Sm2

/-- The exceptions of the script: those of the interpreter, and those it raises itself with a text. -/
inductive Error where
  | zeroDivisionError
  | typeError
  | indexError
  | syntaxError
  | unicodeError
  | exception (text : String)
  deriving DecidableEq, Repr

/-- A point. -/
abbrev Point := Option (Int × Int)

/-- A remainder is smaller than the divisor. -/
theorem natAbs_fmod_lt (x : Int) {y : Int} (hy : y ≠ 0) : (x.fmod y).natAbs < y.natAbs := by
  rw [Int.fmod_eq_emod]
  have hnonneg := Int.emod_nonneg x hy
  have hlt := Int.emod_lt x hy
  split
  · omega
  · rename_i h
    have hpos : x % y ≠ 0 := fun h0 => h (.inr (Int.dvd_of_emod_eq_zero h0))
    omega

/-- The loop of `calc_inverse`. Python's division rounds down. -/
def calcInverseLoop (u1 u2 u3 v1 v2 v3 : Int) : Int :=
  if _h : v3 ≠ 0 then
    let q := u3.fdiv v3
    calcInverseLoop v1 v2 v3 (u1 - q * v1) (u2 - q * v2) (u3 - q * v3)
  else u1
termination_by v3.natAbs
decreasing_by
  rw [mul_comm, ← Int.fmod_def]
  exact natAbs_fmod_lt u3 _h

/-- `calc_inverse`: `none` where Python returns `None`. -/
def calcInverse (M m : Int) : Except Error (Option Int) :=
  if Int.gcd M m ≠ 1 then .ok none
  else
    let u1 := calcInverseLoop 1 0 M 0 1 m
    if m = 0 then .error .zeroDivisionError else .ok (some (u1.fmod m))

/-- `frac_to_int`: the fraction `up / down` modulo `p`. -/
def fracToInt (up down p : Int) : Except Error Int :=
  let num : Int := Int.gcd up down
  if num = 0 then .error .zeroDivisionError
  else
    match calcInverse (down.fdiv num) p with
    | .error e => .error e
    | .ok none => .error .typeError
    | .ok (some inverse) => .ok ((up.fdiv num * inverse).fmod p)

/-- `add_point`. -/
def addPoint (P Q : Point) (p : Int) : Except Error Point :=
  match P, Q with
  | none, Q => .ok Q
  | P, none => .ok P
  | some (x1, y1), some (x2, y2) => do
    let e ← fracToInt (y2 - y1) (x2 - x1) p
    let x3 := (e * e - x1 - x2).fmod p
    let y3 := (e * (x1 - x3) - y1).fmod p
    return some (x3, y3)

/-- `double_point`. -/
def doublePoint (P : Point) (p a : Int) : Except Error Point :=
  match P with
  | none => .ok none
  | some (x1, y1) => do
    let e ← fracToInt (3 * x1 * x1 + a) (2 * y1) p
    let x3 := (e * e - 2 * x1).fmod p
    let y3 := (e * (x1 - x3) - y1).fmod p
    return some (x3, y3)

/-- The body of the loop of `mult_point`. -/
def multStep (P : Point) (p a : Int) (Q : Point) (i : Char) : Except Error Point := do
  let Q ← doublePoint Q p a
  if i = '1' then addPoint P Q p else return Q

/-- `mult_point`, over the binary digits of `k`. -/
def multPoint (P : Point) (k : Nat) (p a : Int) : Except Error Point := (Nat.toDigits 2 k).foldlM (multStep P p a) none

end Sm2

end AuthVideo
