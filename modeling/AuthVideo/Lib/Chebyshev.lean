import Mathlib.RingTheory.Polynomial.Chebyshev
import Mathlib.FieldTheory.Finite.Basic
import Mathlib.FieldTheory.IsAlgClosed.AlgebraicClosure
import Mathlib.LinearAlgebra.Matrix.Notation
import Mathlib.Data.ZMod.Basic

/-!
# Values of Chebyshev polynomials

`chebT n x` is the value at `x` of the Chebyshev polynomial of the first kind with a natural index. Three groups of facts:

* the transfer matrix `!![2x, -1; 1, 0]`, whose powers hold the values of the polynomials of the second kind and whose action
  on `(x, 1)` gives `T`;
* the semigroup law, and the cubic identity of two indices with its two roots;
* the period of the index over a finite field: `T` at `1 + k (q² - 1)` is the identity on a field of `q` elements, and so is
  it modulo a product of two odd primes. No point is left out, the ones with `x² = 1` included.
-/

namespace ChebyshevValue

open Polynomial Polynomial.Chebyshev Matrix

/-- The value at `x` of the Chebyshev polynomial of index `n`. -/
noncomputable def chebT {R : Type*} [CommRing R] (n : ℕ) (x : R) : R := (T R n).eval x

section Ring

variable {R S : Type*} [CommRing R] [CommRing S]

@[simp] theorem chebT_zero (x : R) : chebT 0 x = 1 := by simp [chebT]

@[simp] theorem chebT_one (x : R) : chebT 1 x = x := by simp [chebT]

/-- The recurrence. -/
theorem chebT_add_two (n : ℕ) (x : R) : chebT (n + 2) x = 2 * x * chebT (n + 1) x - chebT n x := by
  have h := congrArg (Polynomial.eval x) (T_add_two R (n : ℤ))
  simpa only [chebT, Nat.cast_add, Nat.cast_ofNat, Nat.cast_one, Polynomial.eval_sub, Polynomial.eval_mul,
    Polynomial.eval_X, Polynomial.eval_ofNat] using h

/-- A ring map sends the value at a point to the value at its image. -/
theorem map_chebT (f : R →+* S) (n : ℕ) (x : R) : f (chebT n x) = chebT n (f x) := by
  unfold chebT
  rw [← map_T f, Polynomial.eval_map, Polynomial.eval₂_at_apply]

/-- The semigroup law: indices multiply under composition. -/
theorem chebT_mul (m n : ℕ) (x : R) : chebT (m * n) x = chebT m (chebT n x) := by
  unfold chebT
  rw [Nat.cast_mul, T_mul, Polynomial.eval_comp]

/-- The values at the sum and the difference of two indices: their sum. -/
theorem chebT_add_add_sub (a b : ℕ) (x : R) :
    chebT (a + b) x + chebT ((a : ℤ) - b).natAbs x = 2 * chebT a x * chebT b x := by
  have h := congrArg (Polynomial.eval x) (T_mul_T R (a : ℤ) (b : ℤ))
  simp only [Polynomial.eval_mul, Polynomial.eval_add, Polynomial.eval_ofNat] at h
  simp only [chebT, T_natAbs, Nat.cast_add]
  exact h.symm

/-- Their product. -/
theorem chebT_add_mul_sub (a b : ℕ) (x : ℤ) :
    chebT (a + b) x * chebT ((a : ℤ) - b).natAbs x = chebT a x ^ 2 + chebT b x ^ 2 - 1 := by
  have eval_mul_T : ∀ m k : ℤ, 2 * (T ℤ m).eval x * (T ℤ k).eval x = (T ℤ (m + k)).eval x + (T ℤ (m - k)).eval x := by
    intro m k
    simpa only [Polynomial.eval_mul, Polynomial.eval_add, Polynomial.eval_ofNat] using
      congrArg (Polynomial.eval x) (T_mul_T ℤ m k)
  -- twice the product is the sum of the values at `2 a` and `2 b`
  have hprod := eval_mul_T (a + b) (a - b)
  have haa := eval_mul_T a a
  have hbb := eval_mul_T b b
  have hsum : ((a : ℤ) + b) + (a - b) = a + a := by ring
  have hdiff : ((a : ℤ) + b) - (a - b) = b + b := by ring
  rw [hsum, hdiff] at hprod
  simp only [sub_self, T_zero, Polynomial.eval_one] at haa hbb
  simp only [chebT, T_natAbs, Nat.cast_add]
  refine mul_left_cancel₀ (two_ne_zero (α := ℤ)) ?_
  linear_combination hprod - haa - hbb

/-- The cubic identity of two indices, as a quadratic in the third value. Its roots are the values at the sum and at the difference. -/
theorem chebT_quadratic (a b : ℕ) (x t : ℤ) :
    chebT a x ^ 2 + chebT b x ^ 2 + t ^ 2 - (2 * chebT a x * chebT b x * t + 1) =
      (t - chebT (a + b) x) * (t - chebT ((a : ℤ) - b).natAbs x) := by
  linear_combination t * chebT_add_add_sub a b x - chebT_add_mul_sub a b x

/-- The values at two indices and at their sum satisfy the cubic identity. -/
theorem chebT_add_identity (a b : ℕ) (x : ℤ) :
    chebT a x ^ 2 + chebT b x ^ 2 + chebT (a + b) x ^ 2 = 2 * chebT a x * chebT b x * chebT (a + b) x + 1 := by
  have h := chebT_quadratic a b x (chebT (a + b) x)
  rw [sub_self, zero_mul] at h
  exact sub_eq_zero.mp h

/-! ## The transfer matrix -/

/-- The transfer matrix of the recurrence at `x`. -/
def transfer (x : R) : Matrix (Fin 2) (Fin 2) R := !![2 * x, -1; 1, 0]

/-- The powers of the transfer matrix hold the values of the polynomials of the second kind. -/
theorem transfer_pow (x : R) (n : ℕ) :
    transfer x ^ n = !![(U R n).eval x, -(U R (n - 1)).eval x; (U R (n - 1)).eval x, -(U R (n - 2)).eval x] := by
  induction n with
  | zero =>
    ext i j
    fin_cases i <;> fin_cases j <;> simp
  | succ n ih =>
    have h1 := congrArg (Polynomial.eval x) (U_add_one R (n : ℤ))
    have h2 := congrArg (Polynomial.eval x) (U_eq R (n : ℤ))
    simp only [Polynomial.eval_sub, Polynomial.eval_mul, Polynomial.eval_X, Polynomial.eval_ofNat] at h1 h2
    rw [pow_succ, ih, transfer]
    push_cast
    rw [show (n : ℤ) + 1 - 1 = n by ring, show (n : ℤ) + 1 - 2 = n - 1 by ring, h1, h2]
    ext i j
    fin_cases i <;> fin_cases j <;> simp [Matrix.mul_apply, Fin.sum_univ_two] <;> ring

/-- The first row of a power of the transfer matrix, applied to `(x, 1)`, gives the value at the next index. -/
theorem transfer_row_zero (x : R) (n : ℕ) :
    (transfer x ^ n) 0 0 * x + (transfer x ^ n) 0 1 = chebT (n + 1) x := by
  have h := congrArg (Polynomial.eval x) (T_eq_X_mul_U_sub_U R ((n : ℤ) - 1))
  rw [show (n : ℤ) - 1 + 2 = ((n + 1 : ℕ) : ℤ) by push_cast; ring, show (n : ℤ) - 1 + 1 = n by ring] at h
  simp only [Polynomial.eval_sub, Polynomial.eval_mul, Polynomial.eval_X] at h
  rw [transfer_pow, chebT, h]
  simp
  ring

/-- The second row of a power of the transfer matrix, applied to `(x, 1)`, gives the value at the index itself. -/
theorem transfer_row_one (x : R) (n : ℕ) :
    (transfer x ^ n) 1 0 * x + (transfer x ^ n) 1 1 = chebT n x := by
  have h := congrArg (Polynomial.eval x) (T_eq_X_mul_U_sub_U R ((n : ℤ) - 2))
  rw [show (n : ℤ) - 2 + 2 = n by ring, show (n : ℤ) - 2 + 1 = n - 1 by ring] at h
  simp only [Polynomial.eval_sub, Polynomial.eval_mul, Polynomial.eval_X] at h
  rw [transfer_pow, chebT, h]
  simp
  ring

end Ring

/-! ## The period of the index over a finite field -/

section Field

variable {K : Type*} [Field K]

/-- Twice the value at `(α + β) / 2` with `α β = 1` is the sum of the powers. -/
theorem two_mul_chebT {x α β : K} (hsum : α + β = 2 * x) (hmul : α * β = 1) (n : ℕ) :
    2 * chebT n x = α ^ n + β ^ n := by
  induction n using Nat.twoStepInduction with
  | zero => simp; norm_num
  | one => simp [hsum]
  | more n ih1 ih2 =>
    rw [chebT_add_two]
    have hα : α ^ (n + 2) = 2 * x * α ^ (n + 1) - α ^ n := by
      rw [← hsum]
      linear_combination (-(α ^ n)) * hmul
    have hβ : β ^ (n + 2) = 2 * x * β ^ (n + 1) - β ^ n := by
      rw [← hsum]
      linear_combination (-(β ^ n)) * hmul
    rw [hα, hβ]
    linear_combination 2 * x * ih2 - ih1

variable {F : Type*} [Field F] [Fintype F]

/-- Over a field of `q` elements, with 2 invertible, the index `1 + k (q² - 1)` acts as the identity on every point. -/
theorem chebT_period (h2 : (2 : F) ≠ 0) (k : ℕ) (x : F) :
    chebT (1 + k * (Fintype.card F ^ 2 - 1)) x = x := by
  set q := Fintype.card F with hq
  let E := AlgebraicClosure F
  let y : E := algebraMap F E x
  -- the roots `y + s` and `y - s` of `X² - 2 y X + 1`
  obtain ⟨s, hs⟩ := IsAlgClosed.exists_pow_nat_eq (y ^ 2 - 1) (n := 2) (by norm_num)
  have hmul : (y + s) * (y - s) = 1 := by linear_combination -hs
  have hsum : (y + s) + (y - s) = 2 * y := by ring
  have h2E : (2 : E) ≠ 0 := by
    have h := (map_ne_zero (algebraMap F E)).mpr h2
    rwa [map_ofNat] at h
  -- the Frobenius map of `F` fixes `y`, so it keeps or exchanges the two roots
  have frob_y : FiniteField.frobeniusAlgHom F E y = y := (FiniteField.frobeniusAlgHom F E).commutes x
  have frob_sq : FiniteField.frobeniusAlgHom F E s ^ 2 = s ^ 2 := by
    rw [← map_pow, hs, map_sub, map_pow, frob_y, map_one]
  have frob_frob : FiniteField.frobeniusAlgHom F E (FiniteField.frobeniusAlgHom F E s) = s := by
    rcases sq_eq_sq_iff_eq_or_eq_neg.mp frob_sq with h | h
    · rw [h, h]
    · rw [h, map_neg, h, neg_neg]
  have pow_fix : ∀ z : E, FiniteField.frobeniusAlgHom F E (FiniteField.frobeniusAlgHom F E z) = z →
      z ≠ 0 → z ^ (1 + k * (q ^ 2 - 1)) = z := by
    intro z hz hne
    simp only [FiniteField.coe_frobeniusAlgHom] at hz
    have hzq : z ^ (q ^ 2) = z := by
      rw [pow_two, pow_mul]
      exact hz
    have hq2 : q ^ 2 = (q ^ 2 - 1) + 1 := by
      have : 0 < q ^ 2 := pow_pos Fintype.card_pos 2
      omega
    have hone : z ^ (q ^ 2 - 1) = 1 := by
      rw [hq2, pow_succ] at hzq
      exact mul_right_cancel₀ hne (by rw [hzq, one_mul])
    rw [pow_add, pow_one, mul_comm k, pow_mul, hone, one_pow, mul_one]
  have hα := pow_fix (y + s) (by simp only [map_add, frob_y, frob_frob]) (left_ne_zero_of_mul_eq_one hmul)
  have hβ := pow_fix (y - s) (by simp only [map_sub, frob_y, frob_frob]) (right_ne_zero_of_mul_eq_one hmul)
  have hval := two_mul_chebT hsum hmul (1 + k * (q ^ 2 - 1))
  rw [hα, hβ, hsum] at hval
  have hE : chebT (1 + k * (q ^ 2 - 1)) y = y := mul_left_cancel₀ h2E hval
  apply (algebraMap F E).injective
  rw [map_chebT]
  exact hE

end Field

/-! ## The period modulo a product of two primes -/

/-- Modulo an odd prime `p`, an index that is 1 modulo `p² - 1` acts as the identity. -/
theorem dvd_chebT_sub_self {p : ℕ} [Fact p.Prime] (hp : p ≠ 2) {m : ℕ} (k : ℕ) (hm : m = 1 + k * (p ^ 2 - 1)) (x : ℤ) :
    (p : ℤ) ∣ chebT m x - x := by
  have h2 : (2 : ZMod p) ≠ 0 := by
    intro h
    have hdvd : p ∣ 2 := (ZMod.natCast_eq_zero_iff 2 p).mp (by exact_mod_cast h)
    exact hp ((Nat.prime_dvd_prime_iff_eq Fact.out Nat.prime_two).mp hdvd)
  have h := chebT_period h2 k ((x : ℤ) : ZMod p)
  rw [ZMod.card p, ← hm] at h
  rw [← ZMod.intCast_zmod_eq_zero_iff_dvd, Int.cast_sub, sub_eq_zero]
  have hmap := map_chebT (Int.castRingHom (ZMod p)) m x
  simp only [eq_intCast] at hmap
  rw [hmap, h]

/-- Modulo the product of two distinct odd primes, an index that is 1 modulo `(p² - 1) (q² - 1)` acts as the identity. -/
theorem chebT_emod_mul {p q : ℕ} (hp : p.Prime) (hq : q.Prime) (hp2 : p ≠ 2) (hq2 : q ≠ 2) (hpq : p ≠ q) {m : ℕ}
    (hm : m % ((p ^ 2 - 1) * (q ^ 2 - 1)) = 1) (x : ℤ) :
    chebT m x % ((p * q : ℕ) : ℤ) = x % ((p * q : ℕ) : ℤ) := by
  have := Fact.mk hp
  have := Fact.mk hq
  set M := (p ^ 2 - 1) * (q ^ 2 - 1) with hM
  have hmk : m = 1 + m / M * M := by
    have h := Nat.mod_add_div m M
    rw [hm, mul_comm M] at h
    exact h.symm
  have hdp : (p : ℤ) ∣ chebT m x - x :=
    dvd_chebT_sub_self hp2 (m / M * (q ^ 2 - 1)) (hmk.trans (by rw [hM]; ring)) x
  have hdq : (q : ℤ) ∣ chebT m x - x :=
    dvd_chebT_sub_self hq2 (m / M * (p ^ 2 - 1)) (hmk.trans (by rw [hM]; ring)) x
  have hcop : IsCoprime (p : ℤ) (q : ℤ) := Nat.isCoprime_iff_coprime.mpr ((Nat.coprime_primes hp hq).mpr hpq)
  have hdvd : ((p * q : ℕ) : ℤ) ∣ chebT m x - x := by
    rw [Nat.cast_mul]
    exact hcop.mul_dvd hdp hdq
  exact (Int.emod_eq_emod_iff_emod_sub_eq_zero).mpr (Int.emod_eq_zero_of_dvd hdvd)

end ChebyshevValue
