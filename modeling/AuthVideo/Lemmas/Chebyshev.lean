import AuthVideo.Chebyshev
import AuthVideo.Lib.Chebyshev
import AuthVideo.Lib.SquareMultiply

/-!
# What the number functions compute

`chebyshevMatrix` and `chebyshevPolynomial` are the value of the Chebyshev polynomial reduced modulo `p`, and `modInverse` is
the inverse. Later proofs use these statements and never unfold the functions.
-/

namespace AuthVideo

open Matrix ChebyshevValue

/-! ## The inverse -/

/-- `extended_gcd` returns the gcd and the coefficients of Bézout's identity. -/
theorem extendedGcd_spec (a b : ℕ) :
    (extendedGcd a b).1 = Nat.gcd a b ∧
      (a : ℤ) * (extendedGcd a b).2.1 + b * (extendedGcd a b).2.2 = Nat.gcd a b := by
  induction a using Nat.strong_induction_on generalizing b with
  | _ a ih =>
    rw [extendedGcd]
    split
    · rename_i ha
      simp [ha]
    · rename_i ha
      obtain ⟨hg, hbez⟩ := ih (b % a) (Nat.mod_lt _ (Nat.pos_of_ne_zero ha)) a
      rw [Nat.gcd_rec a b]
      refine ⟨hg, ?_⟩
      have hmod : ((b % a : ℕ) : ℤ) = b - a * (b / a : ℕ) := by
        have h := Nat.mod_add_div b a
        zify at h ⊢
        linarith
      rw [hmod] at hbez
      rw [← hbez]
      simp only
      ring

/-- An inverse that `mod_inverse` returns is reduced and is an inverse. -/
theorem modInverse_some {a m : ℕ} {d : ℤ} (hm : 0 < m) (h : modInverse a m = some d) :
    0 ≤ d ∧ d < m ∧ (a : ℤ) * d % m = 1 % m := by
  have hspec := extendedGcd_spec a m
  have hm' : (0 : ℤ) < m := by exact_mod_cast hm
  simp only [modInverse, ne_eq, ite_not] at h
  split at h
  · rename_i hg
    simp only [Option.some.injEq] at h
    subst h
    refine ⟨Int.emod_nonneg _ hm'.ne', Int.emod_lt_of_pos _ hm', ?_⟩
    have hgcd : (Nat.gcd a m : ℤ) = 1 := by
      rw [← hspec.1]
      exact_mod_cast hg
    rw [Int.mul_emod, Int.emod_emod, ← Int.mul_emod]
    have hbez : (a : ℤ) * (extendedGcd a m).2.1 = 1 - m * (extendedGcd a m).2.2 := by linarith [hspec.2]
    rw [hbez, Int.sub_mul_emod_self_left]
  · cases h

/-- `mod_inverse` returns an inverse when the two numbers are coprime. -/
theorem modInverse_of_coprime {a m : ℕ} (h : Nat.gcd a m = 1) : ∃ d, modInverse a m = some d := by
  have hspec := (extendedGcd_spec a m).1
  rw [h] at hspec
  exact ⟨(extendedGcd a m).2.1 % m, by simp [modInverse, hspec]⟩

/-- `mod_inverse` returns `None` exactly when the two numbers have a common divisor. -/
theorem modInverse_eq_none_iff (a m : ℕ) : modInverse a m = none ↔ Nat.gcd a m ≠ 1 := by
  have hspec := (extendedGcd_spec a m).1
  simp [modInverse, hspec]

/-- Two reduced inverses of a number are the same. -/
theorem inverse_unique {a m : ℕ} {d d' : ℤ} (hd : 0 ≤ d ∧ d < m) (hd' : 0 ≤ d' ∧ d' < m) (h : (a : ℤ) * d ≡ 1 [ZMOD m])
    (h' : (a : ℤ) * d' ≡ 1 [ZMOD m]) : d' = d := by
  have hcongr : d' ≡ d [ZMOD m] :=
    calc d' = 1 * d' := (one_mul d').symm
      _ ≡ (a * d) * d' [ZMOD m] := h.symm.mul_right d'
      _ = (a * d') * d := by ring
      _ ≡ 1 * d [ZMOD m] := h'.mul_right d
      _ = d := one_mul d
  rw [← Int.emod_eq_of_lt hd'.1 hd'.2, ← Int.emod_eq_of_lt hd.1 hd.2]
  exact hcongr

/-! ## The recurrence -/

/-- The loop of `chebyshev_polynomial`, `k` passes in: the last two values, reduced. -/
theorem chebyshevPolynomial_loop (x : ℤ) (p k : ℕ) :
    (List.range' 2 k).foldl (fun (t : ℤ × ℤ) (_ : ℕ) => (t.2, (2 * (x % p) * t.2 - t.1) % p)) (1 % p, x % p) =
      (chebT k x % p, chebT (k + 1) x % p) := by
  induction k with
  | zero => simp
  | succ k ih =>
    rw [List.range'_concat, List.foldl_append, ih, List.foldl_cons, List.foldl_nil, chebT_add_two]
    congr 1
    rw [Int.sub_emod, Int.sub_emod (2 * x * chebT (k + 1) x)]
    simp [Int.mul_emod]

/-- `chebyshev_polynomial` is the value of the polynomial, reduced. -/
theorem chebyshevPolynomial_eq (n : ℕ) (x : ℤ) (p : ℕ) : chebyshevPolynomial n x p = chebT n x % p := by
  match n with
  | 0 => simp [chebyshevPolynomial]
  | 1 => simp [chebyshevPolynomial]
  | n + 2 =>
    simp only [chebyshevPolynomial, Nat.add_eq_zero_iff, OfNat.ofNat_ne_zero, and_false, if_false,
      show ¬n + 2 = 1 by omega, show n + 2 - 1 = n + 1 by omega]
    rw [chebyshevPolynomial_loop]

/-! ## The transfer matrix -/

/-- A two by two matrix as the source lays it out. -/
def rowsOf (A : Matrix (Fin 2) (Fin 2) ℤ) : Rows := [[A 0 0, A 0 1], [A 1 0, A 1 1]]

/-- The entries of a matrix modulo `p`. -/
def residues (p : ℕ) (A : Matrix (Fin 2) (Fin 2) ℤ) : Matrix (Fin 2) (Fin 2) (ZMod p) := A.map (Int.cast : ℤ → ZMod p)

/-- Reducing the entries does not change their residues. -/
theorem residues_emod (p : ℕ) (A : Matrix (Fin 2) (Fin 2) ℤ) : residues p (A.map (· % (p : ℤ))) = residues p A := by
  ext i j
  simp [residues]

/-- Residues are multiplicative. -/
theorem residues_mul (p : ℕ) (A B : Matrix (Fin 2) (Fin 2) ℤ) : residues p (A * B) = residues p A * residues p B :=
  Matrix.map_mul (f := Int.castRingHom (ZMod p))

/-- `matrix_multiply` of two by two matrices is the product, reduced. -/
theorem matrixMultiply_rowsOf (p : ℕ) (A B : Matrix (Fin 2) (Fin 2) ℤ) :
    matrixMultiply (rowsOf A) (rowsOf B) p = rowsOf ((A * B).map (· % (p : ℤ))) := by
  simp [matrixMultiply, rowsOf, zipStar, dot, Matrix.mul_apply, Fin.sum_univ_two]

/-- The loop of `matrix_power` multiplies the result by the power of the base, modulo `p`. -/
theorem matrixPowerLoop_rowsOf (p e : ℕ) (R B : Matrix (Fin 2) (Fin 2) ℤ) :
    ∃ R', matrixPowerLoop (rowsOf R) (rowsOf B) e p = rowsOf R' ∧ residues p R' = residues p R * residues p B ^ e := by
  induction e using Nat.strong_induction_on generalizing R B with
  | _ e ih =>
    rw [matrixPowerLoop]
    split
    · rename_i he
      have hres : (if e % 2 = 1 then matrixMultiply (rowsOf R) (rowsOf B) p else rowsOf R) =
          rowsOf (if e % 2 = 1 then (R * B).map (· % (p : ℤ)) else R) := by
        split
        · rw [matrixMultiply_rowsOf]
        · rfl
      rw [hres, matrixMultiply_rowsOf]
      obtain ⟨R', hR', hpow⟩ := ih (e / 2) (Nat.div_lt_self he (by decide)) _ _
      refine ⟨R', hR', ?_⟩
      rw [hpow, residues_emod, residues_mul, ← SquareMultiply.step (residues p R) (residues p B) e]
      congr 1
      split
      · rw [residues_emod, residues_mul]
      · rfl
    · rename_i he
      obtain rfl : e = 0 := by omega
      exact ⟨R, rfl, by simp⟩

/-- `matrix_power` of the transfer matrix. -/
theorem matrixPower_transfer (x : ℤ) (n p : ℕ) :
    ∃ R, matrixPower [[2 * x, -1], [1, 0]] n p = rowsOf R ∧ residues p R = transfer (x : ZMod p) ^ n := by
  have hbase : matrixMod [[2 * x, -1], [1, 0]] p = rowsOf ((transfer x).map (· % (p : ℤ))) := rfl
  have hone : ((List.range 2).map fun i => (List.range 2).map fun j => if i = j then (1 : ℤ) else 0) = rowsOf 1 := by
    decide
  obtain ⟨R, hR, hpow⟩ := matrixPowerLoop_rowsOf p n 1 ((transfer x).map (· % (p : ℤ)))
  refine ⟨R, ?_, ?_⟩
  · rw [matrixPower, hbase]
    simp only [List.length_cons, List.length_nil, Int.toNat_natCast]
    rw [hone, hR]
  · rw [hpow, residues_emod]
    have h1 : residues p 1 = 1 := by
      ext i j
      fin_cases i <;> fin_cases j <;> simp [residues]
    have ht : residues p (transfer x) = transfer (x : ZMod p) := by
      ext i j
      fin_cases i <;> fin_cases j <;> simp [residues, transfer]
    rw [h1, ht, one_mul]

/-- `chebyshev_matrix` at a natural index is the value of the polynomial, reduced. -/
theorem chebyshevMatrix_eq (n : ℕ) (x : ℤ) (p : ℕ) : chebyshevMatrix n x p = chebT n x % p := by
  match n with
  | 0 => simp [chebyshevMatrix]
  | 1 => simp [chebyshevMatrix]
  | n + 2 =>
    obtain ⟨R, hR, hpow⟩ := matrixPower_transfer x (n + 1) p
    simp only [chebyshevMatrix]
    rw [if_neg (by omega), if_neg (by omega), show ((n + 2 : ℕ) : ℤ) - 1 = ((n + 1 : ℕ) : ℤ) by push_cast; ring, hR]
    simp only [rowsOf, dot, List.map_cons, List.headD_cons, List.zipWith_cons_cons, List.zipWith_nil_left,
      List.sum_cons, List.sum_nil, mul_one, add_zero]
    rw [← ZMod.intCast_eq_intCast_iff']
    have hrow := transfer_row_zero (x : ZMod p) (n + 1)
    rw [← hpow] at hrow
    have hmap := map_chebT (Int.castRingHom (ZMod p)) (n + 2) x
    simp only [eq_intCast] at hmap
    rw [hmap, ← hrow]
    simp [residues]

/-- `chebyshev_matrix` reduces its argument first. -/
theorem chebyshevMatrix_emod (n : ℕ) (x : ℤ) (p : ℕ) : chebyshevMatrix n (x % p) p = chebyshevMatrix n x p := by
  have hmap : ∀ y : ℤ, ((chebT n y : ℤ) : ZMod p) = chebT n (y : ZMod p) := fun y =>
    map_chebT (Int.castRingHom (ZMod p)) n y
  rw [chebyshevMatrix_eq, chebyshevMatrix_eq, ← ZMod.intCast_eq_intCast_iff', hmap, hmap, ZMod.intCast_mod]

/-- Two evaluations compose, and their indices multiply. -/
theorem chebyshevMatrix_comp (n m : ℕ) (x : ℤ) (p : ℕ) :
    chebyshevMatrix n (chebyshevMatrix m x p) p = chebyshevMatrix (n * m : ℕ) x p := by
  rw [chebyshevMatrix_eq m, chebyshevMatrix_emod, chebyshevMatrix_eq, chebyshevMatrix_eq, chebT_mul]

/-! ## The order of the index -/

/-- The order `(p² - 1) (q² - 1)` of two primes is more than 1. -/
theorem one_lt_order {p q : ℕ} (hp : p.Prime) (hq : q.Prime) : 1 < (p * p - 1) * (q * q - 1) := by
  have h3 : ∀ r : ℕ, r.Prime → 3 ≤ r * r - 1 := by
    intro r hr
    have : 2 * 2 ≤ r * r := Nat.mul_le_mul hr.two_le hr.two_le
    omega
  calc 1 < 3 * 3 := by decide
    _ ≤ (p * p - 1) * (q * q - 1) := Nat.mul_le_mul (h3 p hp) (h3 q hq)

/-- An index that is 1 modulo the order acts as the identity modulo `p q`. -/
theorem chebyshevMatrix_of_order {p q : ℕ} (hp : p.Prime) (hq : q.Prime) (hp2 : p ≠ 2) (hq2 : q ≠ 2) (hpq : p ≠ q)
    {m : ℕ} (hm : m % ((p * p - 1) * (q * q - 1)) = 1) (x : ℤ) :
    chebyshevMatrix m x (p * q) = x % ((p * q : ℕ) : ℤ) := by
  rw [← pow_two, ← pow_two] at hm
  rw [chebyshevMatrix_eq, chebT_emod_mul hp hq hp2 hq2 hpq hm]

/-- What `mod_inverse` returns for the order is a natural number, and the product with it is 1 modulo the order. -/
theorem modInverse_order {p q e : ℕ} (hp : p.Prime) (hq : q.Prime) {d : ℤ}
    (hd : modInverse e ((p * p - 1) * (q * q - 1)) = some d) :
    ∃ k : ℕ, d = k ∧ e * k % ((p * p - 1) * (q * q - 1)) = 1 := by
  have hn := one_lt_order hp hq
  obtain ⟨hd0, -, hinv⟩ := modInverse_some (by omega) hd
  obtain ⟨k, rfl⟩ := Int.eq_ofNat_of_zero_le hd0
  refine ⟨k, rfl, ?_⟩
  have h : e * k % ((p * p - 1) * (q * q - 1)) = 1 % ((p * p - 1) * (q * q - 1)) := by exact_mod_cast hinv
  rw [h, Nat.mod_eq_of_lt hn]

/-! ## Values on naturals -/

/-- The value of `chebyshev_matrix` on naturals, as a natural. -/
def chebNat (n x p : ℕ) : ℕ := (chebyshevMatrix n x p).toNat

/-- On naturals `chebyshev_matrix` is `chebNat`. -/
theorem chebyshevMatrix_natCast {p : ℕ} (hp : 0 < p) (n x : ℕ) : chebyshevMatrix n x p = (chebNat n x p : ℤ) := by
  have hp' : (p : ℤ) ≠ 0 := by exact_mod_cast hp.ne'
  rw [chebNat, Int.toNat_of_nonneg]
  rw [chebyshevMatrix_eq]
  exact Int.emod_nonneg _ hp'

/-- The values are residues. -/
theorem chebNat_lt {p : ℕ} (hp : 0 < p) (n x : ℕ) : chebNat n x p < p := by
  have h : (chebNat n x p : ℤ) < p := by
    rw [← chebyshevMatrix_natCast hp, chebyshevMatrix_eq]
    exact Int.emod_lt_of_pos _ (by exact_mod_cast hp)
  exact_mod_cast h

/-- The centre's index undoes the device's on naturals below the modulus. -/
theorem chebNat_inverse {p q e k : ℕ} (hp : p.Prime) (hq : q.Prime) (hp2 : p ≠ 2) (hq2 : q ≠ 2) (hpq : p ≠ q)
    (hk : e * k % ((p * p - 1) * (q * q - 1)) = 1) {M : ℕ} (hM : M < p * q) :
    chebNat e (chebNat k M (p * q)) (p * q) = M := by
  have hN : 0 < p * q := Nat.mul_pos hp.pos hq.pos
  have h : (chebNat e (chebNat k M (p * q)) (p * q) : ℤ) = M := by
    rw [← chebyshevMatrix_natCast hN, ← chebyshevMatrix_natCast hN, chebyshevMatrix_comp,
      chebyshevMatrix_of_order hp hq hp2 hq2 hpq hk, Int.emod_eq_of_lt (by omega) (by exact_mod_cast hM)]
  exact_mod_cast h

/-- The cubic identity that both sides test, at two indices and their sum. -/
theorem chebyshevMatrix_identity (a b : ℕ) (x : ℤ) (p : ℕ) :
    (chebyshevMatrix a x p * chebyshevMatrix a x p + chebyshevMatrix b x p * chebyshevMatrix b x p +
        chebyshevMatrix (a + b : ℕ) x p * chebyshevMatrix (a + b : ℕ) x p) % p =
      (2 * chebyshevMatrix a x p * chebyshevMatrix b x p * chebyshevMatrix (a + b : ℕ) x p + 1) % p := by
  have h := congrArg (Int.cast : ℤ → ZMod p) (chebT_add_identity a b x)
  simp only [chebyshevMatrix_eq]
  rw [← ZMod.intCast_eq_intCast_iff']
  push_cast at h ⊢
  linear_combination h

end AuthVideo
