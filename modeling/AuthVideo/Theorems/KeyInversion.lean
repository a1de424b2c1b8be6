import AuthVideo.Lemmas.Chebyshev

/-!
# Theorem 1: the key pair inverts

The device sends `T_d` of its pseudonym, password and parameter, and the centre recovers each with `T_e`. The two indices undo
each other on every residue, because their product is 1 modulo `(p² - 1) (q² - 1)`.
-/

namespace AuthVideo

/-- Theorem 1 (key inversion). For distinct odd primes and every `e` that `mod_inverse` inverts, the two Chebyshev maps undo
each other on every residue modulo `p q`, a unit or not. -/
theorem chebyshev_key_inversion {p q : ℕ} (hp : p.Prime) (hq : q.Prime) (hp2 : p ≠ 2) (hq2 : q ≠ 2) (hpq : p ≠ q) (e : ℕ)
    {d : ℤ} (hd : modInverse e ((p * p - 1) * (q * q - 1)) = some d) (M : ℤ) (h0 : 0 ≤ M) (hM : M < (p * q : ℕ)) :
    chebyshevMatrix e (chebyshevMatrix d M (p * q)) (p * q) = M := by
  obtain ⟨k, rfl, hk⟩ := modInverse_order hp hq hd
  rw [chebyshevMatrix_comp, chebyshevMatrix_of_order hp hq hp2 hq2 hpq hk, Int.emod_eq_of_lt h0 hM]

/-- With `p = 3`, `q = 5` and `e = 5` the inverse is 77, and the point 6, not a unit modulo 15, comes back. -/
theorem chebyshev_key_inversion_fifteen : chebyshevMatrix 5 (chebyshevMatrix 77 6 (3 * 5)) (3 * 5) = 6 :=
  chebyshev_key_inversion (by decide) (by decide) (by decide) (by decide) (by decide) 5 (d := 77) (by decide +kernel) 6
    (by decide) (by decide)

end AuthVideo
