import AuthVideo.Lemmas.Chebyshev

/-!
# Theorem 52: the modular inverse

The key of the centre is inverted by `mod_inverse`, through the coefficients of Bézout's identity that `extended_gcd` carries back
up its recursion.
-/

namespace AuthVideo

/-- Theorem 52 (modular inverse). On an interpreter whose limit on recursion is not met, `extended_gcd` returns the gcd and its Bézout
coefficients, and `mod_inverse` returns the only reduced inverse there is, or `None` where there is none. -/
theorem mod_inverse_exact (a : ℕ) {m : ℕ} (hm : 1 ≤ m) :
    ((extendedGcd a m).1 = Nat.gcd a m ∧
        ((extendedGcd a m).1 : ℤ) = a * (extendedGcd a m).2.1 + m * (extendedGcd a m).2.2) ∧
      (modInverse a m = none ↔ Nat.gcd a m ≠ 1) ∧
      (Nat.gcd a m = 1 → ∃ d, modInverse a m = some d ∧ (0 ≤ d ∧ d < m ∧ a * d ≡ 1 [ZMOD m]) ∧
        ∀ d' : ℤ, 0 ≤ d' ∧ d' < m ∧ a * d' ≡ 1 [ZMOD m] → d' = d) := by
  have hspec := extendedGcd_spec a m
  refine ⟨⟨hspec.1, ?_⟩, modInverse_eq_none_iff a m, ?_⟩
  · rw [hspec.1]
    exact hspec.2.symm
  · intro hgcd
    obtain ⟨d, hd⟩ := modInverse_of_coprime hgcd
    obtain ⟨h0, hlt, hinv⟩ := modInverse_some hm hd
    refine ⟨d, hd, ⟨h0, hlt, hinv⟩, ?_⟩
    intro d' ⟨h0', hlt', hinv'⟩
    exact inverse_unique ⟨h0, hlt⟩ ⟨h0', hlt'⟩ hinv hinv'

/-- The inverse of 17 modulo 120 is 113, out of a negative coefficient. -/
theorem mod_inverse_exact_key : 1 ≤ 120 ∧ extendedGcd 17 120 = (1, -7, 1) ∧ modInverse 17 120 = some 113 ∧
    ∃ d, modInverse 17 120 = some d ∧ (0 ≤ d ∧ d < (120 : ℕ) ∧ (17 : ℕ) * d ≡ 1 [ZMOD (120 : ℕ)]) ∧
      ∀ d' : ℤ, 0 ≤ d' ∧ d' < (120 : ℕ) ∧ (17 : ℕ) * d' ≡ 1 [ZMOD (120 : ℕ)] → d' = d :=
  ⟨by decide, by decide +kernel, by decide +kernel, (mod_inverse_exact 17 (by decide)).2.2 (by decide)⟩

end AuthVideo
