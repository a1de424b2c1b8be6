import AuthVideo.Lemmas.Primality
import Mathlib.Tactic.NormNum.Prime

/-!
# Theorem 54: no prime is discarded

The Miller–Rabin test of the simulation works on unbounded integers, and the centre draws its key from what passes it.
-/

namespace AuthVideo

/-- Theorem 54 (no false negatives). Every prime passes the test, with any number of rounds and any bases, and `creat_number`
returns the first number it is given, if that is a prime. -/
theorem miller_rabin_prime {n : ℕ} (hn : n.Prime) :
    (∀ (R : Random) (k : ℤ), R.millerRabin n k = true) ∧
      ∀ (generatePrime : ℕ → ℕ × Random) (fuel : ℕ), (generatePrime 0).1 = n →
        creatNumber generatePrime (fuel + 1) 0 = some n := by
  refine ⟨fun R k => R.millerRabin_of_prime hn k, ?_⟩
  intro generatePrime fuel hfirst
  have htest : (generatePrime 0).2.millerRabin (generatePrime 0).1 5 = true := by
    rw [hfirst]
    exact Random.millerRabin_of_prime _ hn 5
  rw [creatNumber]
  simp only
  rw [if_pos htest, hfirst]

/-- A generator that always draws the highest number of its range. -/
def highest : Random := ⟨fun _ _ hi => hi, fun _ _ _ h => ⟨h, Nat.le_refl _⟩⟩

/-- The prime 41 passes, and 49 does not with the same bases. -/
theorem miller_rabin_prime_41 : Nat.Prime 41 ∧ highest.millerRabin 41 5 = true ∧ highest.millerRabin 49 5 = false :=
  ⟨by norm_num, (miller_rabin_prime (by norm_num)).1 highest 5, by decide +kernel⟩

end AuthVideo
