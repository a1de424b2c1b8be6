import AuthVideo.Lemmas.BoardPrime
import AuthVideo.Lib.Pocklington
import Mathlib.Tactic.NormNum.Prime

/-!
# Theorem 55: the primes the boards discard

`mod_pow` multiplies two residues in one word of 64 bits, which holds the product as long as the modulus is below 2 to the power of
32. The boards ask `creat_number` for 32 bits.
-/

namespace AuthVideo

open PrimeNumber

/-- Theorem 55 (the test of the boards). A prime passes, whatever `rand` returns, exactly when it is below 2 to the power of 32 or
no round is asked for. -/
theorem board_miller_rabin_iff {n : UInt64} (hn : n.toNat.Prime) (k : ℤ) {randMax : ℕ} (hmax : 32767 ≤ randMax) :
    (∀ rand : ℕ → ℕ, (∀ call, rand call ≤ randMax) → millerRabin rand n k = 1) ↔ n.toNat < 2 ^ 32 ∨ k ≤ 0 := by
  constructor
  · intro h
    by_contra hfail
    rw [not_or, not_lt, not_le] at hfail
    have hne : n.toNat ≠ 2 ^ 32 := by
      intro heq
      rw [heq] at hn
      exact absurd hn (by norm_num)
    have hne' : n.toNat ≠ 2 ^ 32 + 1 := by
      intro heq
      rw [heq] at hn
      exact absurd hn (by norm_num)
    have hodd : n.toNat % 2 = 1 := hn.mod_two_eq_one_iff_ne_two.mpr (by omega)
    have hpass := h (fun _ => 254) (fun _ => by omega)
    rw [millerRabin_wraps (by omega) hodd hfail.2] at hpass
    cases hpass
  · rintro (hsmall | hk) rand -
    · rw [millerRabin_eq hsmall, Random.millerRabin_of_prime _ hn, if_pos rfl]
    · exact millerRabin_no_rounds hn rand hk

/-- Below 2 to the power of 32: every prime with any draws. -/
theorem board_miller_rabin_iff_13 : (13 : UInt64).toNat.Prime ∧ 32767 ≤ 2 ^ 31 - 1 ∧
    ∀ rand : ℕ → ℕ, (∀ call, rand call ≤ 2 ^ 31 - 1) → millerRabin rand 13 5 = 1 := by
  have hprime : (13 : UInt64).toNat.Prime := show Nat.Prime 13 by norm_num
  exact ⟨hprime, by decide, (board_miller_rabin_iff hprime 5 (by decide)).mpr (.inl (by decide))⟩

/-- The prime `2 ^ 32 + 15` does not pass when `rand` returns 254. -/
theorem board_prime_discarded : Nat.Prime 4294967311 ∧ millerRabin (fun _ => 254) 4294967311 1 = 0 ∧
    ¬∀ (n : UInt64) (k : ℤ) (rand : ℕ → ℕ), n.toNat.Prime → (∀ call, rand call ≤ 32767) → millerRabin rand n k = 1 := by
  have hfactor : Nat.Prime 364289 := by norm_num
  have hprime : Nat.Prime 4294967311 := Pocklington.prime_of_check (a := 2) (List.forall_mem_singleton.mpr hfactor) (by decide +kernel)
  have hzero : millerRabin (fun _ => 254) 4294967311 1 = 0 := millerRabin_wraps (by decide) (by decide) (by decide)
  refine ⟨hprime, hzero, ?_⟩
  intro hall
  have hpass := hall 4294967311 1 (fun _ => 254) hprime (fun _ => by decide)
  rw [hzero] at hpass
  cases hpass

end AuthVideo
