import Mathlib.FieldTheory.Finite.Basic
import Mathlib.Algebra.Ring.Commute

/-!
# Square roots of one and the strong test

In a ring without zero divisors 1 has the square roots 1 and -1 only. So where squaring leads to 1, it starts with 1 or passes
through -1. For a prime this holds of every base that is no multiple of it, by Fermat's theorem: the strong test.
-/

namespace StrongTest

/-- Where `r` squarings lead to 1, they start with 1 or pass through -1. -/
theorem eq_one_or_passes {R : Type*} [CommRing R] [NoZeroDivisors R] (x : R) {r : ℕ} (h : x ^ 2 ^ r = 1) :
    x = 1 ∨ ∃ j < r, x ^ 2 ^ j = -1 := by
  induction r with
  | zero =>
    rw [pow_zero, pow_one] at h
    exact .inl h
  | succ r ih =>
    rw [pow_succ, pow_mul, pow_two] at h
    rcases mul_self_eq_one_iff.mp h with hone | hneg
    · rcases ih hone with hx | ⟨j, hj, hx⟩
      · exact .inl hx
      · exact .inr ⟨j, Nat.lt_succ_of_lt hj, hx⟩
    · exact .inr ⟨r, Nat.lt_succ_self r, hneg⟩

/-- A residue is 1 as a number exactly when it is 1 as a residue. -/
theorem mod_eq_one_iff {n : ℕ} (hn : 1 < n) (x : ℕ) : x % n = 1 ↔ (x : ZMod n) = 1 := by
  have h := ZMod.natCast_eq_natCast_iff' x 1 n
  rw [Nat.mod_eq_of_lt hn, Nat.cast_one] at h
  exact h.symm

/-- A residue is `n - 1` as a number exactly when it is -1 as a residue. -/
theorem mod_eq_pred_iff {n : ℕ} (hn : 1 < n) (x : ℕ) : x % n = n - 1 ↔ (x : ZMod n) = -1 := by
  have hpred : ((n - 1 : ℕ) : ZMod n) = -1 := by
    rw [Nat.cast_sub hn.le, ZMod.natCast_self, Nat.cast_one, zero_sub]
  have h := ZMod.natCast_eq_natCast_iff' x (n - 1) n
  rw [Nat.mod_eq_of_lt (Nat.sub_lt (by omega) Nat.one_pos), hpred] at h
  exact h.symm

/-- What the strong test asks of a base: its power is 1, or one of the `r` squares from there on is -1. -/
def Passes (n r d a : ℕ) : Prop := a ^ d % n = 1 ∨ ∃ j < r, (a ^ d) ^ 2 ^ j % n = n - 1

/-- A prime passes the strong test to every base that is no multiple of it. -/
theorem passes_of_prime {n : ℕ} (hn : n.Prime) {r d a : ℕ} (hsplit : 2 ^ r * d = n - 1) (ha : ¬n ∣ a) : Passes n r d a := by
  have : Fact n.Prime := ⟨hn⟩
  have hne : (a : ZMod n) ≠ 0 := by rwa [ne_eq, ZMod.natCast_eq_zero_iff]
  have hone : ((a : ZMod n) ^ d) ^ 2 ^ r = 1 := by
    rw [← pow_mul, mul_comm, hsplit]
    exact ZMod.pow_card_sub_one_eq_one hne
  rcases eq_one_or_passes _ hone with h | ⟨j, hj, h⟩
  · refine .inl ((mod_eq_one_iff hn.one_lt _).mpr ?_)
    rw [Nat.cast_pow, h]
  · refine .inr ⟨j, hj, (mod_eq_pred_iff hn.one_lt _).mpr ?_⟩
    rw [Nat.cast_pow, Nat.cast_pow, h]

end StrongTest
