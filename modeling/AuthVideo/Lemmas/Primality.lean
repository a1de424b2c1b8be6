import AuthVideo.Primality
import AuthVideo.Lib.StrongTest

/-!
# What the Miller–Rabin test computes

A round of the test passes exactly when its base does in the sense of the strong test.
-/

namespace AuthVideo

open StrongTest

/-- The loop takes out every factor 2. -/
theorem splitTwos_spec {r d : ℕ} (hd : 0 < d) :
    2 ^ (splitTwos r d).1 * (splitTwos r d).2 = 2 ^ r * d ∧ (splitTwos r d).2 % 2 = 1 ∧ r ≤ (splitTwos r d).1 := by
  fun_induction splitTwos r d with
  | case1 r d h ih =>
    obtain ⟨hprod, hodd, hle⟩ := ih (by omega)
    refine ⟨?_, hodd, by omega⟩
    rw [hprod, pow_succ, mul_assoc, Nat.mul_div_cancel' (Nat.dvd_of_mod_eq_zero h.1)]
  | case2 r d h => exact ⟨rfl, by omega, Nat.le_refl r⟩

/-- An even number gives at least one factor. -/
theorem splitTwos_pos {d : ℕ} (hd : 0 < d) (heven : d % 2 = 0) : 0 < (splitTwos 0 d).1 := by
  rw [splitTwos, dif_pos ⟨heven, hd⟩]
  exact (splitTwos_spec (by omega)).2.2

/-- The inner loop finds `n - 1` among the squares behind `x`. -/
theorem squaresReach_iff {n : ℕ} (turns x : ℕ) :
    squaresReach n turns x = true ↔ ∃ j, 1 ≤ j ∧ j ≤ turns ∧ x ^ 2 ^ j % n = n - 1 := by
  induction turns generalizing x with
  | zero =>
    simp only [squaresReach, Bool.false_eq_true, false_iff]
    rintro ⟨j, h1, h0, -⟩
    omega
  | succ turns ih =>
    have hpow : ∀ j, (x ^ 2 % n) ^ 2 ^ j % n = x ^ 2 ^ (j + 1) % n := by
      intro j
      rw [← Nat.pow_mod, ← pow_mul, pow_succ, mul_comm 2]
    simp only [squaresReach]
    by_cases hx : x ^ 2 % n = n - 1
    · rw [if_pos hx]
      exact iff_of_true rfl ⟨1, Nat.le_refl 1, by omega, by rwa [pow_one]⟩
    · rw [if_neg hx, ih]
      simp only [hpow]
      constructor
      · rintro ⟨j, h1, hj, h⟩
        exact ⟨j + 1, by omega, by omega, h⟩
      · rintro ⟨j, h1, hj, h⟩
        obtain ⟨j, rfl⟩ : ∃ i, j = i + 1 := ⟨j - 1, by omega⟩
        rcases Nat.eq_zero_or_pos j with rfl | hpos
        · rw [zero_add, pow_one] at h
          exact absurd h hx
        · exact ⟨j, hpos, by omega, h⟩

/-- A round passes as its base does. -/
theorem round_iff {n r d a : ℕ} (hr : 0 < r) :
    ((a ^ d % n = 1 ∨ a ^ d % n = n - 1) ∨ squaresReach n (r - 1) (a ^ d % n) = true) ↔ Passes n r d a := by
  have hpow : ∀ j, (a ^ d % n) ^ 2 ^ j % n = (a ^ d) ^ 2 ^ j % n := fun j => (Nat.pow_mod ..).symm
  rw [squaresReach_iff, or_assoc]
  simp only [hpow]
  refine or_congr_right ?_
  constructor
  · rintro (h | ⟨j, -, hj, h⟩)
    · exact ⟨0, hr, by rwa [pow_zero, pow_one]⟩
    · exact ⟨j, by omega, h⟩
  · rintro ⟨j, hj, h⟩
    rcases Nat.eq_zero_or_pos j with rfl | hpos
    · rw [pow_zero, pow_one] at h
      exact .inl h
    · exact .inr ⟨j, hpos, by omega, h⟩

/-- The rounds pass when every base that is drawn passes. -/
theorem Random.rounds_of_passes (R : Random) {n r d : ℕ} (hr : 0 < r)
    (h : ∀ call, Passes n r d (R.randint call 2 (n - 2))) (k call : ℕ) : R.rounds n r d k call = true := by
  induction k generalizing call with
  | zero => rfl
  | succ k ih =>
    have hround := (round_iff hr).mpr (h call)
    simp only [Random.rounds]
    split
    · exact ih (call + 1)
    · rename_i hfirst
      rw [if_pos (hround.resolve_left hfirst)]
      exact ih (call + 1)

/-- A number between 2 and `n - 2` is no multiple of `n`. -/
theorem not_dvd_of_mem {n a : ℕ} (hlo : 2 ≤ a) (hhi : a ≤ n - 2) : ¬n ∣ a := by
  intro hdvd
  have := Nat.le_of_dvd (by omega) hdvd
  omega

/-- A prime passes every number of rounds, whatever is drawn. -/
theorem Random.millerRabin_of_prime (R : Random) {n : ℕ} (hn : n.Prime) (k : ℤ) : R.millerRabin n k = true := by
  have h2 := hn.two_le
  rw [Random.millerRabin, if_neg (by omega)]
  by_cases h3 : n ≤ 3
  · rw [if_pos h3]
  · have hodd : n % 2 = 1 := hn.mod_two_eq_one_iff_ne_two.mpr (by omega)
    rw [if_neg h3, if_neg (by omega)]
    obtain ⟨hsplit, -, -⟩ := splitTwos_spec (r := 0) (d := n - 1) (by omega)
    rw [pow_zero, one_mul] at hsplit
    refine R.rounds_of_passes (splitTwos_pos (by omega) (by omega)) ?_ _ _
    intro call
    obtain ⟨hlo, hhi⟩ := R.randint_mem call 2 (n - 2) (by omega)
    exact passes_of_prime hn hsplit (not_dvd_of_mem hlo hhi)

end AuthVideo
