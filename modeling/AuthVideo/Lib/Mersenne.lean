import Mathlib.Data.Nat.ModEq
import Mathlib.Tactic.Ring

/-!
# Arithmetic modulo `2 ^ w - 1`

A word of `w` bits that is not zero stands for its residue, and the word of ones for the residue zero. A sum with an end-around carry
keeps such words and adds the residues, and a rotation multiplies a residue by a power of two.
-/

namespace Mersenne

variable {w n a b : ℕ}

/-- A word of `w` bits that is not zero. -/
def Rep (w a : ℕ) : Prop := 0 < a ∧ a < 2 ^ w

/-- The sum with an end-around carry. -/
def add (w a b : ℕ) : ℕ := if a + b < 2 ^ w then a + b else a + b - (2 ^ w - 1)

/-- The rotation to the left by `n`. -/
def rotate (w n a : ℕ) : ℕ := a % 2 ^ (w - n) * 2 ^ n + a / 2 ^ (w - n)

/-- Two words that stand for one residue are equal. -/
theorem Rep.eq_of_modEq (ha : Rep w a) (hb : Rep w b) (h : a ≡ b [MOD 2 ^ w - 1]) : a = b := by
  obtain ⟨ha0, ha⟩ := ha
  obtain ⟨hb0, hb⟩ := hb
  have hshift : ∀ {x : ℕ}, 0 < x → x < 2 ^ w → x - 1 < 2 ^ w - 1 := fun h0 h => by omega
  have hpred : a - 1 ≡ b - 1 [MOD 2 ^ w - 1] := by
    refine Nat.ModEq.add_right_cancel' 1 ?_
    rwa [Nat.sub_add_cancel ha0, Nat.sub_add_cancel hb0]
  have := Nat.ModEq.eq_of_lt_of_lt hpred (hshift ha0 ha) (hshift hb0 hb)
  omega

theorem two_pow_modEq_one (w : ℕ) : 2 ^ w ≡ 1 [MOD 2 ^ w - 1] := by
  have h : 2 ^ w - 1 + 1 ≡ 0 + 1 [MOD 2 ^ w - 1] := Nat.ModEq.add_right 1 (Nat.modEq_zero_iff_dvd.mpr (dvd_refl _))
  rwa [Nat.sub_add_cancel Nat.one_le_two_pow] at h

/-- The end-around carry leaves the residue. -/
theorem add_modEq (w a b : ℕ) : add w a b ≡ a + b [MOD 2 ^ w - 1] := by
  rw [add]
  split
  · exact Nat.ModEq.refl _
  · rename_i hge
    have hle : 2 ^ w - 1 ≤ a + b := by omega
    exact (Nat.mod_eq_sub_mod hle).symm

/-- A word that is not zero keeps a sum from being zero. -/
theorem add_rep (ha : Rep w a) (hb : b < 2 ^ w) : Rep w (add w a b) := by
  obtain ⟨ha0, ha⟩ := ha
  unfold add Rep
  split
  · omega
  · omega

/-- The rotation multiplies the residue. -/
theorem rotate_modEq (hn : n ≤ w) (a : ℕ) : rotate w n a ≡ 2 ^ n * a [MOD 2 ^ w - 1] := by
  have hw : 2 ^ n * 2 ^ (w - n) = 2 ^ w := by
    rw [← Nat.pow_add, Nat.add_sub_cancel' hn]
  have hsplit : 2 ^ n * a = a % 2 ^ (w - n) * 2 ^ n + 2 ^ w * (a / 2 ^ (w - n)) := by
    conv_lhs => rw [← Nat.mod_add_div a (2 ^ (w - n))]
    rw [← hw]
    ring
  have hhigh : 2 ^ w * (a / 2 ^ (w - n)) ≡ 1 * (a / 2 ^ (w - n)) [MOD 2 ^ w - 1] :=
    Nat.ModEq.mul_right _ (two_pow_modEq_one w)
  rw [hsplit, rotate]
  rw [Nat.one_mul] at hhigh
  exact Nat.ModEq.add_left _ hhigh.symm

end Mersenne
