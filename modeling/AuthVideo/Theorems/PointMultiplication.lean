import AuthVideo.Lemmas.Sm2Curve
import Mathlib.Tactic.NormNum.Prime

/-!
# Theorem 56: multiples of a point

`mult_point` stands for the point at infinity with 0, and its callers ask whether the result is 0. The sums and doubles it takes on
the way have no case for it.
-/

namespace AuthVideo

open Sm2

/-- Theorem 56 (multiples of a point). `mult_point` returns the multiple exactly when no head of the binary numeral of `k` that is at
least 2 takes the point to infinity and no odd one has a predecessor, or the predecessor of that, that does. -/
theorem mult_point_iff {p : ℕ} [Fact p.Prime] (hp3 : 3 < p) {a b : ℤ} (hΔ : (ShortCurve.curve (a : ZMod p) b).Δ ≠ 0)
    {x y : ZMod p} (hon : y * y = x * x * x + a * x + b) (k : ℕ) :
    ∃ h : (ShortCurve.curve (a : ZMod p) b).Nonsingular x y,
      multPoint (some ((x.val : ℤ), (y.val : ℤ))) k p a = .ok (encode (k • (.some x y h : CurveGroup p a b))) ↔
        NeverInfinite (.some x y h : CurveGroup p a b) k := by
  have h : (ShortCurve.curve (a : ZMod p) b).Nonsingular x y :=
    (WeierstrassCurve.Affine.equation_iff_nonsingular_of_Δ_ne_zero hΔ).mp (ShortCurve.equation_iff.mpr hon)
  have hP : (.some x y h : CurveGroup p a b) ≠ 0 := WeierstrassCurve.Affine.Point.some_ne_zero h
  refine ⟨h, ?_⟩
  rw [← encode_some h]
  constructor
  · intro hresult
    by_contra hinf
    obtain ⟨e, he⟩ := multPoint_error (by omega) hP hinf
    rw [he] at hresult
    cases hresult
  · exact multPoint_encode hP

instance fact_prime_five : Fact (Nat.Prime 5) := ⟨by norm_num⟩

/-- Five times the point `(0, 1)` of the curve `y² = x³ + x + 1` over five elements is `(3, 1)`. -/
theorem mult_point_iff_five : multPoint (some (0, 1)) 5 5 1 = .ok (some (3, 1)) ∧
    ∃ h : (ShortCurve.curve ((1 : ℤ) : ZMod 5) ((1 : ℤ) : ZMod 5)).Nonsingular 0 1,
      multPoint (some (((0 : ZMod 5).val : ℤ), ((1 : ZMod 5).val : ℤ))) 5 (5 : ℕ) 1 =
          .ok (encode (5 • (.some 0 1 h : CurveGroup 5 1 1))) ↔
        NeverInfinite (.some 0 1 h : CurveGroup 5 1 1) 5 :=
  ⟨by decide +kernel, mult_point_iff (by decide) (by decide +kernel) (by decide) 5⟩

/-- The double of `(0, 0)` on the curve `y² = x³ + x` over five elements is at infinity, and `mult_point` raises. -/
theorem mult_point_order_two : multPoint (some (0, 0)) 2 5 1 = .error .typeError ∧
    ¬∀ (p : ℕ) [Fact p.Prime] (a b : ℤ) (x y : ZMod p) (h : (ShortCurve.curve (a : ZMod p) b).Nonsingular x y) (k : ℕ),
      3 < p → (ShortCurve.curve (a : ZMod p) b).Δ ≠ 0 →
        multPoint (some ((x.val : ℤ), (y.val : ℤ))) k p a = .ok (encode (k • (.some x y h : CurveGroup p a b))) := by
  have herror : multPoint (some (0, 0)) 2 5 1 = .error .typeError := by decide +kernel
  have hΔ : (ShortCurve.curve ((1 : ℤ) : ZMod 5) ((0 : ℤ) : ZMod 5)).Δ ≠ 0 := by decide +kernel
  have hon : (0 : ZMod 5) * 0 = 0 * 0 * 0 + ((1 : ℤ) : ZMod 5) * 0 + ((0 : ℤ) : ZMod 5) := by decide
  have h : (ShortCurve.curve ((1 : ℤ) : ZMod 5) ((0 : ℤ) : ZMod 5)).Nonsingular 0 0 :=
    (WeierstrassCurve.Affine.equation_iff_nonsingular_of_Δ_ne_zero hΔ).mp (ShortCurve.equation_iff.mpr hon)
  refine ⟨herror, ?_⟩
  intro hall
  have hresult := hall 5 1 0 0 0 h 2 (by decide) hΔ
  rw [ZMod.val_zero, Nat.cast_zero, Nat.cast_ofNat, herror] at hresult
  cases hresult

end AuthVideo
