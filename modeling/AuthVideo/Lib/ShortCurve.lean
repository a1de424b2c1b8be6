import Mathlib.AlgebraicGeometry.EllipticCurve.Affine.Point

/-!
# The short Weierstrass form

The curve `y² = x³ + a x + b` over a field, with the sum of two points by the slope of the chord and of the tangent. A slope is given
by its equation, without a division. Two points with one first coordinate are the same or opposite.
-/

namespace ShortCurve

open WeierstrassCurve.Affine

variable {F : Type*} [Field F]

/-- The curve `y² = x³ + a x + b`. -/
def curve (a b : F) : WeierstrassCurve.Affine F := { a₁ := 0, a₂ := 0, a₃ := 0, a₄ := a, a₆ := b }

variable {a b x y x₁ y₁ x₂ y₂ : F}

theorem equation_iff : (curve a b).Equation x y ↔ y * y = x * x * x + a * x + b := by
  rw [WeierstrassCurve.Affine.equation_iff]
  simp only [curve]
  constructor <;> intro h <;> linear_combination h

@[simp] theorem negY_eq (x y : F) : (curve a b).negY x y = -y := by simp [WeierstrassCurve.Affine.negY, curve]

/-- A point of the curve whose double is not at infinity is not singular. -/
theorem nonsingular_of_ne_zero (h : (curve a b).Equation x y) (hy : 2 * y ≠ 0) : (curve a b).Nonsingular x y := by
  rw [WeierstrassCurve.Affine.nonsingular_iff]
  refine ⟨h, .inr ?_⟩
  rw [← WeierstrassCurve.Affine.negY, negY_eq, ne_eq, ← sub_eq_zero]
  intro h0
  exact hy (by linear_combination h0)

/-- A singular point has a vertical and a horizontal tangent. -/
theorem ne_zero_of_nonsingular (h : (curve a b).Nonsingular x y) (hy : 2 * y = 0) : 3 * x * x + a ≠ 0 := by
  rw [WeierstrassCurve.Affine.nonsingular_iff] at h
  intro h0
  rcases h.2 with hx | hy'
  · simp only [curve] at hx
    exact hx (by linear_combination -h0)
  · rw [← WeierstrassCurve.Affine.negY, negY_eq] at hy'
    exact hy' (by linear_combination hy)

/-- Points with the same coordinates are the same. -/
theorem some_congr {h₁ : (curve a b).Nonsingular x₁ y₁} (hx : x₁ = x₂) (hy : y₁ = y₂) :
    Point.some x₁ y₁ h₁ = Point.some x₂ y₂ (hx ▸ hy ▸ h₁) := by
  subst hx hy
  rfl

/-- The first coordinate of a point. -/
def firstCoordinate {W : WeierstrassCurve.Affine F} : W.Point → F
  | .zero => 0
  | .some u _ _ => u

/-- Points with one first coordinate are the same or opposite. -/
theorem eq_or_eq_neg {W : WeierstrassCurve.Affine F} {P Q : W.Point} (hP : P ≠ 0) (hQ : Q ≠ 0)
    (h : firstCoordinate P = firstCoordinate Q) : P = Q ∨ P = -Q := by
  obtain _ | ⟨u, v, h₁⟩ := P
  · exact absurd rfl hP
  obtain _ | ⟨u', v', h₂⟩ := Q
  · exact absurd rfl hQ
  exact Point.X_eq_iff.mp h

variable [DecidableEq F]

/-- The sum of two points with different first coordinates, by the slope of the chord. -/
theorem add_chord (h₁ : (curve a b).Nonsingular x₁ y₁) (h₂ : (curve a b).Nonsingular x₂ y₂) (hx : x₁ ≠ x₂) {e : F}
    (he : e * (x₂ - x₁) = y₂ - y₁) :
    ∃ h, Point.some x₁ y₁ h₁ + Point.some x₂ y₂ h₂ =
      Point.some (e * e - x₁ - x₂) (e * (x₁ - (e * e - x₁ - x₂)) - y₁) h := by
  have hslope : (curve a b).slope x₁ x₂ y₁ y₂ = e := by
    rw [slope_of_X_ne hx, div_eq_iff (sub_ne_zero.mpr hx)]
    linear_combination he
  have hX : (curve a b).addX x₁ x₂ e = e * e - x₁ - x₂ := by
    simp only [addX, curve]
    ring
  have hY : (curve a b).addY x₁ x₂ y₁ e = e * (x₁ - (e * e - x₁ - x₂)) - y₁ := by
    rw [addY, negAddY, hX, negY_eq]
    ring
  rw [Point.add_of_X_ne hx]
  exact ⟨_, some_congr (by rw [hslope, hX]) (by rw [hslope, hY])⟩

/-- The double of a point by the slope of the tangent. -/
theorem add_tangent (h : (curve a b).Nonsingular x y) (hy : 2 * y ≠ 0) {e : F} (he : e * (2 * y) = 3 * x * x + a) :
    ∃ h', Point.some x y h + Point.some x y h = Point.some (e * e - 2 * x) (e * (x - (e * e - 2 * x)) - y) h' := by
  have hne : y ≠ (curve a b).negY x y := by
    rw [negY_eq]
    intro h0
    exact hy (by linear_combination h0)
  have hslope : (curve a b).slope x x y y = e := by
    rw [slope_of_Y_ne rfl hne, negY_eq, div_eq_iff (by rw [sub_neg_eq_add, ← two_mul]; exact hy)]
    simp only [curve]
    linear_combination -he
  have hX : (curve a b).addX x x e = e * e - 2 * x := by
    simp only [addX, curve]
    ring
  have hY : (curve a b).addY x x y e = e * (x - (e * e - 2 * x)) - y := by
    rw [addY, negAddY, hX, negY_eq]
    ring
  rw [Point.add_self_of_Y_ne hne]
  exact ⟨_, some_congr (by rw [hslope, hX]) (by rw [hslope, hY])⟩

/-- A point is of order two exactly when its second coordinate is 0. -/
theorem add_self_eq_zero_iff (h : (curve a b).Nonsingular x y) :
    Point.some x y h + Point.some x y h = 0 ↔ 2 * y = 0 := by
  constructor
  · intro h0
    by_contra hy
    obtain ⟨h', heq⟩ := add_tangent h hy (div_mul_cancel₀ (3 * x * x + a) hy)
    rw [heq] at h0
    exact Point.some_ne_zero h' h0
  · intro hy
    refine Point.add_self_of_Y_eq ?_
    rw [negY_eq]
    linear_combination hy

end ShortCurve
