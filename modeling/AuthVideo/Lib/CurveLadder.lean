import AuthVideo.Lib.ShortCurve
import Mathlib.Algebra.Field.ZMod
import Mathlib.Data.Int.GCD
import Mathlib.GroupTheory.OrderOfElement

/-!
# Multiples of a point without divisions

A point `(x, y)` is kept as a triple `X = x Z²`, `Y = y Z³`. Doubling a triple and adding the first point to it take products and
sums only, so the multiples are computed on integers modulo a number that is not known to be a prime. Modulo each prime divisor they
are multiples on the curve as long as the last `Z` is no multiple of the divisor. A multiple that is opposite to the point gives the
order of the point, and a point of a large prime order shows that the number is a prime (Goldwasser and Kilian).
-/

namespace CurveLadder

open WeierstrassCurve.Affine ShortCurve

/-- A triple of integers. -/
structure Triple where
  X : ℤ
  Y : ℤ
  Z : ℤ

/-- The double of a triple on `y² = x³ + a x + b`, modulo `p`. -/
def double (p a : ℤ) (T : Triple) : Triple :=
  let M := (3 * T.X * T.X + a * T.Z * T.Z * T.Z * T.Z) % p
  let S := 4 * T.X * T.Y * T.Y % p
  let X := (M * M - 2 * S) % p
  ⟨X, (M * (S - X) - 8 * T.Y * T.Y * T.Y * T.Y) % p, 2 * T.Y * T.Z % p⟩

/-- The sum of a triple and the point `(x, y)`, modulo `p`. -/
def add (p x y : ℤ) (T : Triple) : Triple :=
  let H := (x * T.Z * T.Z - T.X) % p
  let R := (y * T.Z * T.Z * T.Z - T.Y) % p
  let X := (R * R - H * H * H - 2 * T.X * H * H) % p
  ⟨X, (R * (T.X * H * H - X) - T.Y * H * H * H) % p, T.Z * H % p⟩

/-- The multiple `k` of the point `(x, y)`, for a `k` of `bits + 1` binary digits. -/
def ladder (p a x y : ℤ) : ℕ → ℕ → Triple
  | 0, _ => ⟨x, y, 1⟩
  | bits + 1, k =>
    let T := double p a (ladder p a x y bits (k / 2))
    if k % 2 = 1 then add p x y T else T

variable {F : Type*} [Field F] {p a b x y : ℤ}

/-- The triple stands for the point. -/
def Represents (T : Triple) (P : (curve (a : F) b).Point) : Prop :=
  ∃ u v h, P = .some u v h ∧ (T.X : F) = u * T.Z ^ 2 ∧ (T.Y : F) = v * T.Z ^ 3

/-- Reducing an integer changes nothing where the modulus is 0. -/
theorem cast_emod (hp : (p : F) = 0) (z : ℤ) : ((z % p : ℤ) : F) = z := by
  rw [Int.emod_def, Int.cast_sub, Int.cast_mul, hp, zero_mul, sub_zero]

/-- A number without a divisor in common with the modulus is not 0. -/
theorem cast_ne_zero (hp : (p : F) = 0) {z : ℤ} (h : Int.gcd z p = 1) : (z : F) ≠ 0 := by
  intro h0
  have hbezout := congrArg (Int.cast : ℤ → F) (Int.gcd_eq_gcd_ab z p)
  rw [h] at hbezout
  push_cast at hbezout
  rw [h0, hp, zero_mul, zero_mul, add_zero] at hbezout
  exact one_ne_zero hbezout

/-- The doubled triple in the field. -/
theorem cast_double (hp : (p : F) = 0) {T : Triple} {X Y Z : F} (hX : (T.X : F) = X) (hY : (T.Y : F) = Y) (hZ : (T.Z : F) = Z) :
    ((double p a T).X : F) = (3 * X * X + a * Z * Z * Z * Z) ^ 2 - 2 * (4 * X * Y * Y) ∧
      ((double p a T).Y : F) = (3 * X * X + a * Z * Z * Z * Z) * (4 * X * Y * Y - (double p a T).X) - 8 * Y * Y * Y * Y ∧
      ((double p a T).Z : F) = 2 * Y * Z := by
  subst hX hY hZ
  simp only [double, cast_emod hp, Int.cast_sub, Int.cast_mul, Int.cast_add, Int.cast_ofNat, pow_two, and_self]

/-- The sum in the field. -/
theorem cast_add (hp : (p : F) = 0) {T : Triple} {X Y Z : F} (hX : (T.X : F) = X) (hY : (T.Y : F) = Y) (hZ : (T.Z : F) = Z) :
    ((add p x y T).X : F) = (y * Z * Z * Z - Y) ^ 2 - (x * Z * Z - X) ^ 3 - 2 * X * (x * Z * Z - X) ^ 2 ∧
      ((add p x y T).Y : F) =
        (y * Z * Z * Z - Y) * (X * (x * Z * Z - X) ^ 2 - (add p x y T).X) - Y * (x * Z * Z - X) ^ 3 ∧
      ((add p x y T).Z : F) = Z * (x * Z * Z - X) := by
  subst hX hY hZ
  simp only [add, cast_emod hp, Int.cast_sub, Int.cast_mul, Int.cast_ofNat, and_true]
  constructor <;> ring

variable [DecidableEq F]

/-- Doubling. -/
theorem represents_double (hp : (p : F) = 0) {T : Triple} {P : (curve (a : F) b).Point} (hT : Represents T P)
    (hZ : ((double p a T).Z : F) ≠ 0) : Represents (double p a T) (P + P) := by
  obtain ⟨u, v, h, rfl, hX, hY⟩ := hT
  obtain ⟨hX', hY', hZ'⟩ := cast_double (a := a) hp hX hY rfl
  have hv : 2 * v ≠ 0 := by
    intro h0
    refine hZ ?_
    rw [hZ']
    linear_combination (T.Z : F) ^ 4 * h0
  have hslope := div_mul_cancel₀ (3 * u * u + (a : F)) hv
  generalize (3 * u * u + (a : F)) / (2 * v) = e at hslope
  obtain ⟨h', hadd⟩ := add_tangent h hv hslope
  -- The numerator of the slope is the slope times the new `Z`.
  have hnum : 3 * (u * (T.Z : F) ^ 2) * (u * T.Z ^ 2) + a * T.Z * T.Z * T.Z * T.Z = e * (double p a T).Z := by
    rw [hZ']
    linear_combination -(T.Z : F) ^ 4 * hslope
  rw [hnum] at hX' hY'
  have hXnew : ((double p a T).X : F) = (e * e - 2 * u) * (double p a T).Z ^ 2 := by
    rw [hX', hZ']
    ring
  refine ⟨_, _, h', hadd, hXnew, ?_⟩
  rw [hY', hXnew, hZ']
  ring

/-- Adding the first point. -/
theorem represents_add (hp : (p : F) = 0) (h : (curve (a : F) b).Nonsingular (x : F) y) {T : Triple} {P : (curve (a : F) b).Point}
    (hT : Represents T P) (hZ : ((add p x y T).Z : F) ≠ 0) : Represents (add p x y T) (P + .some (x : F) y h) := by
  obtain ⟨u, v, h₁, rfl, hX, hY⟩ := hT
  obtain ⟨hX', hY', hZ'⟩ := cast_add (x := x) (y := y) hp hX hY rfl
  have hx : u ≠ x := by
    intro h0
    refine hZ ?_
    rw [hZ']
    linear_combination -(T.Z : F) ^ 3 * h0
  have hslope := div_mul_cancel₀ ((y : F) - v) (sub_ne_zero.mpr hx.symm)
  generalize ((y : F) - v) / ((x : F) - u) = e at hslope
  obtain ⟨h', hadd⟩ := add_chord h₁ h hx hslope
  have hnum : (y : F) * T.Z * T.Z * T.Z - v * T.Z ^ 3 = e * (add p x y T).Z := by
    rw [hZ']
    linear_combination -(T.Z : F) ^ 3 * hslope
  rw [hnum] at hX' hY'
  have hXnew : ((add p x y T).X : F) = (e * e - u - x) * (add p x y T).Z ^ 2 := by
    rw [hX', hZ']
    ring
  refine ⟨_, _, h', hadd, hXnew, ?_⟩
  rw [hY', hXnew, hZ']
  ring

/-- The ladder. -/
theorem represents_ladder (hp : (p : F) = 0) (h : (curve (a : F) b).Nonsingular (x : F) y) {bits k : ℕ} (hk : k / 2 ^ bits = 1)
    (hZ : ((ladder p a x y bits k).Z : F) ≠ 0) : Represents (ladder p a x y bits k) (k • .some (x : F) y h) := by
  induction bits generalizing k with
  | zero =>
    obtain rfl : k = 1 := by rwa [pow_zero, Nat.div_one] at hk
    rw [one_nsmul]
    exact ⟨x, y, h, rfl, by simp [ladder], by simp [ladder]⟩
  | succ bits ih =>
    rw [ladder] at hZ ⊢
    have hhalf : k / 2 / 2 ^ bits = 1 := by rwa [Nat.div_div_eq_div_mul, ← pow_succ']
    have hdouble : ((double p a (ladder p a x y bits (k / 2))).Z : F) ≠ 0 →
        Represents (double p a (ladder p a x y bits (k / 2))) ((k / 2) • Point.some (x : F) y h + (k / 2) • Point.some (x : F) y h) := by
      intro hne
      refine represents_double hp (ih hhalf ?_) hne
      rw [(cast_double hp rfl rfl rfl).2.2] at hne
      exact right_ne_zero_of_mul hne
    rw [← add_nsmul, ← two_mul] at hdouble
    by_cases hodd : k % 2 = 1
    · rw [if_pos hodd] at hZ ⊢
      have hne := hZ
      rw [(cast_add hp rfl rfl rfl).2.2] at hne
      have hsum := represents_add hp h (hdouble (left_ne_zero_of_mul hne)) hZ
      rwa [← succ_nsmul, show 2 * (k / 2) + 1 = k by omega] at hsum
    · rw [if_neg hodd] at hZ ⊢
      rw [show 2 * (k / 2) = k by omega] at hdouble
      exact hdouble hZ

/-! ## The order of a point -/

/-- The multiple `k` is opposite to the point `(x, y)`. -/
def isOpposite (p a x y : ℤ) (bits k : ℕ) : Bool :=
  let T := ladder p a x y bits k
  (T.X - x * T.Z * T.Z) % p = 0 ∧ (T.Y + y * T.Z * T.Z * T.Z) % p = 0 ∧ Int.gcd T.Z p = 1

/-- Then the next multiple of the point is the point at infinity. -/
theorem succ_nsmul_eq_zero (hp : (p : F) = 0) (h : (curve (a : F) b).Nonsingular (x : F) y) {bits k : ℕ} (hk : k / 2 ^ bits = 1)
    (hcheck : isOpposite p a x y bits k = true) : (k + 1) • (.some (x : F) y h : (curve (a : F) b).Point) = 0 := by
  obtain ⟨hX, hY, hgcd⟩ := of_decide_eq_true hcheck
  have hZ := cast_ne_zero hp hgcd
  have hX' := congrArg (Int.cast : ℤ → F) hX
  have hY' := congrArg (Int.cast : ℤ → F) hY
  rw [cast_emod hp] at hX' hY'
  push_cast at hX' hY'
  obtain ⟨u, v, h', heq, hu, hv⟩ := represents_ladder hp h hk hZ
  have hux : u = x := mul_right_cancel₀ (pow_ne_zero 2 hZ) (by linear_combination hX' - hu)
  have hvy : v = -y := mul_right_cancel₀ (pow_ne_zero 3 hZ) (by linear_combination hY' - hv)
  rw [succ_nsmul, heq, Point.add_of_Y_eq hux (by rw [hvy, negY_eq])]

/-- A point of prime order. -/
theorem addOrderOf_eq (hp : (p : F) = 0) (h : (curve (a : F) b).Nonsingular (x : F) y) {bits n : ℕ} (hn : n.Prime)
    (hk : (n - 1) / 2 ^ bits = 1) (hcheck : isOpposite p a x y bits (n - 1) = true) :
    addOrderOf (.some (x : F) y h : (curve (a : F) b).Point) = n := by
  have : Fact n.Prime := ⟨hn⟩
  have hzero := succ_nsmul_eq_zero hp h hk hcheck
  rw [Nat.sub_add_cancel hn.one_le] at hzero
  exact addOrderOf_eq_prime hzero (Point.some_ne_zero h)

/-! ## Primality -/

/-- The multiples of a point up to half its order have different first coordinates. -/
theorem injOn_firstCoordinate {W : WeierstrassCurve.Affine F} {P : W.Point} {n : ℕ} (hP : addOrderOf P = n) :
    Set.InjOn (fun i : ℕ => firstCoordinate (i • P)) (Finset.Icc 1 ((n - 1) / 2)) := by
  intro i hi j hj hij
  rw [Finset.coe_Icc, Set.mem_Icc] at hi hj
  have hne : ∀ m, 1 ≤ m → m < n → m • P ≠ 0 := fun m hm hmn => nsmul_ne_zero_of_lt_addOrderOf (by omega) (by omega)
  rcases eq_or_eq_neg (hne i hi.1 (by omega)) (hne j hj.1 (by omega)) hij with hsame | hopposite
  · exact nsmul_injOn_Iio_addOrderOf (by rw [Set.mem_Iio]; omega) (by rw [Set.mem_Iio]; omega) hsame
  · rw [eq_neg_iff_add_eq_zero, ← add_nsmul] at hopposite
    exact absurd hopposite (hne (i + j) (by omega) (by omega))

/-- A number is prime when a point of a curve modulo the number has a prime order whose half is above the square root of it. -/
theorem prime_of_order {p : ℕ} {a b x y : ℤ} {bits n : ℕ} (hp : 1 < p) (hon : (p : ℤ) ∣ y * y - (x * x * x + a * x + b))
    (hy : Int.gcd (2 * y) p = 1) (hn : n.Prime) (hk : (n - 1) / 2 ^ bits = 1) (hcheck : isOpposite p a x y bits (n - 1) = true)
    (hlarge : p < (n - 1) / 2 * ((n - 1) / 2)) : p.Prime := by
  by_contra hcomposite
  have hq : p.minFac.Prime := Nat.minFac_prime (by omega)
  have : Fact p.minFac.Prime := ⟨hq⟩
  have hzero : (((p : ℕ) : ℤ) : ZMod p.minFac) = 0 := by
    rw [Int.cast_natCast, ZMod.natCast_eq_zero_iff]
    exact Nat.minFac_dvd p
  have hequation : (curve (a : ZMod p.minFac) b).Equation (x : ZMod p.minFac) y := by
    obtain ⟨c, hc⟩ := hon
    have hcast := congrArg (Int.cast : ℤ → ZMod p.minFac) hc
    rw [Int.cast_mul, hzero, zero_mul] at hcast
    push_cast at hcast
    rw [ShortCurve.equation_iff]
    linear_combination hcast
  have hdouble := cast_ne_zero hzero hy
  push_cast at hdouble
  have horder := addOrderOf_eq hzero (nonsingular_of_ne_zero hequation hdouble) hn hk hcheck
  have hcard := Finset.card_le_card_of_injOn _ (fun i _ => Finset.mem_univ _) (injOn_firstCoordinate horder)
  rw [Nat.card_Icc, Nat.add_sub_cancel, Finset.card_univ, ZMod.card] at hcard
  have hsq : p.minFac * p.minFac ≤ p := by
    rw [← pow_two]
    exact Nat.minFac_sq_le_self (by omega) hcomposite
  have := Nat.mul_le_mul hcard hcard
  omega

end CurveLadder
