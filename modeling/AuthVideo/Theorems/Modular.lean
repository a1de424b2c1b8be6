import AuthVideo.Board.Protocol
import AuthVideo.Lemmas.Board
import AuthVideo.Lemmas.Modular

/-!
# Theorems 32 and 33: the arithmetic of the random-number check of the boards

The division of `uint256_mulmod` subtracts the modulus only from a remainder above it, and shifts the remainder in 256 bits. So its
remainders are exact as long as none of the leading parts of the product is a multiple of the modulus and no shift drops a bit.
-/

namespace AuthVideo

/-! ## Multiplication -/

/-- What `uint256_mulmod` is for. -/
def Reduces (a b mod : Uint256) : Prop :=
  (uint256Mulmod a b mod).value = a.value * b.value % mod.value ∧ (uint256Mulmod a b mod).value < mod.value

/-- No leading part of the product but zero is a multiple of the modulus, and no remainder loses a bit when it is shifted. -/
def ProductClean (a b mod : Nat) : Prop :=
  ∀ i < 512, (mod ∣ a * b / 2 ^ i → a * b / 2 ^ i = 0) ∧ 2 * (a * b / 2 ^ (i + 1) % mod) + a * b / 2 ^ i % 2 < 2 ^ 256

/-- The condition is that of the long division. -/
theorem productClean_iff (a b mod : Uint256) (hmod : 0 < mod.value) :
    ProductClean a.value b.value mod.value ↔ LongDivision.Clean (2 ^ 256) mod.value (a.value * b.value) 512 := by
  have hne := LongDivision.forall_brought_ne_iff hmod (mul_value_lt a b)
  constructor
  · intro h i hi
    exact ⟨hne.mpr (fun j hj => (h j hj).1) i hi, (h i hi).2⟩
  · intro h i hi
    exact ⟨hne.mp (fun j hj => (h j hj).1) i hi, (h i hi).2⟩

/-- With a modulus that leaves a bit free no shift loses one, and above the highest bit of the product there is nothing to see. -/
theorem productClean_of_lt {a b mod k : Nat} (hmod : 0 < mod ∧ mod ≤ 2 ^ 255) (hk : a * b < 2 ^ k)
    (h : ∀ i < k, mod ∣ a * b / 2 ^ i → a * b / 2 ^ i = 0) : ProductClean a b mod := by
  intro i _
  constructor
  · intro hdvd
    rcases Nat.lt_or_ge i k with hi | hi
    · exact h i hi hdvd
    · exact Nat.div_eq_of_lt (Nat.lt_of_lt_of_le hk (Nat.pow_le_pow_right (by decide) hi))
  · have := Nat.mod_lt (a * b / 2 ^ (i + 1)) hmod.1
    omega

/-- A clean product is reduced. -/
theorem reduces_of_productClean {a b mod : Uint256} (hmod : 0 < mod.value) (h : ProductClean a.value b.value mod.value) :
    Reduces a b mod := by
  have hclean := (productClean_iff a b mod hmod).mp h
  have hexact := ((mulmodRem_run a b mod).exact_iff hmod mod.value_lt (by decide) (mul_value_lt a b)).mpr hclean
  have hresult : (uint256Mulmod a b mod).value = a.value * b.value % mod.value := by
    rw [← mulmodRem_zero, hexact 0 (Nat.zero_le 512), LongDivision.leading_zero]
  exact ⟨hresult, by rw [hresult]; exact Nat.mod_lt _ hmod⟩

/-- Theorem 32 (long division). The remainder is exact after every turn of the division if and only if the product is clean, and then
`uint256_mulmod` leaves the product reduced. Where the product fits into 256 bits, it does so only then. -/
theorem mulmod_exact_iff (a b mod : Uint256) (hmod : mod.value ≠ 0) :
    ((∀ i ≤ 512, (mulmodRem a b mod i).value = a.value * b.value / 2 ^ i % mod.value) ↔
        ProductClean a.value b.value mod.value) ∧
      (ProductClean a.value b.value mod.value → Reduces a b mod) ∧
      (a.value * b.value < 2 ^ 256 → (Reduces a b mod ↔ ProductClean a.value b.value mod.value)) := by
  have hpos := Nat.pos_of_ne_zero hmod
  have hrun := mulmodRem_run a b mod
  refine ⟨?_, reduces_of_productClean hpos, ?_⟩
  · rw [productClean_iff a b mod hpos]
    exact hrun.exact_iff hpos mod.value_lt (by decide) (mul_value_lt a b)
  · intro hfit
    refine ⟨fun h => ?_, reduces_of_productClean hpos⟩
    rw [productClean_iff a b mod hpos, ← hrun.reduced_iff hpos mod.value_lt (by decide) (mul_value_lt a b) hfit]
    simp only [mulmodRem_zero]
    exact h.1

/-- 5 times 7 is clean for the modulus 6, and leaves 5. -/
theorem mulmod_exact_iff_six :
    Reduces (setUint256 0 0 0 0 0 0 0 5) (setUint256 0 0 0 0 0 0 0 7) (setUint256 0 0 0 0 0 0 0 6) :=
  (mulmod_exact_iff _ _ _ (by decide)).2.1 (productClean_of_lt (k := 6) (by decide) (by decide) (by decide))

/-- 2 times 3 meets the modulus 6 with its last bit, which `uint256_mulmod` leaves as it is. -/
theorem product_not_reduced : ¬∀ a b mod : Uint256, mod.value ≠ 0 → Reduces a b mod := by
  intro h
  let two := setUint256 0 0 0 0 0 0 0 2
  let three := setUint256 0 0 0 0 0 0 0 3
  let six := setUint256 0 0 0 0 0 0 0 6
  have hreduced := (h two three six (by decide)).1
  have hrun := mulmodRem_run two three six
  rw [← mulmodRem_zero] at hreduced
  have hclean := (hrun.reduced_iff (by decide) six.value_lt (by decide) (mul_value_lt two three) (by decide)).mp hreduced
  exact (hclean 0 (by decide)).1 (by decide)

/-! ## The random-number check -/

/-- The identity that the centre and the Python device test on the same numbers. -/
def NonceIdentity (TA TB TC N : Nat) : Prop := (TA ^ 2 + TB ^ 2 + TC ^ 2) % N = (2 * TA * TB * TC + 1) % N

instance (TA TB TC N : Nat) : Decidable (NonceIdentity TA TB TC N) := inferInstanceAs (Decidable (_ = _))

/-- The condition of the comparison: its six products are clean, and its sums fit into 256 bits. -/
structure NonceClean (TA TB TC N : Nat) : Prop where
  ta2 : ProductClean TA TA N
  tb2 : ProductClean TB TB N
  tc12 : ProductClean TC TC N
  tab : ProductClean TA TB N
  tabc : ProductClean (TA * TB % N) TC N
  twice : ProductClean (TA * TB % N * TC % N) 2 N
  sum : TA * TA % N + TB * TB % N < 2 ^ 256
  sum' : sumLeft (TA * TA % N) (TB * TB % N) N + TC * TC % N < 2 ^ 256

/-- The left side. -/
theorem left_mod (x y z TA TB TC N : Nat) (hx : x % N = TA * TA % N) (hy : y % N = TB * TB % N) (hz : z % N = TC * TC % N) :
    sumLeft (sumLeft x y N) z N % N = (TA ^ 2 + TB ^ 2 + TC ^ 2) % N := by
  have hsum : x + y + z ≡ TA * TA + TB * TB + TC * TC [MOD N] := (Nat.ModEq.add (Nat.ModEq.add hx hy) hz)
  have hinner : sumLeft x y N + z ≡ x + y + z [MOD N] := Nat.ModEq.add_right z (sumLeft_mod x y N)
  rw [sumLeft_mod, Nat.pow_two, Nat.pow_two, Nat.pow_two]
  exact hinner.trans hsum

/-- The right side. -/
theorem right_mod (x y z TA TB TC N : Nat) (hx : x % N = TA * TB % N) (hy : y % N = x * TC % N) (hz : z % N = y * 2 % N) :
    sumLeft z 1 N % N = (2 * TA * TB * TC + 1) % N := by
  have hxy : y ≡ TA * TB * TC [MOD N] := Nat.ModEq.trans hy (Nat.ModEq.mul_right TC hx)
  have hyz : z ≡ TA * TB * TC * 2 [MOD N] := Nat.ModEq.trans hz (Nat.ModEq.mul_right 2 hxy)
  have hcomm : 2 * TA * TB * TC = TA * TB * TC * 2 := by ring
  rw [sumLeft_mod, hcomm]
  exact Nat.ModEq.add_right 1 hyz

/-- Residues in another range: from 1 to the modulus. -/
theorem eq_of_mod_eq {x y N : Nat} (hx : x ≠ 0) (hxN : x ≤ N) (hy : y ≠ 0) (hyN : y ≤ N) (h : x % N = y % N) : x = y := by
  rcases Nat.lt_or_eq_of_le hxN with hx' | rfl
  · rw [Nat.mod_eq_of_lt hx'] at h
    rcases Nat.lt_or_eq_of_le hyN with hy' | rfl
    · rwa [Nat.mod_eq_of_lt hy'] at h
    · rw [Nat.mod_self] at h
      exact absurd h hx
  · rw [Nat.mod_self] at h
    rcases Nat.lt_or_eq_of_le hyN with hy' | rfl
    · rw [Nat.mod_eq_of_lt hy'] at h
      exact absurd h.symm hy
    · rfl

/-- A modulus does not divide both a square and twice its root times anything, with one added. -/
theorem not_dvd_both {A k N : Nat} (hN : 2 ≤ N) (hsquare : N ∣ A * A) : ¬N ∣ A * k + 1 := by
  intro hone
  have hsq : N ∣ A * k * (A * k) := by
    have heq : A * k * (A * k) = A * A * (k * k) := by ring
    rw [heq]
    exact Dvd.dvd.mul_right hsquare _
  have hsum : A * k * (A * k) + 2 * (A * k + 1) = (A * k + 1) * (A * k + 1) + 1 := by ring
  have hleft : N ∣ A * k * (A * k) + 2 * (A * k + 1) := dvd_add hsq (Dvd.dvd.mul_left hone 2)
  rw [hsum] at hleft
  have hunit := (Nat.dvd_add_right (Dvd.dvd.mul_left hone (A * k + 1))).mp hleft
  have := Nat.le_of_dvd (by decide) hunit
  omega

/-- A product of 256 bits is left congruent, clean or not. -/
theorem mulmod_small {a b : Uint256} (mod : Uint256) (hfit : a.value * b.value < 2 ^ 256) :
    (uint256Mulmod a b mod).value % mod.value = a.value * b.value % mod.value ∧
      (uint256Mulmod a b mod).value ≤ a.value * b.value := by
  have h := (mulmodRem_run a b mod).mod_eq_and_le (mul_value_lt a b) hfit (Nat.zero_le 512)
  rwa [mulmodRem_zero, LongDivision.leading_zero] at h

section NonceTest

variable {TA1 TB1 TC1 N : Uint256}

/-- The comparison, on the values of its intermediate results. -/
theorem nonceTest_iff_values (hsum : (uint256Mulmod TA1 TA1 N).value + (uint256Mulmod TB1 TB1 N).value < 2 ^ 256)
    (hsum' : sumLeft (uint256Mulmod TA1 TA1 N).value (uint256Mulmod TB1 TB1 N).value N.value +
      (uint256Mulmod TC1 TC1 N).value < 2 ^ 256)
    (hright : (uint256Mulmod (uint256Mulmod (uint256Mulmod TA1 TB1 N) TC1 N) (setUint256 0 0 0 0 0 0 0 2) N).value + 1 < 2 ^ 256) :
    Chip.nonceTest TA1 TB1 TC1 N = true ↔
      sumLeft (sumLeft (uint256Mulmod TA1 TA1 N).value (uint256Mulmod TB1 TB1 N).value N.value) (uint256Mulmod TC1 TC1 N).value
          N.value =
        sumLeft (uint256Mulmod (uint256Mulmod (uint256Mulmod TA1 TB1 N) TC1 N) (setUint256 0 0 0 0 0 0 0 2) N).value 1
          N.value := by
  have hone : (setUint256 0 0 0 0 0 0 0 1).value = 1 := by decide
  have hinner := uint256Addmod_value N hsum
  rw [← hinner] at hsum'
  rw [← hone] at hright
  have hvalues : ∀ x y : Uint256, x = y ↔ x.value = y.value := fun x y => ⟨congrArg Limbs.value, Limbs.value_inj⟩
  rw [Chip.nonceTest, uint256Equal_iff, hvalues, uint256Addmod_value N hsum', uint256Addmod_value N hright, hinner, hone]

/-- On exact intermediate results the comparison decides the identity. Where both sides are multiples of the modulus both are the
modulus itself. -/
theorem sides_eq_iff {TA TB TC N : Nat} (hN : 2 ≤ N) :
    sumLeft (sumLeft (TA * TA % N) (TB * TB % N) N) (TC * TC % N) N = sumLeft (TA * TB % N * TC % N * 2 % N) 1 N ↔
      NonceIdentity TA TB TC N := by
  have hpos : 0 < N := by omega
  have hleft := left_mod (TA * TA % N) (TB * TB % N) (TC * TC % N) TA TB TC N (Nat.mod_mod _ _) (Nat.mod_mod _ _)
    (Nat.mod_mod _ _)
  have hright := right_mod (TA * TB % N) (TA * TB % N * TC % N) (TA * TB % N * TC % N * 2 % N) TA TB TC N (Nat.mod_mod _ _)
    (Nat.mod_mod _ _) (Nat.mod_mod _ _)
  have hleftLe : sumLeft (sumLeft (TA * TA % N) (TB * TB % N) N) (TC * TC % N) N ≤ N :=
    sumLeft_le (sumLeft_le (Nat.le_of_lt (Nat.mod_lt _ hpos)) (Nat.mod_lt _ hpos)) (Nat.mod_lt _ hpos)
  have hrightLe : sumLeft (TA * TB % N * TC % N * 2 % N) 1 N ≤ N := sumLeft_le (Nat.le_of_lt (Nat.mod_lt _ hpos)) (by omega)
  have hrightPos : sumLeft (TA * TB % N * TC % N * 2 % N) 1 N ≠ 0 := fun h => absurd (sumLeft_eq_zero h).2 (by decide)
  rw [NonceIdentity, ← hleft, ← hright]
  constructor
  · intro h
    rw [h]
  · intro h
    by_cases hzero : sumLeft (sumLeft (TA * TA % N) (TB * TB % N) N) (TC * TC % N) N = 0
    · -- the right side would be a multiple of the modulus, and so would the square of TA
      have hsquare : N ∣ TA * TA := Nat.dvd_of_mod_eq_zero (sumLeft_eq_zero (sumLeft_eq_zero hzero).1).1
      rw [hzero, Nat.zero_mod, hright] at h
      have hcomm : 2 * TA * TB * TC = TA * (2 * TB * TC) := by ring
      rw [hcomm] at h
      exact absurd (Nat.dvd_of_mod_eq_zero h.symm) (not_dvd_both hN hsquare)
    · exact eq_of_mod_eq hzero hleftLe hrightPos hrightLe h

/-- Where the products are clean the comparison decides the identity. -/
theorem nonceTest_iff_of_clean (hN : 2 ≤ N.value) (h : NonceClean TA1.value TB1.value TC1.value N.value) :
    Chip.nonceTest TA1 TB1 TC1 N = true ↔ NonceIdentity TA1.value TB1.value TC1.value N.value := by
  have hpos : 0 < N.value := by omega
  have htwo : (setUint256 0 0 0 0 0 0 0 2).value = 2 := by decide
  have hta := (reduces_of_productClean hpos h.ta2).1
  have htb := (reduces_of_productClean hpos h.tb2).1
  have htc := (reduces_of_productClean hpos h.tc12).1
  have htab := (reduces_of_productClean hpos h.tab).1
  have htabc := (reduces_of_productClean (a := uint256Mulmod TA1 TB1 N) (b := TC1) hpos (by rw [htab]; exact h.tabc)).1
  rw [htab] at htabc
  have htwice := (reduces_of_productClean (a := uint256Mulmod (uint256Mulmod TA1 TB1 N) TC1 N)
    (b := setUint256 0 0 0 0 0 0 0 2) hpos (by rw [htabc, htwo]; exact h.twice)).1
  rw [htabc, htwo] at htwice
  have hlt := Nat.mod_lt (TA1.value * TB1.value % N.value * TC1.value % N.value * 2) hpos
  have hbound := N.value_lt
  rw [nonceTest_iff_values (by rw [hta, htb]; exact h.sum) (by rw [hta, htb, htc]; exact h.sum') (by rw [htwice]; omega),
    hta, htb, htc, htwice]
  exact sides_eq_iff hN

/-- With a modulus of at most 85 bits no product is wider than 256, and the two sides are congruent to those of the identity. -/
theorem identity_of_nonceTest (hTA : TA1.value < N.value) (hTB : TB1.value < N.value) (hTC : TC1.value < N.value)
    (hsmall : N.value ≤ 2 ^ 85) (haccept : Chip.nonceTest TA1 TB1 TC1 N = true) :
    NonceIdentity TA1.value TB1.value TC1.value N.value := by
  have htwo : (setUint256 0 0 0 0 0 0 0 2).value = 2 := by decide
  have hsq : ∀ x y : Nat, x < N.value → y < N.value → x * y < 2 ^ 170 := fun x y hx hy =>
    Nat.lt_of_lt_of_eq (Nat.mul_lt_mul'' (Nat.lt_of_lt_of_le hx hsmall) (Nat.lt_of_lt_of_le hy hsmall)) (Nat.pow_add 2 85 85).symm
  have hwide : 2 ^ 170 < 2 ^ 256 := by decide
  obtain ⟨htaMod, htaLe⟩ := mulmod_small (a := TA1) (b := TA1) N ((hsq _ _ hTA hTA).trans hwide)
  obtain ⟨htbMod, htbLe⟩ := mulmod_small (a := TB1) (b := TB1) N ((hsq _ _ hTB hTB).trans hwide)
  obtain ⟨htcMod, htcLe⟩ := mulmod_small (a := TC1) (b := TC1) N ((hsq _ _ hTC hTC).trans hwide)
  obtain ⟨htabMod, htabLe⟩ := mulmod_small (a := TA1) (b := TB1) N ((hsq _ _ hTA hTB).trans hwide)
  have htaLt := hsq _ _ hTA hTA
  have htbLt := hsq _ _ hTB hTB
  have htcLt := hsq _ _ hTC hTC
  have htabLt : (uint256Mulmod TA1 TB1 N).value < 2 ^ 170 := Nat.lt_of_le_of_lt htabLe (hsq _ _ hTA hTB)
  have htabcLt : (uint256Mulmod TA1 TB1 N).value * TC1.value < 2 ^ 255 :=
    Nat.lt_of_lt_of_eq (Nat.mul_lt_mul'' htabLt (Nat.lt_of_lt_of_le hTC hsmall)) (Nat.pow_add 2 170 85).symm
  obtain ⟨htabcMod, htabcLe⟩ := mulmod_small (a := uint256Mulmod TA1 TB1 N) (b := TC1) N (by omega)
  have htwiceLt : (uint256Mulmod (uint256Mulmod TA1 TB1 N) TC1 N).value * (setUint256 0 0 0 0 0 0 0 2).value < 2 ^ 256 := by
    rw [htwo]
    omega
  obtain ⟨htwiceMod, htwiceLe⟩ := mulmod_small N htwiceLt
  rw [htwo] at htwiceMod htwiceLe
  have hinnerLe := sumLeft_le_add (uint256Mulmod TA1 TA1 N).value (uint256Mulmod TB1 TB1 N).value N.value
  rw [nonceTest_iff_values (by omega) (by omega) (by omega)] at haccept
  have hmod := congrArg (· % N.value) haccept
  rw [left_mod _ _ _ _ _ _ _ htaMod htbMod htcMod, right_mod _ _ _ _ _ _ _ htabMod htabcMod htwiceMod] at hmod
  exact hmod

/-- Theorem 33 (random-number check). Where the products are clean the comparison decides the identity. With a modulus of at most 85
bits it never accepts numbers without it. -/
theorem nonceTest_iff_identity (TA1 TB1 TC1 N : Uint256) (hN : 2 ≤ N.value) (hTA : TA1.value < N.value)
    (hTB : TB1.value < N.value) (hTC : TC1.value < N.value) :
    (NonceClean TA1.value TB1.value TC1.value N.value →
        (Chip.nonceTest TA1 TB1 TC1 N = true ↔ NonceIdentity TA1.value TB1.value TC1.value N.value)) ∧
      (N.value ≤ 2 ^ 85 → Chip.nonceTest TA1 TB1 TC1 N = true → NonceIdentity TA1.value TB1.value TC1.value N.value) :=
  ⟨nonceTest_iff_of_clean hN, identity_of_nonceTest hTA hTB hTC⟩

/-- The numbers of a run with `a = b = 1`, the public key 3 and the modulus 7, and what the comparison says of them. -/
theorem nonceTest_iff_identity_seven :
    Chip.nonceTest (setUint256 0 0 0 0 0 0 0 3) (setUint256 0 0 0 0 0 0 0 3) (setUint256 0 0 0 0 0 0 0 3)
      (setUint256 0 0 0 0 0 0 0 7) = true := by
  have hclean : NonceClean (setUint256 0 0 0 0 0 0 0 3).value (setUint256 0 0 0 0 0 0 0 3).value
      (setUint256 0 0 0 0 0 0 0 3).value (setUint256 0 0 0 0 0 0 0 7).value := by
    constructor
    case sum => decide
    case sum' => decide
    all_goals exact productClean_of_lt (k := 4) (by decide) (by decide) (by decide)
  exact ((nonceTest_iff_identity _ _ _ _ (by decide) (by decide) (by decide) (by decide)).1 hclean).mpr (by decide)

/-- The numbers of a run with `a = b = 1`, the public key 3 and the modulus 6. They satisfy the identity, and the comparison refuses
them: the square of 5 has the leading part 6. -/
theorem honest_nonce_refused : ¬∀ TA1 TB1 TC1 N : Uint256, 2 ≤ N.value → TA1.value < N.value → TB1.value < N.value →
    TC1.value < N.value →
      (Chip.nonceTest TA1 TB1 TC1 N = true ↔ NonceIdentity TA1.value TB1.value TC1.value N.value) := by
  intro h
  let three := setUint256 0 0 0 0 0 0 0 3
  let five := setUint256 0 0 0 0 0 0 0 5
  let six := setUint256 0 0 0 0 0 0 0 6
  have hsix : six.value = 6 := by decide
  have haccept := (h three three five six (by decide) (by decide) (by decide) (by decide)).mpr (by decide)
  -- the right side is 1
  have hreduced : Reduces three three six :=
    reduces_of_productClean (by decide) (productClean_of_lt (k := 4) (by decide) (by decide) (by decide))
  have htab : (uint256Mulmod three three six).value = 3 := hreduced.1.trans (by decide)
  have hreduced' : Reduces (uint256Mulmod three three six) five six :=
    reduces_of_productClean (by decide) (by rw [htab]; exact productClean_of_lt (k := 4) (by decide) (by decide) (by decide))
  have htabc : (uint256Mulmod (uint256Mulmod three three six) five six).value = 3 := by
    rw [hreduced'.1, htab]
    decide
  obtain ⟨htwice, htwiceLe⟩ := mulmod_small (a := uint256Mulmod (uint256Mulmod three three six) five six)
    (b := setUint256 0 0 0 0 0 0 0 2) six
    (by rw [htabc]; decide)
  have hprod : (uint256Mulmod (uint256Mulmod three three six) five six).value * (setUint256 0 0 0 0 0 0 0 2).value = 6 := by
    rw [htabc]
    decide
  rw [hprod] at htwice htwiceLe
  -- the left side is 7 at least
  obtain ⟨hta, htaLe⟩ := mulmod_small (a := three) (b := three) six (by decide)
  obtain ⟨htc, htcLe⟩ := mulmod_small (a := five) (b := five) six (by decide)
  have htcNe : (uint256Mulmod five five six).value ≠ five.value * five.value % six.value := by
    intro heq
    have hclean := (mulmodRem_run five five six).reduced_iff (by decide) six.value_lt (by decide) (mul_value_lt five five) (by decide)
    simp only [mulmodRem_zero] at hclean
    exact (hclean.mp heq 2 (by decide)).1 (by decide)
  have hnine : three.value * three.value = 9 := by decide
  have htwentyfive : five.value * five.value = 25 := by decide
  rw [hnine] at hta htaLe
  rw [htwentyfive] at htc htcLe htcNe
  rw [hsix] at hta htc htcNe htwice
  rw [nonceTest_iff_values (by omega) (by rw [sumLeft]; split <;> omega) (by omega), hsix] at haccept
  simp only [sumLeft] at haccept
  split at haccept <;> split at haccept <;> split at haccept <;> omega

end NonceTest

end AuthVideo
