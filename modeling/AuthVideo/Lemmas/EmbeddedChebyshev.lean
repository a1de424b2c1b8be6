import AuthVideo.EmbeddedChebyshev
import AuthVideo.Lemmas.BigMod
import AuthVideo.Lemmas.Chebyshev
import Mathlib.Data.Nat.Size

/-!
# What the matrices of the boards compute

The entries of every matrix stay below the modulus, so each product is below `2 ^ 256` copies of it and each division ends. Modulo
`p` the functions are those of the ring of matrices.
-/

namespace AuthVideo

open Words Matrix ChebyshevValue

/-! ## Tests -/

/-- The test of all words against zero. -/
theorem isZero_iff {n : Nat} (a : Limbs n) : a.IsZero ↔ a.value = 0 := (value_eq_zero_iff a.words).symm

/-- A number by its lowest word. -/
theorem value_eq_low {a : Uint256} : a.value = a.low.toNat + 2 ^ 32 * value a.words.tail := by
  obtain ⟨words, hlen⟩ := a
  obtain _ | ⟨w, ws⟩ := words
  · cases hlen
  · rfl

/-- The test against one. -/
theorem isOne_iff (a : Uint256) : a.IsOne ↔ a.value = 1 := by
  have hlow := a.low.toNat_lt
  rw [Limbs.IsOne, ← value_eq_zero_iff, value_eq_low, ← UInt32.toNat_inj, UInt32.toNat_one]
  omega

/-- The test of the lowest bit. -/
theorem low_and_one_iff (a : Uint256) : a.low &&& 1 ≠ 0 ↔ a.value % 2 = 1 := by
  have hand : (a.low &&& 1).toNat = a.low.toNat % 2 := by
    rw [UInt32.toNat_and]
    exact Nat.and_one_is_mod _
  rw [ne_eq, ← UInt32.toNat_inj, hand, UInt32.toNat_zero, value_eq_low]
  omega

@[simp] theorem value_one : (Limbs.zero.setLow 1 : Uint256).value = 1 := by decide

/-! ## Sums of products -/

/-- One subtraction reduces a sum that is less than two copies of the modulus, the carry of the sum included. -/
theorem reduce_value {s m : Uint256} {t carry : Nat} (hsum : s.value + 2 ^ 256 * carry = t) (ht : t < 2 * m.value) {C : Prop}
    [Decidable C] (hC : C ↔ carry ≠ 0) :
    (if C ∨ bigCmp s m ≥ 0 then (bigSub s m).1 else s).value = t % m.value := by
  have hm : m.value < 2 ^ 256 := m.value_lt
  have hs : s.value < 2 ^ 256 := s.value_lt
  simp only [bigCmp_nonneg_iff, hC, bigSub]
  by_cases hcarry : carry = 0
  · rw [hcarry, Nat.mul_zero, Nat.add_zero] at hsum
    by_cases hle : m.value ≤ s.value
    · rw [if_pos (.inr hle), subWords_of_le hle, hsum, Nat.mod_eq_sub_mod (by omega), Nat.mod_eq_of_lt (by omega)]
    · rw [if_neg (by omega), hsum, Nat.mod_eq_of_lt (by omega)]
  · have hwrap := subWords_of_lt (a := s) (b := m) (by omega)
    rw [if_pos (.inl hcarry), Nat.mod_eq_sub_mod (by omega), Nat.mod_eq_of_lt (by omega)]
    omega

/-- A sum of two products whose first factors are reduced. -/
theorem mulAddMod_spec {fuel : Nat} (hfuel : 1026 ≤ fuel) {a b c d m : Uint256} (ha : a.value < m.value)
    (hc : c.value < m.value) :
    ∃ r carry, mulAddMod fuel a b c d m = some (r, carry) ∧ r.value = (a.value * b.value + c.value * d.value) % m.value ∧
      (carry ≠ 0 ↔ 2 ^ 256 ≤ a.value * b.value % m.value + c.value * d.value % m.value) ∧ carry.toNat ≤ 1 := by
  have hm : 0 < m.value := Nat.zero_lt_of_lt ha
  have hfit : ∀ {u v : Uint256}, u.value < m.value → (bigMul u v).value < m.value * 2 ^ 256 := by
    intro u v hu
    rw [bigMul_value]
    exact Nat.mul_lt_mul'' hu v.value_lt
  obtain ⟨r0, hr0, hv0⟩ := bigMod_spec hfuel hm (hfit (v := b) ha)
  obtain ⟨r1, hr1, hv1⟩ := bigMod_spec hfuel hm (hfit (v := d) hc)
  obtain ⟨hsum, hcarry⟩ := bigAdd_value r0 r1
  have hlt0 : r0.value < m.value := hv0 ▸ Nat.mod_lt _ hm
  have hlt1 : r1.value < m.value := hv1 ▸ Nat.mod_lt _ hm
  have hne : (bigAdd r0 r1).2 ≠ 0 ↔ (bigAdd r0 r1).2.toNat ≠ 0 := by rw [ne_eq, ← UInt32.toNat_inj, UInt32.toNat_zero]
  have hval := reduce_value (m := m) hsum (by omega) hne
  have hs : (bigAdd r0 r1).1.value < 2 ^ 256 := (bigAdd r0 r1).1.value_lt
  rw [hv0, hv1, ← Nat.add_mod, bigMul_value, bigMul_value] at hval
  refine ⟨_, (bigAdd r0 r1).2, ?_, hval, ?_, hcarry⟩
  · simp only [mulAddMod, hr0, hr1, Option.bind_eq_bind, Option.bind_some]
    split <;> rfl
  · rw [hne, ← bigMul_value, ← bigMul_value, ← hv0, ← hv1]
    omega

/-! ## Matrices -/

namespace Matrix2x2

/-- The entries are below the modulus. -/
structure Reduced (A : Matrix2x2) (m : Uint256) : Prop where
  a00 : A.a00.value < m.value
  a01 : A.a01.value < m.value
  a10 : A.a10.value < m.value
  a11 : A.a11.value < m.value

/-- The matrix modulo `p`. -/
def residue (A : Matrix2x2) (p : Nat) : Matrix (Fin 2) (Fin 2) (ZMod p) :=
  !![(A.a00.value : ZMod p), (A.a01.value : ZMod p); (A.a10.value : ZMod p), (A.a11.value : ZMod p)]

end Matrix2x2

/-- `matrix_mul` multiplies modulo `m`. -/
theorem matrixMul_spec {fuel : Nat} (hfuel : 1026 ≤ fuel) {A B : Matrix2x2} {m : Uint256} (hA : A.Reduced m) :
    ∃ C, matrixMul fuel A B m = some C ∧ C.Reduced m ∧ C.residue m.value = A.residue m.value * B.residue m.value := by
  have hm : 0 < m.value := Nat.zero_lt_of_lt hA.a00
  obtain ⟨c00, _, h00, hv00, -⟩ := mulAddMod_spec hfuel (b := B.a00) (d := B.a10) hA.a00 hA.a01
  obtain ⟨c01, _, h01, hv01, -⟩ := mulAddMod_spec hfuel (b := B.a01) (d := B.a11) hA.a00 hA.a01
  obtain ⟨c10, _, h10, hv10, -⟩ := mulAddMod_spec hfuel (b := B.a00) (d := B.a10) hA.a10 hA.a11
  obtain ⟨c11, _, h11, hv11, -⟩ := mulAddMod_spec hfuel (b := B.a01) (d := B.a11) hA.a10 hA.a11
  refine ⟨⟨c00, c01, c10, c11⟩, ?_, ⟨?_, ?_, ?_, ?_⟩, ?_⟩
  · simp only [matrixMul, h00, h01, h10, h11, Option.bind_eq_bind, Option.bind_some, Option.pure_def]
  · exact hv00 ▸ Nat.mod_lt _ hm
  · exact hv01 ▸ Nat.mod_lt _ hm
  · exact hv10 ▸ Nat.mod_lt _ hm
  · exact hv11 ▸ Nat.mod_lt _ hm
  · simp only [Matrix2x2.residue, hv00, hv01, hv10, hv11, ZMod.natCast_mod, Nat.cast_add, Nat.cast_mul, Matrix.mul_fin_two]

/-! ## Powers -/

/-- The invariant of the loop of `matrix_pow` for a power `P` modulo `m`. -/
structure PowInv (m : Uint256) (P : Matrix (Fin 2) (Fin 2) (ZMod m.value)) (s : Matrix2x2 × Matrix2x2 × Uint256) : Prop where
  result : s.1.Reduced m
  base : s.2.1.Reduced m
  power : s.1.residue m.value * s.2.1.residue m.value ^ s.2.2.value = P

/-- Halving a number takes a bit off it. -/
theorem size_half_lt {e : Nat} (he : e ≠ 0) : (e / 2).size < e.size := by
  obtain ⟨k, hk⟩ := Nat.exists_eq_succ_of_ne_zero (Nat.pos_iff_ne_zero.mp (Nat.size_pos.mpr (Nat.pos_of_ne_zero he)))
  have hlt : e < 2 ^ (k + 1) := Nat.size_le.mp hk.le
  rw [hk, Nat.lt_succ_iff, Nat.size_le]
  rw [Nat.pow_succ] at hlt
  omega

/-- A turn of the loop of `matrix_pow`. -/
theorem matrixPowTurn_spec {fuel : Nat} (hfuel : 1026 ≤ fuel) {m : Uint256} (P : Matrix (Fin 2) (Fin 2) (ZMod m.value)) :
    Loop.Turn (matrixPowTurn fuel m) (PowInv m P) (fun s => s.2.2.value.size)
      (fun C => C.Reduced m ∧ C.residue m.value = P) := by
  rintro ⟨R, B, e⟩ ⟨hR, hB, hpow⟩
  simp only at hR hB hpow
  -- the result after the first lines of the turn
  obtain ⟨R', hR', hred, hres⟩ : ∃ R', (if e.low &&& 1 ≠ 0 then matrixMul fuel R B m else some R) = some R' ∧ R'.Reduced m ∧
      R'.residue m.value = if e.value % 2 = 1 then R.residue m.value * B.residue m.value else R.residue m.value := by
    simp only [low_and_one_iff]
    by_cases hodd : e.value % 2 = 1
    · simp only [if_pos hodd]
      exact matrixMul_spec hfuel hR
    · simp only [if_neg hodd]
      exact ⟨R, rfl, hR, rfl⟩
  by_cases hzero : e.value = 0
  · refine .inr ⟨R', ?_, hred, ?_⟩
    · simp only [matrixPowTurn, hR', Option.bind_eq_bind, Option.bind_some, if_pos ((isZero_iff e).mpr hzero), Option.pure_def]
    · rw [hres, hzero, Nat.zero_mod, if_neg Nat.zero_ne_one, ← hpow, hzero, pow_zero, mul_one]
  · obtain ⟨B', hB', hredB, hresB⟩ := matrixMul_spec hfuel (B := B) hB
    have hstep := SquareMultiply.step (R.residue m.value) (B.residue m.value) e.value
    refine .inl ⟨(R', B', bigShr1 e), ?_, ⟨hred, hredB, ?_⟩, ?_⟩
    · simp only [matrixPowTurn, hR', hB', Option.bind_eq_bind, Option.bind_some, if_neg (mt (isZero_iff e).mp hzero),
        Option.pure_def]
    · simp only [bigShr1_value, hres, hresB]
      rw [hstep, hpow]
    · simp only [bigShr1_value]
      exact size_half_lt hzero

/-- `matrix_pow` ends with the power. -/
theorem matrixPow_spec {fuel : Nat} (hfuel : 1026 ≤ fuel) {M : Matrix2x2} {m : Uint256} (hm : 2 ≤ m.value)
    (hM : M.Reduced m) (exp : Uint256) :
    ∃ C, matrixPow fuel (Limbs.zero.setLow 1) M exp m = some C ∧ C.Reduced m ∧
      C.residue m.value = M.residue m.value ^ exp.value := by
  have hone : ((Limbs.zero.setLow 1).setLow 1 : Uint256).value = 1 := by decide
  have hinv : PowInv m (M.residue m.value ^ exp.value)
      (⟨(Limbs.zero.setLow 1).setLow 1, .zero, .zero, (Limbs.zero.setLow 1).setLow 1⟩, M, exp) := by
    refine ⟨⟨?_, ?_, ?_, ?_⟩, hM, ?_⟩
    · simp only [hone]
      omega
    · simp only [Limbs.value_zero]
      omega
    · simp only [Limbs.value_zero]
      omega
    · simp only [hone]
      omega
    · simp only [Matrix2x2.residue, hone, Limbs.value_zero, Nat.cast_one, Nat.cast_zero, ← Matrix.one_fin_two, one_mul]
  have hsize : exp.value.size ≤ 256 := Nat.size_le.mpr exp.value_lt
  exact Loop.iterate_of_variant (matrixPowTurn_spec hfuel _) hinv (Nat.lt_of_le_of_lt hsize (by omega))

/-! ## The transfer matrix -/

/-- The loop that doubles: the words and the carry out are twice the words and the carry in. -/
theorem doubleLoop_value (carry4 : UInt64) (hcarry : carry4.toNat ≤ 1) (xs : List UInt32) :
    value (doubleLoop carry4 xs).1 + 2 ^ (32 * xs.length) * (doubleLoop carry4 xs).2.toNat = 2 * value xs + carry4.toNat ∧
      (doubleLoop carry4 xs).2.toNat ≤ 1 := by
  induction xs generalizing carry4 with
  | nil => simp [doubleLoop, hcarry]
  | cons x xs ih =>
    have hx := x.toNat_lt
    set t := (x.toUInt64 <<< 1) + carry4 with ht
    have ht' : t.toNat = 2 * x.toNat + carry4.toNat := by
      have hshift : (x.toUInt64 <<< 1).toNat = 2 * x.toNat := by
        rw [UInt64.toNat_shiftLeft, UInt32.toNat_toUInt64, Nat.shiftLeft_eq]
        change x.toNat * 2 ^ 1 % 2 ^ 64 = 2 * x.toNat
        omega
      rw [ht, UInt64.toNat_add, hshift]
      omega
    have hsplit := low_add_high t
    obtain ⟨hrest, hout⟩ := ih (t >>> 32) (by omega)
    refine ⟨?_, hout⟩
    simp only [doubleLoop, value_cons, List.length_cons, pow_succ_words, ← ht]
    linear_combination hsplit + 2 ^ 32 * hrest + ht'

/-- The matrix of `chebyshev_Tn`, for a `carry4` of `c`. -/
def transferFrom {R : Type*} [CommRing R] (c x : R) : Matrix (Fin 2) (Fin 2) R := !![x + x + c, -1; 1, 0]

theorem transferFrom_zero {R : Type*} [CommRing R] (x : R) : transferFrom 0 x = transfer x := by
  rw [transferFrom, transfer, add_zero, two_mul]

/-- The transfer matrix: a `carry4` that was left at 1 goes into the doubled `x`. -/
theorem transferMatrix_spec {carry4 : UInt64} (hcarry : carry4.toNat ≤ 1) {x p : Uint256} (hp : 2 ≤ p.value)
    (hx : x.value < p.value) :
    (transferMatrix carry4 x p (Limbs.zero.setLow 1)).Reduced p ∧
      (transferMatrix carry4 x p (Limbs.zero.setLow 1)).residue p.value =
        transferFrom (carry4.toNat : ZMod p.value) (x.value : ZMod p.value) := by
  obtain ⟨hdouble, hout⟩ := doubleLoop_value carry4 hcarry x.words
  rw [x.length_words] at hdouble
  have hne : (double carry4 x).2 ≠ 0 ↔ (doubleLoop carry4 x.words).2.toNat ≠ 0 := by
    rw [ne_eq, ← UInt64.toNat_inj, UInt64.toNat_zero]
    rfl
  have hless : 2 * value x.words + carry4.toNat < 2 * p.value := by
    have hx' : value x.words < p.value := hx
    omega
  have htwo : (transferMatrix carry4 x p (Limbs.zero.setLow 1)).a00.value = (2 * x.value + carry4.toNat) % p.value :=
    reduce_value (s := (double carry4 x).1) (m := p) hdouble hless hne
  have hminus : (transferMatrix carry4 x p (Limbs.zero.setLow 1)).a01.value = p.value - 1 := by
    rw [transferMatrix, bigSub, subWords_of_le (by rw [value_one]; omega), value_one]
  have hone : (transferMatrix carry4 x p (Limbs.zero.setLow 1)).a10.value = 1 := value_one
  have hzero : (transferMatrix carry4 x p (Limbs.zero.setLow 1)).a11.value = 0 := Limbs.value_zero
  constructor
  · refine ⟨?_, ?_, ?_, ?_⟩
    · exact htwo ▸ Nat.mod_lt _ (by omega)
    · omega
    · omega
    · omega
  · rw [Matrix2x2.residue, htwo, hminus, hone, hzero, transferFrom, ZMod.natCast_mod, Nat.cast_sub (by omega : 1 ≤ p.value),
      ZMod.natCast_self]
    simp only [Nat.cast_add, Nat.cast_one, Nat.cast_zero, zero_sub, two_mul]

/-! ## The function -/

/-- The early returns of `chebyshev_Tn`. -/
theorem chebyshevTn_small (fuel : Nat) (carry4 : UInt64) {n : Uint256} (x p : Uint256) (hn : n.value < 2) :
    chebyshevTn fuel carry4 n x p =
      some (if n.value = 0 then ⟨Limbs.zero.setLow 1, .zero⟩ else ⟨x, Limbs.zero.setLow 1⟩, carry4) := by
  simp only [chebyshevTn, isZero_iff, isOne_iff]
  split
  · rfl
  · rw [if_pos (by omega)]

/-- `chebyshev_Tn` at an index from 2 on ends, with the action of a power of its matrix on `(x, 1)`, and leaves in `carry4` the
carry of its last addition. -/
theorem chebyshevTn_spec {fuel : Nat} (hfuel : 1026 ≤ fuel) (carry4 : UInt64) (hcarry : carry4.toNat ≤ 1) {n x p : Uint256}
    (hn : 2 ≤ n.value) (hp : 2 ≤ p.value) (hx : x.value < p.value) {P : Matrix (Fin 2) (Fin 2) (ZMod p.value)}
    (hP : P = transferFrom (carry4.toNat : ZMod p.value) (x.value : ZMod p.value) ^ (n.value - 1)) :
    ∃ out carry, chebyshevTn fuel carry4 n x p = some (out, carry) ∧
      out.Tn.value = (P 0 0 * x.value + P 0 1).val ∧ out.TnMinus1.value = (P 1 0 * x.value + P 1 1).val ∧
      (carry = 0 ↔ (P 1 0 * x.value).val + (P 1 1).val < 2 ^ 256) ∧ carry.toNat ≤ 1 := by
  have hone : (setUint256 0 0 0 0 0 0 0 0).setLow 1 = (Limbs.zero.setLow 1 : Uint256) := by decide
  obtain ⟨hred, hres⟩ := transferMatrix_spec hcarry hp hx
  obtain ⟨C, hC, hredC, hresC⟩ := matrixPow_spec hfuel hp hred (bigSub n (Limbs.zero.setLow 1)).1
  have hexp : (bigSub n (Limbs.zero.setLow 1)).1.value = n.value - 1 := by
    rw [bigSub, subWords_of_le (by rw [value_one]; omega), value_one]
  rw [hres, hexp, ← hP] at hresC
  obtain ⟨Tn, carryTn, hTn, hvTn, -, -⟩ := mulAddMod_spec hfuel (b := x) (d := Limbs.zero.setLow 1) hredC.a00 hredC.a01
  obtain ⟨Tm, carry, hTm, hvTm, hlast, hle⟩ := mulAddMod_spec hfuel (b := x) (d := Limbs.zero.setLow 1) hredC.a10 hredC.a11
  rw [value_one, Nat.mul_one] at hvTn hvTm hlast
  have h00 : P 0 0 = C.a00.value := congrFun (congrFun hresC.symm 0) 0
  have h01 : P 0 1 = C.a01.value := congrFun (congrFun hresC.symm 0) 1
  have h10 : P 1 0 = C.a10.value := congrFun (congrFun hresC.symm 1) 0
  have h11 : P 1 1 = C.a11.value := congrFun (congrFun hresC.symm 1) 1
  refine ⟨⟨Tn, Tm⟩, carry.toUInt64, ?_, ?_, ?_, ?_, ?_⟩
  · simp only [chebyshevTn, isZero_iff, isOne_iff, if_neg (by omega : ¬n.value = 0), if_neg (by omega : ¬n.value = 1), hone, hC,
      hTn, hTm, Option.bind_eq_bind, Option.bind_some, Option.pure_def]
  · rw [hvTn, h00, h01, ← Nat.cast_mul, ← Nat.cast_add, ZMod.val_natCast]
  · rw [hvTm, h10, h11, ← Nat.cast_mul, ← Nat.cast_add, ZMod.val_natCast]
  · rw [h10, h11, ← Nat.cast_mul, ZMod.val_natCast, ZMod.val_natCast, ← Nat.not_le, ← hlast, not_not,
      ← UInt64.toNat_inj, ← UInt32.toNat_inj, UInt32.toNat_toUInt64]
    rfl
  · rw [UInt32.toNat_toUInt64]
    exact hle

end AuthVideo
