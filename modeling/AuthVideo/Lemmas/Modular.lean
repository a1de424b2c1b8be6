import AuthVideo.Board.Modular
import AuthVideo.Lemmas.BigNum
import AuthVideo.Lib.LongDivision

/-!
# What the modular arithmetic of the protocol computes

The loop of `uint256_mulmod` is a long division in a register of 256 bits.
-/

namespace AuthVideo

open Words

/-! ## Comparison and subtraction -/

/-- Comparing the other way round. -/
theorem bigCmpLoop_swap (as bs : List UInt32) : bigCmpLoop bs as = -bigCmpLoop as bs := by
  induction as generalizing bs with
  | nil => cases bs <;> rfl
  | cons a as ih =>
    cases bs with
    | nil => rfl
    | cons b bs =>
      simp only [bigCmpLoop, gt_iff_lt, UInt32.lt_iff_toNat_lt]
      rcases Nat.lt_trichotomy a.toNat b.toNat with hlt | heq | hgt
      · rw [if_pos hlt, if_neg (Nat.lt_asymm hlt), if_pos hlt]
        rfl
      · simp only [heq, Nat.lt_irrefl, if_false, ih]
      · rw [if_neg (Nat.lt_asymm hgt), if_pos hgt, if_pos hgt]

theorem bigCmpLoop_le_one (as bs : List UInt32) : bigCmpLoop as bs ≤ 1 := by
  induction as generalizing bs with
  | nil => cases bs <;> exact Int.zero_le_ofNat 1
  | cons a as ih =>
    cases bs with
    | nil => exact Int.zero_le_ofNat 1
    | cons b bs =>
      rw [bigCmpLoop]
      split
      · exact Int.le_refl 1
      · split
        · decide
        · exact ih bs

/-- The modulus is subtracted only from what is above it. -/
theorem ge_iff (a mod : Uint256) : ge a mod = true ↔ mod.value < a.value := by
  have hswap : bigCmp mod a = -bigCmp a mod := bigCmpLoop_swap _ _
  have hle : bigCmp a mod ≤ 1 := bigCmpLoop_le_one _ _
  have hcmp := bigCmp_nonneg_iff mod a
  rw [ge, decide_eq_true_iff, ← Nat.not_le, ← hcmp, hswap]
  omega

/-- A word of the subtraction, with the borrow out. -/
theorem modSub_word {a m : UInt32} {borrow : UInt64} (hborrow : borrow.toNat ≤ 1) :
    (a.toUInt64 - m.toUInt64 - borrow).toUInt32.toNat + m.toNat + borrow.toNat =
        a.toNat + 2 ^ 32 * (((a.toUInt64 - m.toUInt64 - borrow) >>> 63) &&& 1).toNat ∧
      (((a.toUInt64 - m.toUInt64 - borrow) >>> 63) &&& 1).toNat ≤ 1 := by
  have ha := a.toNat_lt
  have hm := m.toNat_lt
  have htemp : (a.toUInt64 - m.toUInt64 - borrow).toNat = (a.toNat + 2 ^ 64 - m.toNat - borrow.toNat) % 2 ^ 64 := by
    rw [UInt64.toNat_sub, UInt64.toNat_sub, UInt32.toNat_toUInt64, UInt32.toNat_toUInt64]
    omega
  have hbit : (((a.toUInt64 - m.toUInt64 - borrow) >>> 63) &&& 1).toNat =
      (a.toUInt64 - m.toUInt64 - borrow).toNat / 2 ^ 63 % 2 := by
    rw [UInt64.toNat_and, UInt64.toNat_shiftRight, Nat.shiftRight_eq_div_pow]
    exact Nat.and_one_is_mod _
  rw [hbit, UInt64.toNat_toUInt32, htemp]
  omega

/-- The subtraction loops: the words and what is taken off are what it is taken from and the borrow out. -/
theorem modSubLoop_value (borrow : UInt64) (hborrow : borrow.toNat ≤ 1) {as mod : List UInt32} (hlen : as.length = mod.length) :
    ∃ out ≤ 1, value (modSubLoop borrow as mod) + value mod + borrow.toNat = value as + 2 ^ (32 * as.length) * out := by
  induction as generalizing mod borrow with
  | nil =>
    obtain rfl := List.eq_nil_of_length_eq_zero hlen.symm
    exact ⟨borrow.toNat, hborrow, by simp [modSubLoop]⟩
  | cons a as ih =>
    obtain _ | ⟨m, mod⟩ := mod
    · cases hlen
    · obtain ⟨hword, hout⟩ := modSub_word (a := a) (m := m) hborrow
      obtain ⟨out, hle, hrest⟩ := ih _ hout (Nat.succ.inj hlen)
      refine ⟨out, hle, ?_⟩
      simp only [modSubLoop, value_cons, List.length_cons, pow_succ_words]
      linear_combination hword + 2 ^ 32 * hrest

/-- The step that both operations end with. -/
theorem reduceOnce_value (a mod : Uint256) :
    (reduceOnce a mod).value = if mod.value < a.value then a.value - mod.value else a.value := by
  rw [reduceOnce]
  simp only [ge_iff]
  split
  · rename_i hlt
    obtain ⟨out, hle, hdiff⟩ := modSubLoop_value 0 (Nat.zero_le 1) (a.length_words.trans mod.length_words.symm)
    rw [a.length_words, UInt64.toNat_zero, Nat.add_zero] at hdiff
    have hlen := length_modSubLoop 0 (a.length_words.trans mod.length_words.symm)
    have hres := Words.value_lt (modSubLoop 0 a.words mod.words)
    rw [hlen, a.length_words] at hres
    simp only [Limbs.value] at hlt ⊢
    rcases Nat.le_one_iff_eq_zero_or_eq_one.mp hle with rfl | rfl
    · omega
    · omega
  · rfl

/-- The sum as `uint256_addmod` leaves it: a sum that is the modulus is not reduced. -/
def sumLeft (a b mod : Nat) : Nat := if mod < a + b then a + b - mod else a + b

/-- `uint256_addmod`, on a sum of 256 bits. -/
theorem uint256Addmod_value {a b : Uint256} (mod : Uint256) (hfit : a.value + b.value < 2 ^ 256) :
    (uint256Addmod a b mod).value = sumLeft a.value b.value mod.value := by
  have hadd : (bigAdd a b).1.value = a.value + b.value := by
    obtain ⟨hsum, -⟩ := bigAdd_value a b
    omega
  rw [uint256Addmod, reduceOnce_value, hadd, sumLeft]

theorem sumLeft_mod (a b mod : Nat) : sumLeft a b mod % mod = (a + b) % mod := by
  rw [sumLeft]
  split
  · rename_i hlt
    exact (Nat.mod_eq_sub_mod (Nat.le_of_lt hlt)).symm
  · rfl

theorem sumLeft_le_add (a b mod : Nat) : sumLeft a b mod ≤ a + b := by
  rw [sumLeft]
  split
  · exact Nat.sub_le _ _
  · exact Nat.le_refl _

/-- The sum of a residue and what a sum has left is the modulus at most, and zero only where both are. -/
theorem sumLeft_le {a b mod : Nat} (ha : a ≤ mod) (hb : b < mod) : sumLeft a b mod ≤ mod := by
  rw [sumLeft]
  split <;> omega

theorem sumLeft_eq_zero {a b mod : Nat} (h : sumLeft a b mod = 0) : a = 0 ∧ b = 0 := by
  rw [sumLeft] at h
  split at h <;> omega

/-! ## The division loop -/

/-- The shift drops the highest bit. -/
theorem shl1_value (rem : Uint256) : (shl1 rem).value = 2 * rem.value % 2 ^ 256 := by
  obtain ⟨hshift, hout⟩ := big512ShlLoop_value (k := 1) 0 (by decide) (by decide) rem.words
  rw [rem.length_words] at hshift
  have hlt := (shl1 rem).value_lt
  have hval : (shl1 rem).value = value (big512ShlLoop 1 0 rem.words).1 := rfl
  have hrem : rem.value = value rem.words := rfl
  rw [← hval, ← hrem] at hshift
  simp only [UInt64.toNat_one, UInt64.toNat_zero, Nat.pow_one, Nat.add_zero] at hshift
  omega

/-- A word with another lowest word. -/
theorem Limbs.value_setLow (a : Uint256) (w : UInt32) : (a.setLow w).value + a.low.toNat = a.value + w.toNat := by
  obtain ⟨words, hlen⟩ := a
  cases words with
  | nil => cases hlen
  | cons u us =>
    simp only [setLow, low, Limbs.value, List.set_cons_zero, List.headD_cons, value_cons]
    omega

/-- The bit that is brought down. -/
theorem bit_value {n : Nat} (prod : Limbs n) (i : Nat) :
    ((prod.words.getD (i / 32) 0 >>> .ofNat (i % 32)) &&& 1).toNat = LongDivision.bit prod.value i := by
  have hmod : i % 32 < 32 := Nat.mod_lt i (by decide)
  have hshift : (UInt32.ofNat (i % 32)).toNat % 32 = i % 32 := by
    rw [UInt32.toNat_ofNat']
    omega
  have hword : 2 ^ 32 = 2 ^ (i % 32) * 2 ^ (32 - i % 32) := by
    rw [← Nat.pow_add]
    congr 1
    omega
  have hplace : 2 ^ i = 2 ^ (32 * (i / 32)) * 2 ^ (i % 32) := by
    rw [← Nat.pow_add, Nat.div_add_mod]
  have heven : 2 ∣ 2 ^ (32 - i % 32) := dvd_pow_self 2 (by omega)
  rw [UInt32.toNat_and, UInt32.toNat_shiftRight, hshift, Nat.shiftRight_eq_div_pow, getD_toNat]
  rw [hword, Nat.mod_mul_right_div_self, LongDivision.bit, LongDivision.leading, hplace, ← Nat.div_div_eq_div_mul]
  exact (Nat.and_one_is_mod _).trans (Nat.mod_mod_of_dvd _ heven)

/-- A turn is a turn of the long division in 256 bits. -/
theorem mulmodTurn_value (prod : Uint512) (mod rem : Uint256) (i : Nat) :
    (mulmodTurn prod mod rem i).value = LongDivision.turn (2 ^ 256) mod.value rem.value (LongDivision.bit prod.value i) := by
  have hturn : mulmodTurn prod mod rem i = reduceOnce ((shl1 rem).setLow
      ((shl1 rem).low ||| ((prod.words.getD (i / 32) 0 >>> .ofNat (i % 32)) &&& 1))) mod := rfl
  have hbit := LongDivision.bit_lt prod.value i
  rw [hturn]
  rw [← bit_value] at hbit ⊢
  generalize (prod.words.getD (i / 32) 0 >>> .ofNat (i % 32)) &&& 1 = b at hbit ⊢
  have heven : (shl1 rem).low.toNat % 2 = 0 := by
    have hlow := getD_toNat (shl1 rem).words 0
    have hval := shl1_value rem
    have hhead : (shl1 rem).low = (shl1 rem).words.getD 0 0 := by
      rw [Limbs.low]
      cases (shl1 rem).words <;> rfl
    rw [hhead, hlow]
    rw [Limbs.value] at hval
    omega
  have hor : ((shl1 rem).low ||| b).toNat = (shl1 rem).low.toNat + b.toNat := by
    have hdouble : (shl1 rem).low.toNat = 2 ^ 1 * ((shl1 rem).low.toNat / 2) := by omega
    rw [UInt32.toNat_or, hdouble]
    exact (Nat.two_pow_add_eq_or_of_lt hbit _).symm
  have hset := Limbs.value_setLow (shl1 rem) ((shl1 rem).low ||| b)
  have hval : ((shl1 rem).setLow ((shl1 rem).low ||| b)).value = 2 * rem.value % 2 ^ 256 + b.toNat := by
    rw [← shl1_value]
    omega
  rw [LongDivision.turn, ← hval]
  exact reduceOnce_value _ mod

/-- The remainder when the bits of the product from `i` on are brought down. -/
def mulmodRem (a b mod : Uint256) (i : Nat) : Uint256 := Loop.downTo (mulmodTurn (bigMul a b) mod) .zero 512 i

theorem mulmodRem_zero (a b mod : Uint256) : mulmodRem a b mod 0 = uint256Mulmod a b mod := Loop.downTo_zero _ _ _

/-- The loop of `uint256_mulmod` is the long division of the product by the modulus. -/
theorem mulmodRem_run (a b mod : Uint256) :
    LongDivision.Run (2 ^ 256) mod.value (a.value * b.value) 512 fun i => (mulmodRem a b mod i).value := by
  constructor
  · rw [mulmodRem, Loop.downTo_self, Limbs.value_zero]
  · intro i hi
    rw [mulmodRem, Loop.downTo_turn _ _ hi, mulmodTurn_value, bigMul_value]
    rfl

/-- The product fits into its 512 bits. -/
theorem mul_value_lt (a b : Uint256) : a.value * b.value < 2 ^ 512 := by
  have hbits : 512 = 256 + 256 := rfl
  rw [hbits, Nat.pow_add]
  exact Nat.mul_lt_mul'' a.value_lt b.value_lt

end AuthVideo
