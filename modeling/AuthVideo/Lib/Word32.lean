import Mathlib.Data.Nat.Bitwise
import Mathlib.Tactic.IntervalCases

/-!
# Words of 32 bits as masked naturals

An operation of the machine on 32-bit words is the operation on naturals, masked with `0xFFFFFFFF` where it can overflow.
-/

namespace Word32

/-- The mask takes the rest modulo `2 ^ 32`. -/
theorem and_mask (x : ℕ) : x &&& 0xFFFFFFFF = x % 2 ^ 32 := Nat.and_two_pow_sub_one_eq_mod x 32

/-- The mask without the highest bit. -/
theorem and_mask31 (x : ℕ) : x &&& 0x7FFFFFFF = x % 2 ^ 31 := Nat.and_two_pow_sub_one_eq_mod x 31

/-- The mask keeps a number that fits into a word. -/
theorem and_mask_of_lt {x : ℕ} (h : x < 2 ^ 32) : x &&& 0xFFFFFFFF = x := by
  rw [and_mask, Nat.mod_eq_of_lt h]

/-- The mask keeps a word. -/
@[simp] theorem toNat_and_mask (w : UInt32) : w.toNat &&& 0xFFFFFFFF = w.toNat := and_mask_of_lt w.toNat_lt

/-- The mask below a smaller mask. -/
theorem mask_and (x m : ℕ) (h : m < 2 ^ 32) : (x &&& 0xFFFFFFFF) &&& m = x &&& m := by
  rw [Nat.and_assoc, Nat.and_comm 0xFFFFFFFF, and_mask_of_lt h]

/-- A sum of words. -/
theorem toNat_add (a b : UInt32) : (a + b).toNat = (a.toNat + b.toNat) &&& 0xFFFFFFFF := by
  rw [and_mask, UInt32.toNat_add]

/-- A word shifted up. -/
theorem toNat_shiftLeft {w n : UInt32} {k : ℕ} (hn : n.toNat = k) (hk : k < 32) :
    (w <<< n).toNat = (w.toNat <<< k) &&& 0xFFFFFFFF := by
  rw [and_mask, UInt32.toNat_shiftLeft, hn, Nat.mod_eq_of_lt hk]

/-- A word shifted down. -/
theorem toNat_shiftRight {w n : UInt32} {k : ℕ} (hn : n.toNat = k) (hk : k < 32) : (w >>> n).toNat = w.toNat >>> k := by
  rw [UInt32.toNat_shiftRight, hn, Nat.mod_eq_of_lt hk]

/-- A byte put anywhere in a word. -/
theorem toNat_byte_shiftLeft (b : UInt8) {n : UInt32} {k : ℕ} (hn : n.toNat = k) (hk : k ≤ 24) :
    (b.toUInt32 <<< n).toNat = b.toNat <<< k := by
  rw [toNat_shiftLeft hn (by omega), UInt8.toNat_toUInt32, and_mask_of_lt]
  calc b.toNat <<< k
      = b.toNat * 2 ^ k := Nat.shiftLeft_eq _ _
    _ < 2 ^ 8 * 2 ^ k := Nat.mul_lt_mul_of_pos_right b.toNat_lt (Nat.two_pow_pos k)
    _ ≤ 2 ^ 32 := by rw [← Nat.pow_add]; exact Nat.pow_le_pow_right (by decide) (by omega)

/-- The word of four bytes. -/
theorem toNat_of_bytes (b0 b1 b2 b3 : UInt8) :
    ((b0.toUInt32 <<< 24) ||| (b1.toUInt32 <<< 16) ||| (b2.toUInt32 <<< 8) ||| b3.toUInt32).toNat =
      ((b0.toNat * 256 + b1.toNat) * 256 + b2.toNat) * 256 + b3.toNat := by
  have h1 := b1.toNat_lt
  have h2 := b2.toNat_lt
  have h3 := b3.toNat_lt
  rw [UInt32.toNat_or, UInt32.toNat_or, UInt32.toNat_or, toNat_byte_shiftLeft b0 (k := 24) rfl (by decide),
    toNat_byte_shiftLeft b1 (k := 16) rfl (by decide), toNat_byte_shiftLeft b2 (k := 8) rfl (by decide),
    UInt8.toNat_toUInt32, Nat.or_assoc, Nat.or_assoc, ← Nat.shiftLeft_add_eq_or_of_lt (i := 8) h3,
    ← Nat.shiftLeft_add_eq_or_of_lt (i := 16), ← Nat.shiftLeft_add_eq_or_of_lt (i := 24)]
  · simp only [Nat.shiftLeft_eq]
    omega
  · simp only [Nat.shiftLeft_eq]
    omega
  · simp only [Nat.shiftLeft_eq]
    omega

/-- A word put together from its own bytes. -/
theorem word_of_bytes (w : UInt32) :
    ((w >>> 24).toUInt8.toUInt32 <<< 24) ||| ((w >>> 16).toUInt8.toUInt32 <<< 16) ||| ((w >>> 8).toUInt8.toUInt32 <<< 8) |||
      w.toUInt8.toUInt32 = w := by
  apply UInt32.eq_of_toBitVec_eq
  ext i hi
  interval_cases i <;> simp [-UInt32.toUInt32_toUInt8]

/-- What a word has and another has not. -/
theorem toNat_not_and (a b : UInt32) : (~~~a &&& b).toNat = Nat.ldiff b.toNat a.toNat := by
  refine Nat.eq_of_testBit_eq ?_
  intro i
  rw [Nat.testBit_ldiff, ← UInt32.toNat_toBitVec, ← UInt32.toNat_toBitVec, ← UInt32.toNat_toBitVec]
  simp only [BitVec.testBit_toNat, UInt32.toBitVec_and, UInt32.toBitVec_not, BitVec.getLsbD_and, BitVec.getLsbD_not]
  by_cases hi : i < 32
  · rw [decide_eq_true hi, Bool.true_and, Bool.and_comm]
  · rw [decide_eq_false hi, BitVec.getLsbD_of_ge b.toBitVec i (Nat.not_lt.mp hi), Bool.false_and, Bool.false_and]

end Word32
