import AuthVideo.Cipher.ZucPy
import AuthVideo.Lib.Word32

/-!
# What the boxes keep of a word

`S_func` reads the four lowest bytes of a word and puts the entries of the tables side by side. So it tells two words apart exactly
when it reads different entries for some byte.
-/

namespace AuthVideo

namespace PyZuc

/-- The tables have the same entries at the bytes of two words. -/
structure SameEntries (x y : Nat) : Prop where
  b0 : entry s1 (x &&& 0xFF) = entry s1 (y &&& 0xFF)
  b1 : entry s0 ((x >>> 8) &&& 0xFF) = entry s0 ((y >>> 8) &&& 0xFF)
  b2 : entry s1 ((x >>> 16) &&& 0xFF) = entry s1 ((y >>> 16) &&& 0xFF)
  b3 : entry s0 ((x >>> 24) &&& 0xFF) = entry s0 ((y >>> 24) &&& 0xFF)

theorem entry_lt (t : Array UInt8) (i : Nat) : entry t i < 2 ^ 8 := UInt8.toNat_lt _

/-- Four bytes, the lowest first. -/
theorem or_bytes {b0 b1 b2 : Nat} (h0 : b0 < 2 ^ 8) (h1 : b1 < 2 ^ 8) (h2 : b2 < 2 ^ 8) (b3 : Nat) :
    b0 ||| (b1 <<< 8) ||| (b2 <<< 16) ||| (b3 <<< 24) = b0 + 2 ^ 8 * b1 + 2 ^ 16 * b2 + 2 ^ 24 * b3 := by
  have hadd : ∀ {low : Nat} (k high : Nat), low < 2 ^ k → low ||| high <<< k = low + 2 ^ k * high := by
    intro low k high hlow
    rw [Nat.or_comm, ← Nat.shiftLeft_add_eq_or_of_lt hlow, Nat.shiftLeft_eq, Nat.mul_comm, Nat.add_comm]
  rw [hadd 8 b1 h0, hadd 16 b2 (by omega), hadd 24 b3 (by omega)]

/-- The entries side by side. -/
theorem sFunc_value (x : Nat) : sFunc x =
    entry s1 (x &&& 0xFF) + 2 ^ 8 * entry s0 ((x >>> 8) &&& 0xFF) + 2 ^ 16 * entry s1 ((x >>> 16) &&& 0xFF) +
      2 ^ 24 * entry s0 ((x >>> 24) &&& 0xFF) :=
  or_bytes (entry_lt _ _) (entry_lt _ _) (entry_lt _ _) _

theorem sFunc_lt (x : Nat) : sFunc x < 2 ^ 32 := by
  have h0 := entry_lt s1 (x &&& 0xFF)
  have h1 := entry_lt s0 ((x >>> 8) &&& 0xFF)
  have h2 := entry_lt s1 ((x >>> 16) &&& 0xFF)
  have h3 := entry_lt s0 ((x >>> 24) &&& 0xFF)
  rw [sFunc_value]
  omega

/-- `S_func` keeps the entries and nothing else. -/
theorem sFunc_eq_iff (x y : Nat) : sFunc x = sFunc y ↔ SameEntries x y := by
  constructor
  · intro h
    rw [sFunc_value, sFunc_value] at h
    have hx0 := entry_lt s1 (x &&& 0xFF)
    have hx1 := entry_lt s0 ((x >>> 8) &&& 0xFF)
    have hx2 := entry_lt s1 ((x >>> 16) &&& 0xFF)
    have hy0 := entry_lt s1 (y &&& 0xFF)
    have hy1 := entry_lt s0 ((y >>> 8) &&& 0xFF)
    have hy2 := entry_lt s1 ((y >>> 16) &&& 0xFF)
    constructor <;> omega
  · rintro ⟨h0, h1, h2, h3⟩
    rw [sFunc_value, sFunc_value, h0, h1, h2, h3]

/-- Only the lowest 32 bits are read. -/
theorem sFunc_and_mask (x : Nat) : sFunc (x &&& 0xFFFFFFFF) = sFunc x := by
  have hbyte : ∀ k, k ≤ 24 → ((x &&& 0xFFFFFFFF) >>> k) &&& 0xFF = (x >>> k) &&& 0xFF := by
    intro k hk
    have hmask : ∀ y : Nat, y &&& 0xFF = y % 2 ^ 8 := fun y => Nat.and_two_pow_sub_one_eq_mod y 8
    have hpow : 2 ^ 32 = 2 ^ k * 2 ^ (32 - k) := by
      rw [← Nat.pow_add]
      congr 1
      omega
    have hdvd : 2 ^ 8 ∣ 2 ^ (32 - k) := Nat.pow_dvd_pow 2 (by omega)
    rw [hmask, hmask, Word32.and_mask, Nat.shiftRight_eq_div_pow, Nat.shiftRight_eq_div_pow, hpow, Nat.mod_mul_right_div_self,
      Nat.mod_mod_of_dvd _ hdvd]
  have h0 := hbyte 0 (by decide)
  rw [Nat.shiftRight_zero, Nat.shiftRight_zero] at h0
  rw [sFunc_value, sFunc_value, h0, hbyte 8 (by decide), hbyte 16 (by decide), hbyte 24 (by decide)]

end PyZuc

end AuthVideo
