import AuthVideo.BigNum
import Mathlib.Data.Nat.Bitwise
import Mathlib.Tactic.LinearCombination
import Mathlib.Tactic.Linarith

/-!
# What the integers of the boards compute

Each function is described by the numbers that its arrays hold. Later proofs use these statements and never unfold the loops.
-/

namespace AuthVideo

open Words

theorem Limbs.value_lt {n : Nat} (a : Limbs n) : a.value < 2 ^ (32 * n) := by
  have h := Words.value_lt a.words
  rwa [a.length_words] at h

@[simp] theorem Limbs.value_zero {n : Nat} : (Limbs.zero : Limbs n).value = 0 := value_replicate_zero n

/-- Numbers in the same words are equal. -/
theorem Limbs.ext_words {n : Nat} {a b : Limbs n} (h : a.words = b.words) : a = b := by
  cases a
  cases b
  congr

/-- Arrays that hold the same number are equal. -/
theorem Limbs.value_inj {n : Nat} {a b : Limbs n} (h : a.value = b.value) : a = b :=
  Limbs.ext_words (Words.value_inj (a.length_words.trans b.length_words.symm) h)

/-! ## Addition and subtraction -/

/-- The loop of `big_add`: the words and the carry out are the sum. -/
theorem bigAddLoop_value (carry : UInt64) (hcarry : carry.toNat ≤ 1) {as bs : List UInt32} (hlen : as.length = bs.length) :
    value (bigAddLoop carry as bs).1 + 2 ^ (32 * as.length) * (bigAddLoop carry as bs).2.toNat =
        value as + value bs + carry.toNat ∧ (bigAddLoop carry as bs).2.toNat ≤ 1 := by
  induction as generalizing bs carry with
  | nil =>
    obtain rfl := List.eq_nil_of_length_eq_zero hlen.symm
    simp [bigAddLoop, hcarry]
  | cons a as ih =>
    obtain _ | ⟨b, bs⟩ := bs
    · cases hlen
    · have ha := a.toNat_lt
      have hb := b.toNat_lt
      have hsum : (a.toUInt64 + b.toUInt64 + carry).toNat = a.toNat + b.toNat + carry.toNat := by
        rw [UInt64.toNat_add, UInt64.toNat_add, UInt32.toNat_toUInt64, UInt32.toNat_toUInt64]
        omega
      have hsplit := low_add_high (a.toUInt64 + b.toUInt64 + carry)
      obtain ⟨hrest, hout⟩ := ih ((a.toUInt64 + b.toUInt64 + carry) >>> 32) (by omega) (Nat.succ.inj hlen)
      refine ⟨?_, hout⟩
      simp only [bigAddLoop, value_cons, List.length_cons, pow_succ_words]
      linear_combination hsplit + 2 ^ 32 * hrest + hsum

/-- `big_add`. -/
theorem bigAdd_value (a b : Uint256) :
    (bigAdd a b).1.value + 2 ^ 256 * (bigAdd a b).2.toNat = a.value + b.value ∧ (bigAdd a b).2.toNat ≤ 1 := by
  obtain ⟨hsum, hout⟩ := bigAddLoop_value 0 (Nat.zero_le 1) (a.length_words.trans b.length_words.symm)
  rw [a.length_words] at hsum
  have hcarry : (bigAdd a b).2.toNat = (bigAddLoop 0 a.words b.words).2.toNat := by
    rw [bigAdd, UInt64.toNat_toUInt32]
    omega
  rw [hcarry]
  exact ⟨hsum, hout⟩

/-- A word of a difference, with the borrow out. -/
theorem sub_word {a b : UInt32} {borrow : UInt64} (hborrow : borrow.toNat ≤ 1) :
    if a.toUInt64 ≥ b.toUInt64 + borrow then
      (a.toUInt64 - (b.toUInt64 + borrow)).toUInt32.toNat + (b.toNat + borrow.toNat) = a.toNat
    else
      (((1 : UInt64) <<< 32) + a.toUInt64 - (b.toUInt64 + borrow)).toUInt32.toNat + (b.toNat + borrow.toNat) =
        a.toNat + 2 ^ 32 := by
  have ha := a.toNat_lt
  have hb := b.toNat_lt
  have hbi : (b.toUInt64 + borrow).toNat = b.toNat + borrow.toNat := by
    rw [UInt64.toNat_add, UInt32.toNat_toUInt64]
    omega
  split
  · rename_i hge
    have hle : (b.toUInt64 + borrow).toNat ≤ a.toUInt64.toNat := hge
    rw [UInt64.toNat_toUInt32, UInt64.toNat_sub_of_le _ _ hge, hbi, UInt32.toNat_toUInt64]
    rw [hbi, UInt32.toNat_toUInt64] at hle
    omega
  · rename_i hlt
    have hlt : a.toUInt64.toNat < (b.toUInt64 + borrow).toNat := Nat.lt_of_not_le hlt
    rw [hbi, UInt32.toNat_toUInt64] at hlt
    have htop : (((1 : UInt64) <<< 32) + a.toUInt64).toNat = 2 ^ 32 + a.toNat := by
      rw [UInt64.toNat_add, UInt32.toNat_toUInt64]
      exact Nat.mod_eq_of_lt (Nat.lt_trans (Nat.add_lt_add_left ha (2 ^ 32)) (by decide))
    have hle : b.toUInt64 + borrow ≤ ((1 : UInt64) <<< 32) + a.toUInt64 := by
      rw [UInt64.le_iff_toNat_le, htop, hbi]
      omega
    rw [UInt64.toNat_toUInt32, UInt64.toNat_sub_of_le _ _ hle, htop, hbi]
    omega

/-- The loop of the subtractions: the words and what is taken off are what it is taken from and the borrow out. -/
theorem bigSubLoop_value (borrow : UInt64) (hborrow : borrow.toNat ≤ 1) {as bs : List UInt32} (hlen : as.length = bs.length) :
    value (bigSubLoop borrow as bs).1 + value bs + borrow.toNat =
        value as + 2 ^ (32 * as.length) * (bigSubLoop borrow as bs).2.toNat ∧ (bigSubLoop borrow as bs).2.toNat ≤ 1 := by
  induction as generalizing bs borrow with
  | nil =>
    obtain rfl := List.eq_nil_of_length_eq_zero hlen.symm
    simp [bigSubLoop, hborrow]
  | cons a as ih =>
    obtain _ | ⟨b, bs⟩ := bs
    · cases hlen
    · have hword := sub_word (a := a) (b := b) hborrow
      simp only [bigSubLoop]
      split
      · rename_i hge
        rw [if_pos hge] at hword
        obtain ⟨hrest, hout⟩ := ih 0 (Nat.zero_le 1) (Nat.succ.inj hlen)
        refine ⟨?_, hout⟩
        simp only [value_cons, List.length_cons, pow_succ_words]
        simp only [UInt64.toNat_zero, Nat.add_zero] at hrest
        linear_combination hword + 2 ^ 32 * hrest
      · rename_i hlt
        rw [if_neg hlt] at hword
        obtain ⟨hrest, hout⟩ := ih 1 (Nat.le_refl 1) (Nat.succ.inj hlen)
        refine ⟨?_, hout⟩
        simp only [value_cons, List.length_cons, pow_succ_words]
        simp only [UInt64.toNat_one] at hrest
        linear_combination hword + 2 ^ 32 * hrest

/-- The subtractions: what is smaller is taken off, and the borrow tells when it is not. -/
theorem subWords_value {n : Nat} (a b : Limbs n) :
    (subWords a b).1.value + b.value = a.value + 2 ^ (32 * n) * (subWords a b).2.toNat ∧ (subWords a b).2.toNat ≤ 1 := by
  obtain ⟨hdiff, hout⟩ := bigSubLoop_value 0 (Nat.zero_le 1) (a.length_words.trans b.length_words.symm)
  rw [a.length_words] at hdiff
  have hborrow : (subWords a b).2.toNat = (bigSubLoop 0 a.words b.words).2.toNat := by
    rw [subWords, UInt64.toNat_toUInt32]
    omega
  rw [hborrow]
  exact ⟨hdiff, hout⟩

/-- A difference that is not negative. -/
theorem subWords_of_le {n : Nat} {a b : Limbs n} (h : b.value ≤ a.value) : (subWords a b).1.value = a.value - b.value := by
  obtain ⟨hdiff, hout⟩ := subWords_value a b
  have hlt := (subWords a b).1.value_lt
  rcases Nat.le_one_iff_eq_zero_or_eq_one.mp hout with hzero | hone
  · rw [hzero] at hdiff
    omega
  · rw [hone] at hdiff
    omega

/-- A difference that wraps around once. -/
theorem subWords_of_lt {n : Nat} {a b : Limbs n} (h : a.value < b.value) :
    (subWords a b).1.value + b.value = a.value + 2 ^ (32 * n) := by
  obtain ⟨hdiff, hout⟩ := subWords_value a b
  rcases Nat.le_one_iff_eq_zero_or_eq_one.mp hout with hzero | hone
  · rw [hzero] at hdiff
    omega
  · rw [hone] at hdiff
    omega

/-! ## Comparison -/

/-- The comparison from the highest word down decides the order of the numbers. -/
theorem bigCmpLoop_nonneg_iff {as bs : List UInt32} (hlen : as.length = bs.length) :
    0 ≤ bigCmpLoop as bs ↔ value bs.reverse ≤ value as.reverse := by
  induction as generalizing bs with
  | nil =>
    obtain rfl := List.eq_nil_of_length_eq_zero hlen.symm
    simp [bigCmpLoop]
  | cons a as ih =>
    obtain _ | ⟨b, bs⟩ := bs
    · cases hlen
    · have has := value_lt as.reverse
      have hbs := value_lt bs.reverse
      have hlen' : as.length = bs.length := Nat.succ.inj hlen
      rw [List.length_reverse] at has hbs
      rw [List.reverse_cons, List.reverse_cons, value_concat, value_concat, List.length_reverse, List.length_reverse, ← hlen']
      rw [← hlen'] at hbs
      simp only [bigCmpLoop, gt_iff_lt, UInt32.lt_iff_toNat_lt]
      rcases Nat.lt_trichotomy a.toNat b.toNat with hlt | heq | hgt
      · have hmul := Nat.mul_le_mul_left (2 ^ (32 * as.length)) hlt
        rw [Nat.mul_succ] at hmul
        rw [if_neg (by omega), if_pos hlt]
        omega
      · rw [if_neg (by omega), if_neg (by omega), ih hlen', heq]
        omega
      · have hmul := Nat.mul_le_mul_left (2 ^ (32 * as.length)) hgt
        rw [Nat.mul_succ] at hmul
        rw [if_pos hgt]
        omega

/-- `big_cmp`. -/
theorem bigCmp_nonneg_iff (a b : Uint256) : bigCmp a b ≥ 0 ↔ b.value ≤ a.value := by
  have hlen : a.words.reverse.length = b.words.reverse.length := by
    rw [List.length_reverse, List.length_reverse, a.length_words, b.length_words]
  have h := bigCmpLoop_nonneg_iff hlen
  rwa [List.reverse_reverse, List.reverse_reverse] at h

/-- `big_cmp512`. -/
theorem bigCmp512_nonneg_iff (a b : Uint512) : bigCmp512 a b ≥ 0 ↔ b.value ≤ a.value := by
  have hlen : a.words.reverse.length = b.words.reverse.length := by
    rw [List.length_reverse, List.length_reverse, a.length_words, b.length_words]
  have h := bigCmpLoop_nonneg_iff hlen
  rwa [List.reverse_reverse, List.reverse_reverse] at h

/-! ## Shifts -/

/-- Shifting a double word up and filling the free bits. -/
theorem shl_or {t k c : UInt64} (hk : k.toNat < 64) (hc : c.toNat < 2 ^ k.toNat) (ht : t.toNat * 2 ^ k.toNat < 2 ^ 64) :
    ((t <<< k) ||| c).toNat = t.toNat * 2 ^ k.toNat + c.toNat := by
  rw [UInt64.toNat_or, UInt64.toNat_shiftLeft, Nat.mod_eq_of_lt hk, Nat.shiftLeft_eq, Nat.mod_eq_of_lt ht,
    ← Nat.shiftLeft_eq, ← Nat.shiftLeft_add_eq_or_of_lt hc]

/-- The loop of `big_shr1`: twice the words, and the bit that falls out, are the words with the bit that comes in on top. -/
theorem bigShr1Loop_value (carry : UInt64) (hcarry : carry.toNat ≤ 1) (as : List UInt32) :
    ∃ bit ≤ 1, 2 * value (bigShr1Loop carry as).reverse + bit = carry.toNat * 2 ^ (32 * as.length) + value as.reverse := by
  induction as generalizing carry with
  | nil => exact ⟨carry.toNat, hcarry, by simp [bigShr1Loop]⟩
  | cons a as ih =>
    have ha := a.toNat_lt
    set temp := (carry <<< 32) ||| a.toUInt64 with htemp
    have htemp' : temp.toNat = carry.toNat * 2 ^ 32 + a.toNat := by
      have h32 : (32 : UInt64).toNat = 32 := rfl
      rw [htemp, shl_or (by decide) (by rw [h32, UInt32.toNat_toUInt64]; exact ha) (by rw [h32]; omega), h32,
        UInt32.toNat_toUInt64]
    have hbit0 : (temp &&& 1).toNat = temp.toNat % 2 := by
      rw [UInt64.toNat_and]
      exact Nat.and_one_is_mod _
    have hhalf : 2 * (temp >>> 1).toUInt32.toNat + (temp &&& 1).toNat = temp.toNat := by
      have hshift : (temp >>> 1).toNat = temp.toNat / 2 := by
        rw [UInt64.toNat_shiftRight, Nat.shiftRight_eq_div_pow]
        rfl
      rw [UInt64.toNat_toUInt32, hshift, hbit0]
      omega
    obtain ⟨bit, hbit, hrest⟩ := ih (temp &&& 1) (by omega)
    refine ⟨bit, hbit, ?_⟩
    simp only [bigShr1Loop, List.reverse_cons, value_concat, List.length_reverse, length_bigShr1Loop, List.length_cons,
      pow_succ_words, ← htemp]
    linear_combination hrest + 2 ^ (32 * as.length) * (hhalf + htemp')

/-- `big_shr1` halves. -/
theorem bigShr1_value (a : Uint256) : (bigShr1 a).value = a.value / 2 := by
  obtain ⟨bit, hbit, hhalf⟩ := bigShr1Loop_value 0 (Nat.zero_le 1) a.words.reverse
  rw [List.reverse_reverse, UInt64.toNat_zero, Nat.zero_mul, Nat.zero_add] at hhalf
  have hval : (bigShr1 a).value = value (bigShr1Loop 0 a.words.reverse).reverse := rfl
  have ha : a.value = value a.words := rfl
  omega

/-- The loop of `big512_shl`: the words and the carry out are the shifted words and the carry in. -/
theorem big512ShlLoop_value {k : UInt64} (carry : UInt64) (hk : k.toNat ≤ 32) (hcarry : carry.toNat < 2 ^ k.toNat) (as : List UInt32) :
    value (big512ShlLoop k carry as).1 + 2 ^ (32 * as.length) * (big512ShlLoop k carry as).2.toNat =
        value as * 2 ^ k.toNat + carry.toNat ∧ (big512ShlLoop k carry as).2.toNat < 2 ^ k.toNat := by
  induction as generalizing carry with
  | nil => simp [big512ShlLoop, hcarry]
  | cons a as ih =>
    have ha := a.toNat_lt
    have hfit : (a.toNat + 1) * 2 ^ k.toNat ≤ 2 ^ 32 * 2 ^ k.toNat := Nat.mul_le_mul_right _ ha
    have hdouble : 2 ^ 32 * 2 ^ k.toNat ≤ 2 ^ 64 := by
      rw [← Nat.pow_add]
      exact Nat.pow_le_pow_right (by decide) (by omega)
    rw [Nat.succ_mul] at hfit
    set temp := (a.toUInt64 <<< k) ||| carry with htemp
    have htemp' : temp.toNat = a.toNat * 2 ^ k.toNat + carry.toNat := by
      rw [htemp, shl_or (by omega) hcarry (by rw [UInt32.toNat_toUInt64]; omega), UInt32.toNat_toUInt64]
    have hsplit := low_add_high temp
    have hhigh : (temp >>> 32).toNat < 2 ^ k.toNat := by
      have hmul : 2 ^ 32 * (temp >>> 32).toNat < 2 ^ 32 * 2 ^ k.toNat := by omega
      exact Nat.lt_of_mul_lt_mul_left hmul
    obtain ⟨hrest, hout⟩ := ih _ hhigh
    refine ⟨?_, hout⟩
    simp only [big512ShlLoop, value_cons, List.length_cons, pow_succ_words, ← htemp]
    linear_combination hsplit + 2 ^ 32 * hrest + htemp'

/-- `big512_shl` shifts a number that fits after the shift. -/
theorem big512Shl_value {a : Uint256} {k : Nat} (wordShift bitShift : Nat) (ha : a.value < 2 ^ k) (hword : wordShift ≤ 8)
    (hbit : bitShift < 32) (hfit : k + (32 * wordShift + bitShift) ≤ 512) :
    (big512Shl a wordShift bitShift).value = a.value * 2 ^ (32 * wordShift + bitShift) := by
  unfold big512Shl
  rw [dif_neg (Nat.not_lt.mpr hword)]
  split
  · rename_i hzero
    rw [hzero, Nat.add_zero, Limbs.value, value_append, value_append, value_replicate_zero, value_replicate_zero,
      List.length_replicate, Nat.zero_add, Nat.mul_zero, Nat.add_zero, Nat.mul_comm, Limbs.value]
  · have hk : (UInt64.ofNat bitShift).toNat = bitShift := by
      rw [UInt64.toNat_ofNat']
      omega
    obtain ⟨hshift, hout⟩ := big512ShlLoop_value (k := .ofNat bitShift) 0 (by omega) (Nat.two_pow_pos _) a.words
    rw [hk, UInt64.toNat_zero, Nat.add_zero, a.length_words] at hshift
    rw [hk] at hout
    simp only [Limbs.value, value_append, value_replicate_zero, List.length_replicate, length_big512ShlLoop, a.length_words,
      List.length_append, Nat.zero_add]
    rw [Nat.mul_add, Nat.pow_add, Nat.pow_add]
    split
    · -- the carry goes into a word of its own
      have hcarry : (big512ShlLoop (.ofNat bitShift) 0 a.words).2.toUInt32.toNat =
          (big512ShlLoop (.ofNat bitShift) 0 a.words).2.toNat := by
        have h32 : 2 ^ bitShift ≤ 2 ^ 32 := Nat.pow_le_pow_right (by decide) (by omega)
        rw [UInt64.toNat_toUInt32]
        omega
      rw [value_cons, value_replicate_zero, hcarry]
      linear_combination 2 ^ (32 * wordShift) * hshift
    · -- the shift ends at the highest word, and the carry is zero
      have hless : value a.words * 2 ^ bitShift < 2 ^ 256 := by
        calc value a.words * 2 ^ bitShift
          _ < 2 ^ k * 2 ^ bitShift := Nat.mul_lt_mul_of_pos_right ha (Nat.two_pow_pos bitShift)
          _ = 2 ^ (k + bitShift) := (Nat.pow_add 2 k bitShift).symm
          _ ≤ 2 ^ 256 := Nat.pow_le_pow_right (by decide) (by omega)
      have hzero : (big512ShlLoop (.ofNat bitShift) 0 a.words).2.toNat = 0 := by omega
      rw [hzero] at hshift
      rw [value_nil]
      linear_combination 2 ^ (32 * wordShift) * hshift

/-! ## Multiplication -/

/-- A row of `big_mul`, on the words that the rows before have left: the product of a word is added, and the word behind it is
the last carry. -/
theorem bigMulRow_value (ai : UInt32) (carry : UInt64) (hcarry : carry.toNat < 2 ^ 32) {bs low : List UInt32}
    (hlen : low.length = bs.length) (w : UInt32) (zs : List UInt32) :
    ∃ row, bigMulRow ai carry bs (low ++ w :: zs) = row ++ zs ∧ row.length = bs.length + 1 ∧
      value row = ai.toNat * value bs + value low + carry.toNat := by
  induction bs generalizing carry low with
  | nil =>
    obtain rfl := List.eq_nil_of_length_eq_zero hlen
    refine ⟨[carry.toUInt32], rfl, rfl, ?_⟩
    rw [value_cons, UInt64.toNat_toUInt32, Nat.mod_eq_of_lt hcarry]
    simp
  | cons b bs ih =>
    obtain _ | ⟨r, low⟩ := low
    · cases hlen
    · set t := ai.toUInt64 * b.toUInt64 + r.toUInt64 + carry with ht
      have ht' : t.toNat = ai.toNat * b.toNat + r.toNat + carry.toNat := by
        have hmul : ai.toNat * b.toNat ≤ (2 ^ 32 - 1) * (2 ^ 32 - 1) :=
          Nat.mul_le_mul (Nat.le_sub_one_of_lt ai.toNat_lt) (Nat.le_sub_one_of_lt b.toNat_lt)
        have hr := r.toNat_lt
        rw [ht, UInt64.toNat_add, UInt64.toNat_add, UInt64.toNat_mul]
        simp only [UInt32.toNat_toUInt64]
        omega
      have hsplit := low_add_high t
      obtain ⟨row, hrow, hrowlen, hval⟩ := ih _ (high_lt t) (Nat.succ.inj hlen)
      refine ⟨t.toUInt32 :: row, ?_, congrArg (· + 1) hrowlen, ?_⟩
      · rw [List.cons_append, bigMulRow, ← ht, hrow, List.cons_append]
      · simp only [value_cons]
        linear_combination hsplit + 2 ^ 32 * hval + ht'

/-- The rows of `big_mul`. Behind the words that the rows so far have left all words are still zero. -/
theorem bigMulLoop_value {bs low : List UInt32} (hlen : low.length = bs.length) (as : List UInt32) :
    value (bigMulLoop bs as (low ++ List.replicate as.length 0)) = value low + value as * value bs := by
  induction as generalizing low with
  | nil => simp [bigMulLoop]
  | cons a as ih =>
    obtain ⟨row, hrow, hrowlen, hval⟩ := bigMulRow_value a 0 (Nat.two_pow_pos 32) hlen 0 (List.replicate as.length 0)
    obtain _ | ⟨r, low'⟩ := row
    · cases hrowlen
    · rw [List.length_cons, List.replicate_succ, bigMulLoop, hrow, List.cons_append]
      simp only [value_cons, ih (Nat.succ.inj hrowlen)]
      rw [value_cons] at hval
      rw [UInt64.toNat_zero, Nat.add_zero] at hval
      linear_combination hval

/-- `big_mul` multiplies. -/
theorem bigMul_value (a b : Uint256) : (bigMul a b).value = a.value * b.value := by
  have hzeros : List.replicate 16 (0 : UInt32) = List.replicate 8 0 ++ List.replicate a.words.length 0 := by
    rw [a.length_words]
    rfl
  have hlen : (List.replicate 8 (0 : UInt32)).length = b.words.length := b.length_words.symm
  have h := bigMulLoop_value hlen a.words
  rw [← hzeros, value_replicate_zero, Nat.zero_add] at h
  exact h

end AuthVideo
